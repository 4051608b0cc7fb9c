import Cnd.Proofs.Token.Scan
import Cnd.Proofs.Token.Segment

/-!
A lexer that is asked for one token at a time.

Each answer is a fault, a token behind which less of the text is left, or the ending, where nothing
is left and where the lexer stays (`Lexer.advances`). A scan is what a lexer answers up to the first
ending or fault (`Lexer.remaining_of_token` and the lemmas beside it), so that it holds at most one
token for each character, and behind them one ending or a fault (`scan_cases`).
-/

namespace Cnd

/-- A lexer: where it is, and what of the text is left. -/
structure Lexer where
  position : Position
  rest : List Char

namespace Lexer

def start (text : List Char) : Lexer := ⟨.start, text⟩

/-- The next token and the lexer behind it. At the end of the text that is the ending, again and
again. -/
def next (l : Lexer) : Except ScanError (Token × Lexer) :=
  match Scan.next l.position l.rest with
  | .error e => .error e
  | .ok (.inl q) => .ok (⟨.ending, q⟩, ⟨q, []⟩)
  | .ok (.inr (t, q, r)) => .ok (t, ⟨q, r⟩)

/-- What is left of a scan. -/
def remaining (l : Lexer) : Scanned :=
  match Scan.tokensFrom l.position l.rest with
  | (ts, .ok q) => ⟨ts ++ [⟨.ending, q⟩], none⟩
  | (ts, .error e) => ⟨ts, some e⟩

theorem remaining_start (text : List Char) : (start text).remaining = Token.scan text := rfl

end Lexer

/-! ## What is taken of a text -/

namespace Scan

variable {p q : Position} {s r : List Char}

theorem taken_of_skip {g : Gap} (h : skip g p s = .ok (q, r)) :
    ∃ gap, s = gap ++ r ∧ q = p.afterAll gap := by
  fun_induction skip g p s with
  | case1 | case6 =>
    obtain ⟨rfl, rfl⟩ := Prod.mk.inj (Except.ok.inj h)
    exact ⟨[], rfl, rfl⟩
  | case5 p c rest =>
    obtain ⟨rfl, rfl⟩ := Prod.mk.inj (Except.ok.inj h)
    exact ⟨[], rfl, rfl⟩
  | case8 => simp at h
  | case2 p rest ih =>
    obtain ⟨gap, rfl, rfl⟩ := ih h
    exact ⟨'/' :: '/' :: gap, rfl, rfl⟩
  | case3 p rest ih =>
    obtain ⟨gap, rfl, rfl⟩ := ih h
    exact ⟨'/' :: '*' :: gap, rfl, rfl⟩
  | case9 p rest _ ih =>
    obtain ⟨gap, rfl, rfl⟩ := ih h
    exact ⟨'*' :: '/' :: gap, rfl, rfl⟩
  | case4 p c rest _ _ _ ih | case7 p c rest ih =>
    obtain ⟨gap, rfl, rfl⟩ := ih h
    exact ⟨c :: gap, rfl, rfl⟩
  | case10 start p c rest _ ih =>
    obtain ⟨gap, rfl, rfl⟩ := ih h
    exact ⟨c :: gap, rfl, rfl⟩

theorem taken_of_quotedBody {body : List Char} (h : quotedBody p s = some (body, q, r)) :
    ∃ raw, s = raw ++ r ∧ q = p.afterAll raw := by
  obtain ⟨raw, rfl, hd⟩ := decodes_of_quotedBody h
  rw [quotedBody_of_decodes hd p r] at h
  obtain ⟨-, hq⟩ := Prod.mk.inj (Option.some.inj h)
  exact ⟨raw ++ ['\''], by simp, (Prod.mk.inj hq).1.symm⟩

theorem taken_of_token {t : Token} (h : token p s = .ok (some (t, q, r))) :
    ∃ taken, taken ≠ [] ∧ s = taken ++ r ∧ q = p.afterAll taken := by
  cases s with
  | nil => simp [token] at h
  | cons c rest =>
    simp only [token] at h
    split at h
    · simp only [Except.ok.injEq, Option.some.injEq, Prod.mk.injEq] at h
      obtain ⟨-, rfl, rfl⟩ := h
      exact ⟨[c], by simp, rfl, rfl⟩
    split at h
    · split at h
      · simp at h
      · rename_i hq
        simp only [Except.ok.injEq, Option.some.injEq, Prod.mk.injEq] at h
        obtain ⟨-, rfl, rfl⟩ := h
        obtain ⟨raw, rfl, rfl⟩ := taken_of_quotedBody hq
        exact ⟨c :: raw, by simp, rfl, rfl⟩
    split at h
    · simp only [Except.ok.injEq, Option.some.injEq, Prod.mk.injEq] at h
      obtain ⟨-, rfl, rfl⟩ := h
      exact ⟨c :: rest.takeWhile isWordChar, by simp, by simp, rfl⟩
    · simp at h

theorem taken_of_next {t : Token} (h : next p s = .ok (.inr (t, q, r))) :
    ∃ taken, taken ≠ [] ∧ s = taken ++ r ∧ q = p.afterAll taken := by
  unfold next at h
  split at h
  · simp at h
  · rename_i hskip
    split at h
    · simp at h
    · simp at h
    · rename_i htoken
      obtain rfl := Sum.inr.inj (Except.ok.inj h)
      obtain ⟨gap, rfl, rfl⟩ := taken_of_skip hskip
      obtain ⟨taken, hne, rfl, rfl⟩ := taken_of_token htoken
      exact ⟨gap ++ taken, by simp [hne], by simp, by simp [Position.afterAll]⟩

/-- The ending stands behind the whole text. -/
theorem position_of_end (h : next p s = .ok (.inl q)) : q = p.afterAll s := by
  unfold next at h
  split at h
  · simp at h
  · rename_i q' r hskip
    split at h
    · simp at h
    · rename_i htoken
      obtain rfl := Sum.inl.inj (Except.ok.inj h)
      obtain ⟨gap, rfl, rfl⟩ := taken_of_skip hskip
      have hr : r = [] := by
        cases r with
        | nil => rfl
        | cons c rest =>
          simp only [token] at htoken
          split at htoken
          · simp at htoken
          split at htoken
          · split at htoken <;> simp at htoken
          split at htoken <;> simp at htoken
      rw [hr, List.append_nil]
    · simp at h

theorem length_tokensFrom_le (p : Position) (s : List Char) :
    (tokensFrom p s).1.length ≤ s.length := by
  fun_induction tokensFrom p s with
  | case1 | case2 => simp
  | case3 p s t q r hn ts stop heq ih =>
    have hlt := next_shorter hn
    rw [heq] at ih
    simp only [List.length_cons] at ih ⊢
    omega

end Scan

namespace Lexer

variable {l l' : Lexer} {t : Token} {e : ScanError}

/-- What a lexer may answer. -/
inductive Advances (l : Lexer) : Except ScanError (Token × Lexer) → Prop
  | fault (e : ScanError) : Advances l (.error e)
  /-- A token, behind the characters that are taken. -/
  | token {t : Token} {l' : Lexer} {taken : List Char} (ht : t.isEnding = false)
      (hne : taken ≠ []) (hrest : l.rest = taken ++ l'.rest)
      (hposition : l'.position = l.position.afterAll taken) : Advances l (.ok (t, l'))
  /-- The ending, behind all characters, and the same again from there. -/
  | ending {t : Token} {l' : Lexer} (ht : t.isEnding = true) (hrest : l'.rest = [])
      (hposition : t.position = l.position.afterAll l.rest) (hstays : l'.next = .ok (t, l')) :
      Advances l (.ok (t, l'))

theorem advances (l : Lexer) : l.Advances l.next := by
  rcases h : l.next with e | ⟨t, l'⟩
  · exact .fault e
  unfold next at h
  split at h
  · simp at h
  · rename_i q hq
    obtain ⟨rfl, rfl⟩ := Prod.mk.inj (Except.ok.inj h)
    exact .ending rfl rfl (Scan.position_of_end hq) rfl
  · rename_i u q r ht
    obtain ⟨rfl, rfl⟩ := Prod.mk.inj (Except.ok.inj h)
    obtain ⟨taken, hne, hrest, hq⟩ := Scan.taken_of_next ht
    exact .token (Scan.not_ending_of_next ht) hne hrest hq

/-- What is left behind a token is shorter, by one character at least unless that is the ending. -/
theorem length_of_next (h : l.next = .ok (t, l')) :
    (l'.rest.length + if t.isEnding then 0 else 1) ≤ l.rest.length := by
  have hl := l.advances
  rw [h] at hl
  cases hl with
  | token ht hne hrest hposition =>
    have := List.length_pos_iff.2 hne
    rw [hrest, List.length_append, ht]
    simp only [Bool.false_eq_true, if_false]
    omega
  | ending ht hrest hposition hstays => simp [ht, hrest]

/-! ## A scan as a run of answers -/

theorem remaining_of_error (h : l.next = .error e) : l.remaining = ⟨[], some e⟩ := by
  unfold next at h
  split at h
  · rename_i he
    obtain rfl := Except.error.inj h
    rw [remaining, Scan.tokensFrom_of_error he]
  · simp at h
  · simp at h

theorem remaining_of_ending (h : l.next = .ok (t, l')) (ht : t.isEnding = true) :
    l.remaining = ⟨[t], none⟩ := by
  unfold next at h
  split at h
  · simp at h
  · rename_i q hq
    obtain ⟨rfl, -⟩ := Prod.mk.inj (Except.ok.inj h)
    rw [remaining, Scan.tokensFrom_of_end hq]
    rfl
  · rename_i hn
    obtain ⟨rfl, -⟩ := Prod.mk.inj (Except.ok.inj h)
    rw [Scan.not_ending_of_next hn] at ht
    simp at ht

theorem remaining_of_token (h : l.next = .ok (t, l')) (ht : t.isEnding = false) :
    l.remaining = ⟨t :: l'.remaining.tokens, l'.remaining.fault⟩ := by
  unfold next at h
  split at h
  · simp at h
  · obtain ⟨rfl, -⟩ := Prod.mk.inj (Except.ok.inj h)
    simp [Token.isEnding] at ht
  · rename_i _ q r hn
    obtain ⟨rfl, rfl⟩ := Prod.mk.inj (Except.ok.inj h)
    rw [remaining, remaining, Scan.tokensFrom_of_token hn]
    rcases Scan.tokensFrom q r with ⟨ts, e | stop⟩ <;> rfl

end Lexer

/-- A scan has at most one token for each character, none of which is the ending, and then the
ending or a fault. -/
theorem scan_cases (text : List Char) :
    ∃ ts, ts.length ≤ text.length ∧ (∀ t ∈ ts, t.isEnding = false) ∧
      ((∃ stop, Token.scan text = ⟨ts ++ [⟨.ending, stop⟩], none⟩) ∨
        ∃ e, Token.scan text = ⟨ts, some e⟩) := by
  refine ⟨_, Scan.length_tokensFrom_le .start text, Scan.not_ending_of_mem, ?_⟩
  rw [Token.scan]
  rcases Scan.tokensFrom .start text with ⟨ts, e | stop⟩
  · exact .inr ⟨e, rfl⟩
  · exact .inl ⟨stop, rfl⟩

end Cnd
