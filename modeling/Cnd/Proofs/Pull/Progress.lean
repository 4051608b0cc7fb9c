import Cnd.Proofs.Pull.Document

/-!
Scanning and parsing make progress.

A round of a loop that goes on has taken a token, wherever it starts (`RoundsTake`). A text has at
most one token more than characters, so a parser with more rounds than characters is never
exhausted: it ends as a reading of the text does, and it has asked for no token twice
(`scan_and_parse_progress`).
-/

namespace Cnd

namespace Pull

/-! ## Rounds take tokens -/

/-- A parser takes a token from here on, if it has such a result. -/
def TakesIf {α : Type} (p : α → Prop) (m : Pull α) (s : Session) : Prop :=
  ∀ a, (m s).result = .ok a → p a → (m s).session.remainder < s.remainder

/-- A loop whose rounds take a token each, unless they end it. -/
def RoundsTake {σ α : Type} (round : σ → Pull (σ ⊕ α)) : Prop :=
  ∀ x s, TakesIf (·.isLeft) (round x) s

section

variable {source : Option String} {policy : ConflictPolicy} {α β : Type} {p : β → Prop} {m : Pull α}
  {k : α → Pull β} {s : Session}

theorem takesIf_pure {b : β} (h : ¬ p b) : TakesIf p (pure b) s := by
  intro b' hresult hp
  obtain rfl : b = b' := Except.ok.inj hresult
  exact absurd hp h

theorem takesIf_stop {e : Stop} : TakesIf p (stop e) s := fun _ h => nomatch h

/-- What is taken first is taken. -/
theorem takesIf_first (h : TakesIf (fun _ => True) m s) : TakesIf p (m >>= k) s := by
  intro b hresult _
  rcases hm : (m s).result with e | a
  · rw [bind_of_error hm] at hresult
    exact nomatch hresult
  · rw [bind_of_ok hm]
    exact Nat.lt_of_le_of_lt ((k a).forward _) (h a hm trivial)

/-- What is taken then is taken. -/
theorem takesIf_then (h : ∀ a, (m s).result = .ok a → TakesIf p (k a) (m s).session) :
    TakesIf p (m >>= k) s := by
  intro b hresult hp
  rcases hm : (m s).result with e | a
  · rw [bind_of_error hm] at hresult
    exact nomatch hresult
  · rw [bind_of_ok hm] at hresult ⊢
    exact Nat.lt_of_lt_of_le (h a hm b hresult hp) (m.forward s)

theorem takesIf_look {k : Token → Pull β} (h : TakesIf p (k s.token) s) :
    TakesIf p (current >>= k) s :=
  fun b => by
    rw [current_bind]
    exact h b

theorem takesIf_advance (ht : s.token.isEnding = false) :
    TakesIf (fun _ => True) (advance source) s := by
  intro _ hresult _
  rcases h : s.lexer.next with e | ⟨t, l⟩
  · rw [advance_of_error source h] at hresult
    exact nomatch hresult
  · have := Lexer.length_of_next h
    rw [advance_of_ok source h]
    simp only [Session.remainder, ht, Bool.false_eq_true, if_false]
    omega

theorem takesIf_checked {y : Except Failure α} (h : ∀ a, TakesIf p (k a) s) :
    TakesIf p (check y >>= k) s := by
  cases y with
  | error f => exact takesIf_then fun a ha => nomatch ha
  | ok b => exact takesIf_then fun a _ => h a

theorem takesIf_refuse {f : GrammarFault} : TakesIf p (refuse source f) s :=
  takesIf_then fun _ _ => takesIf_stop

/-- What is read as a text is the token looked at, which stays. -/
theorem expectText_eq_ok {e : Expected} {t : Token}
    (h : (expectText source e s).result = .ok t) :
    t = s.token ∧ t.isEnding = false ∧ (expectText source e s).session = s := by
  rw [expectText, current_bind] at h ⊢
  cases ht : s.token.text? with
  | none =>
    simp only [ht] at h
    exact nomatch h
  | some text =>
    simp only [ht] at h ⊢
    obtain rfl : s.token = t := Except.ok.inj h
    exact ⟨rfl, Outline.not_ending_of_text ht, rfl⟩

theorem takesIf_text {e : Expected} {k : Token → Pull β}
    (h : s.token.isEnding = false → TakesIf p (k s.token) s) :
    TakesIf p (expectText source e >>= k) s := by
  refine takesIf_then fun t ht => ?_
  obtain ⟨rfl, hend, hs⟩ := expectText_eq_ok ht
  rw [hs]
  exact h hend

theorem takesIf_expectSymbol (d : Delimiter) :
    TakesIf (fun _ => True) (expectSymbol source d) s := by
  refine takesIf_look ?_
  split
  · rename_i ht
    exact takesIf_advance (Outline.not_ending_of_isSymbol ht)
  · exact takesIf_refuse

theorem roundsTake_names (e : Expected) : RoundsTake (nameRound source e) := by
  refine fun names s => takesIf_look ?_
  split
  · rename_i ht
    exact takesIf_first (takesIf_advance (Outline.not_ending_of_isSymbol ht))
  · exact takesIf_pure (by simp)

theorem roundsTake_literals (e : Expected) : RoundsTake (literalRound source e) := by
  refine fun literals s => takesIf_then fun _ _ => takesIf_text fun ht => ?_
  exact takesIf_first (takesIf_advance ht)

theorem roundsTake_attributes (typeName : String) (item : Name) :
    RoundsTake (attributeRound source typeName item) := by
  refine fun x s => takesIf_look ?_
  split
  · exact takesIf_pure (by simp)
  · rename_i m hm
    refine takesIf_checked fun next => ?_
    exact takesIf_first (takesIf_advance (Outline.not_ending_of_mark hm))

theorem roundsTake_members (n : Nat) (owner : Name) : RoundsTake (memberRound source n owner) := by
  refine fun m s => takesIf_look ?_
  split
  · rename_i ht
    exact takesIf_first (takesIf_advance (Outline.not_ending_of_isSymbol ht))
  split
  · rename_i ht
    exact takesIf_first (takesIf_advance (Outline.not_ending_of_isSymbol ht))
  · exact takesIf_pure (by simp)

theorem roundsTake_clauses (n : Nat) : RoundsTake (clauseRound source policy n) := by
  refine fun types s => takesIf_look ?_
  split
  · exact takesIf_pure (by simp)
  split
  · rename_i ht
    refine takesIf_first (takesIf_look ?_)
    exact takesIf_first (takesIf_advance (Outline.not_ending_of_isSymbol ht))
  · exact takesIf_first (takesIf_first (takesIf_expectSymbol .typeOpen))

end

/-! ## The whole -/

/-- Nothing is answered behind the ending. -/
theorem nil_of_ending {text : List Char} {answers : List Answer}
    (h : answers <+: (Token.scan text).answers) {front behind : List Answer} {t : Token}
    (heq : answers = front ++ .ok t :: behind) (ht : t.isEnding = true) : behind = [] := by
  obtain ⟨more, hmore⟩ := h
  rw [heq, List.append_assoc, List.cons_append] at hmore
  obtain ⟨ts, last, hts, hlast⟩ : ∃ (ts : List Token) (last : Answer),
      (∀ t ∈ ts, t.isEnding = false) ∧ (Token.scan text).answers = ts.map .ok ++ [last] := by
    obtain ⟨ts, -, hts, ⟨stop, hscan⟩ | ⟨e, hscan⟩⟩ := scan_cases text
    · exact ⟨ts, .ok ⟨.ending, stop⟩, hts, by simp [hscan, Scanned.answers]⟩
    · exact ⟨ts, .error e, hts, by simp [hscan, Scanned.answers]⟩
  rcases eq_nil_or_mem_of_append (hlast.symm.trans hmore.symm) with hnil | hmem
  · exact (List.append_eq_nil_iff.1 hnil).1
  · obtain ⟨u, hu, hut⟩ := List.mem_map.1 hmem
    obtain rfl := Except.ok.inj hut
    simp [hts u hu] at ht

/-- **Scanning and parsing make progress.** A lexer has a fault, or a token behind which less of the
text is left, or the ending, where it stays. A scan has at most one token for each character, and
the ending last unless there is a fault. Every loop of a parser takes a token in each round that
goes on. So a parser with more rounds than characters ends as a reading does; it has asked for the
tokens one after the other, for all of them if the text is read to its end, and never behind the
ending. -/
theorem scan_and_parse_progress (source : String) (policy : ConflictPolicy) (ns : Namespaces)
    {text : String} {n : Nat} (h : text.length < n) :
    (∀ l : Lexer, l.Advances l.next) ∧
      (∃ ts, ts.length ≤ text.length ∧ (∀ t ∈ ts, t.isEnding = false) ∧
        ((∃ stop, Token.scan text.toList = ⟨ts ++ [⟨.ending, stop⟩], none⟩) ∨
          ∃ e, Token.scan text.toList = ⟨ts, some e⟩)) ∧
      (∀ (source : Option String) (n : Nat),
        RoundsTake (clauseRound source policy n) ∧ (∀ e, RoundsTake (nameRound source e)) ∧
          (∀ e, RoundsTake (literalRound source e)) ∧
          (∀ owner, RoundsTake (memberRound source n owner)) ∧
          ∀ typeName item, RoundsTake (attributeRound source typeName item)) ∧
      (parse n source policy ns text).outcome =
        (Definitions.read source policy ns text).outcome.mapError .failed ∧
      (parse n source policy ns text).events = (Definitions.read source policy ns text).events ∧
      (parse n source policy ns text).answers <+: (Token.scan text.toList).answers ∧
      ((Definitions.read source policy ns text).outcome.isOk →
        (parse n source policy ns text).answers = (Token.scan text.toList).answers) ∧
      ∀ front t behind, (parse n source policy ns text).answers = front ++ .ok t :: behind →
        t.isEnding = true → behind = [] := by
  obtain ⟨houtcome, hevents, hprefix, hall⟩ := parse_read source policy ns h
  have hscan := scan_cases text.toList
  rw [String.length_toList] at hscan
  refine ⟨Lexer.advances, hscan, fun source n => ?_, houtcome, hevents, hprefix, hall, ?_⟩
  · exact ⟨roundsTake_clauses n, roundsTake_names, roundsTake_literals, roundsTake_members n,
      roundsTake_attributes⟩
  · exact fun front t behind heq ht => nil_of_ending hprefix heq ht

/-- A text that stops behind its first sign: both tokens are asked for once. -/
theorem scan_and_parse_progress_cut_short :
    "[".length < 2 ∧
      (parse 2 "a.cnd" .error .builtin "[").outcome =
        (Definitions.read "a.cnd" .error .builtin "[").outcome.mapError .failed ∧
      (parse 2 "a.cnd" .error .builtin "[").answers =
        [.ok ⟨.symbol '[', ⟨1, 1⟩⟩, .ok ⟨.ending, ⟨1, 2⟩⟩] :=
  ⟨by decide, (scan_and_parse_progress "a.cnd" .error .builtin (by decide)).2.2.2.1, rfl⟩

end Pull

end Cnd
