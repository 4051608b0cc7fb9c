import Cnd.Proofs.Yaml.Cursor
import Cnd.Yaml.Token
import Mathlib.Data.List.Nodup
import Mathlib.Data.List.TakeWhile

/-!
Single steps of reading tokens, outside of brackets.

Between two tokens a reading stands at a place where no key is possible (`Stands`). `Comes` says that
reading gets from a place to the end of a token, `Leads` that it gets to another place with the gap
passed; `lexemes` is what has been read up to there, with the marks of keys in their places.
-/

namespace Cnd.Yaml

/-! ## The lexemes of a reading -/

section Marks

variable {ts us : List Token} {ks ls : List KeyMark} {n : Nat}

/-- Marks of later tokens are left where those of a token are taken. -/
theorem keyMarks_append (h : ∀ k ∈ ls, k.before ≠ n) :
    (ks ++ ls).takeWhile (·.before == n) = ks.takeWhile (·.before == n) ∧
      (ks ++ ls).dropWhile (·.before == n) = ks.dropWhile (·.before == n) ++ ls := by
  induction ks with
  | nil =>
    cases ls with
    | nil => exact ⟨rfl, rfl⟩
    | cons k ls => simp [h k (List.mem_cons_self ..)]
  | cons k ks ih =>
    by_cases hk : k.before = n
    · simp [hk, ih]
    · simp [hk]

/-- Behind the marks of a token are those of later tokens. -/
theorem lt_of_mem_later (hle : ∀ k ∈ ks, n ≤ k.before)
    (hordered : ks.Pairwise fun a b => a.before < b.before) :
    ∀ k ∈ ks.dropWhile (·.before == n), n < k.before := by
  cases ks with
  | nil => simp
  | cons first ks =>
    have hfirst := hle first (List.mem_cons_self ..)
    have hmore : ∀ k ∈ ks, n < k.before := fun k hk =>
      Nat.lt_of_le_of_lt hfirst (List.rel_of_pairwise_cons hordered hk)
    by_cases hhere : first.before = n
    · rw [List.dropWhile_cons_of_pos (by simp [hhere])]
      exact fun k hk => hmore k ((List.dropWhile_sublist _).mem hk)
    · rw [List.dropWhile_cons_of_neg (by simp [hhere])]
      exact List.forall_mem_cons.2 ⟨Nat.lt_of_le_of_ne hfirst (Ne.symm hhere), hmore⟩

/-- Marks behind a number of tokens belong to the tokens behind them. -/
theorem withKeys_append (hks : ∀ k ∈ ks, n ≤ k.before ∧ k.before < n + ts.length)
    (hordered : ks.Pairwise fun a b => a.before < b.before)
    (hls : ∀ k ∈ ls, n + ts.length ≤ k.before) :
    withKeys n (ts ++ us) (ks ++ ls) = withKeys n ts ks ++ withKeys (n + ts.length) us ls := by
  induction ts generalizing n ks with
  | nil =>
    have hnil : ks = [] := List.eq_nil_iff_forall_not_mem.2 fun k hk => by
      have := hks k hk
      simp only [List.length_nil] at this
      omega
    simp [hnil, withKeys]
  | cons t ts ih =>
    simp only [List.length_cons] at hks hls ⊢
    have hlater : ∀ k ∈ ls, n + 1 + ts.length ≤ k.before := fun k hk => by
      have := hls k hk
      omega
    have hrest : ∀ k ∈ ks.dropWhile (·.before == n), n + 1 ≤ k.before ∧ k.before < n + 1 + ts.length :=
      fun k hk => by
        have hlt := lt_of_mem_later (fun k hk => (hks k hk).1) hordered k hk
        have hbound := hks k ((List.dropWhile_sublist _).mem hk)
        omega
    obtain ⟨htake, hdrop⟩ := keyMarks_append (n := n) fun k hk => by
      have := hlater k hk
      omega
    rw [List.cons_append, withKeys, withKeys, htake, hdrop,
      ih hrest (hordered.sublist (List.dropWhile_sublist _)) hlater, Nat.add_right_comm n 1, Nat.add_assoc]
    simp only [List.append_assoc, List.cons_append]

/-- Marks of which each belongs to a later token than those behind it are sorted the other way
round. -/
theorem mergeSort_keyMarks (h : ks.Pairwise fun a b => b.before < a.before) :
    ks.mergeSort (fun a b => a.before ≤ b.before) = ks.reverse := by
  have hsorted : ks.reverse.Pairwise fun a b => decide (a.before ≤ b.before) = true :=
    List.pairwise_reverse.2 (h.imp fun hab => decide_eq_true (Nat.le_of_lt hab))
  have hmerged : (ks.mergeSort fun a b => a.before ≤ b.before).Pairwise
      fun a b => decide (a.before ≤ b.before) = true :=
    List.pairwise_mergeSort (fun a b c => by simpa using Nat.le_trans)
      (fun a b => by simpa using Nat.le_total _ _) ks
  have hperm := (List.mergeSort_perm ks fun a b => decide (a.before ≤ b.before)).trans
    ks.reverse_perm.symm
  have hplaces : (ks.map (·.before)).Nodup :=
    List.pairwise_map.2 (h.imp fun hlt => Nat.ne_of_gt hlt)
  exact hperm.eq_of_pairwise (fun a b ha hb hab hba =>
    List.inj_on_of_nodup_map hplaces (List.mem_mergeSort.1 ha) (List.mem_reverse.1 hb)
      (Nat.le_antisymm (of_decide_eq_true hab) (of_decide_eq_true hba))) hmerged hsorted

end Marks

/-- The tokens of a text that is read to its end, where each mark belongs to a later token than those
before it. -/
theorem Tokens.ofText_of_complete {text : List Char} {read : Reading × Option SyntaxFault}
    {ts : List Token} (htext : text.all isTextChar = true)
    (hread : Reading.all (text.length + 2) (.start text) = read) (hend : read.2 = none)
    (hkeys : read.1.keys.Pairwise fun a b => b.before < a.before)
    (hts : withKeys 0 (read.1.tokens.reverse.take read.1.count)
      (read.1.keys.filter (·.before < read.1.count)).reverse = ts) :
    Tokens.ofText text = ⟨ts, none⟩ := by
  rw [ofText, if_pos htext, hread]
  simp only [hend, Option.isSome_none, Bool.false_eq_true, if_false]
  rw [mergeSort_keyMarks (hkeys.filter _), hts]

namespace Reading

variable {r r' r₁ : Reading}

/-- What has been read, with the marks of keys in front of the tokens that they belong to. -/
def lexemes (r : Reading) : List Lexeme :=
  (withKeys 0 r.tokens.reverse r.keys.reverse).map (·.lexeme)

/-- The tokens are counted, and the marks of keys belong to different ones, the last one first. -/
structure Sound (r : Reading) : Prop where
  count : r.count = r.tokens.length
  marks : ∀ k ∈ r.keys, k.before < r.tokens.length
  ordered : r.keys.Pairwise fun a b => b.before < a.before

theorem Sound.push (h : r.Sound) {t : Token} (htokens : r'.tokens = t :: r.tokens)
    (hcount : r'.count = r.count + 1) (hkeys : r'.keys = r.keys) : r'.Sound := by
  refine ⟨by rw [hcount, htokens, h.count, List.length_cons], fun k hk => ?_, hkeys ▸ h.ordered⟩
  rw [htokens, List.length_cons]
  exact Nat.lt_succ_of_lt (h.marks k (hkeys ▸ hk))

/-- A token at the end, perhaps with the mark of a key. -/
theorem map_withKeys_concat (h : r.Sound) (t : Token) (marks : List KeyMark)
    (hmarks : ∀ k ∈ marks, k.before = r.tokens.length) :
    (withKeys 0 (r.tokens.reverse ++ [t]) (r.keys.reverse ++ marks)).map (·.lexeme) =
      r.lexemes ++ marks.flatMap (fun k => (if k.opensMapping then [.mappingStart] else []) ++ [.key]) ++
        [t.lexeme] := by
  have hkeys : ∀ k ∈ r.keys.reverse, 0 ≤ k.before ∧ k.before < 0 + r.tokens.reverse.length := by
    intro k hk
    have := h.marks k (List.mem_reverse.1 hk)
    rw [List.length_reverse]
    omega
  have hmarks' : ∀ k ∈ marks, 0 + r.tokens.reverse.length ≤ k.before := by
    intro k hk
    rw [hmarks k hk, List.length_reverse]
    omega
  rw [withKeys_append hkeys (List.pairwise_reverse.2 h.ordered) hmarks', List.map_append]
  have hall : marks.takeWhile (·.before == 0 + r.tokens.reverse.length) = marks := by
    refine List.takeWhile_eq_self_iff.2 fun k hk => ?_
    simp [hmarks k hk]
  rw [withKeys, hall]
  simp only [withKeys, List.map_append, List.map_flatMap, List.append_assoc, lexemes]
  congr 2
  refine congrArg (marks.flatMap ·) (funext fun k => ?_)
  split <;> rfl

theorem lexemes_push (h : r.Sound) {t : Token} (htokens : r'.tokens = t :: r.tokens)
    (hkeys : r'.keys = r.keys) : r'.lexemes = r.lexemes ++ [t.lexeme] := by
  rw [lexemes, htokens, hkeys, List.reverse_cons]
  simpa using map_withKeys_concat h t [] (by simp)

/-! ## Gaps -/

/-- A text that begins with a token, or is empty. -/
def Starts (t : List Char) : Prop :=
  StopsAt (fun ch => ch == ' ' || ch == '#' || isBreak ch || ch == '\ufeff') t

/-- The gap before the next token is passed. -/
def settle (r : Reading) : Except SyntaxFault Reading := r.skipToToken.dropStale

variable {c : Cursor} {t : List Char} {k : Nat}

theorem Starts.blank (h : Starts t) : StopsAt (· == ' ') t := h.imp fun d hd => by simp [hd]

theorem Starts.skipGap (h : Starts t) (hc : c.rest = List.replicate k ' ' ++ t) (fuel : Nat)
    (crossed : Bool) : skipGap (fuel + 1) c crossed = (c.advance k, crossed) := by
  have hrest := Cursor.rest_advance_blanks hc
  have hhash : ((c.advance k).peek == '#') = false := by
    refine Cursor.peek_ne (fun hhead => ?_) (by decide)
    rw [hrest] at hhead
    exact absurd (h '#' hhead) (by decide)
  have hbreak : StopsAt isBreak (c.advance k).rest := by
    rw [hrest]
    exact h.imp fun d hd => by simp [hd]
  rw [Reading.skipGap, Cursor.skipSpaces_blanks hc h.blank, Cursor.skipComment, hhash]
  simp only [Bool.false_eq_true, if_false, Cursor.lineBreak?_eq_none hbreak]

theorem Starts.skipToToken (h : Starts t) (hc : r.cursor.rest = List.replicate k ' ' ++ t) :
    r.skipToToken = { r with cursor := r.cursor.advance k } := by
  have hmark : (r.cursor.peek == '\ufeff') = false := by
    refine Cursor.peek_ne (fun hhead => ?_) (by decide)
    rw [hc] at hhead
    cases k with
    | zero => exact absurd (h '\ufeff' hhead) (by decide)
    | succ k => exact absurd (Option.some.inj hhead) (by decide)
  rw [Reading.skipToToken, hmark]
  simp [h.skipGap hc]

theorem Starts.skipToToken_newLine (h : Starts t) (hd : r.depth = 0)
    (hc : r.cursor.rest = '\n' :: (List.replicate k ' ' ++ t)) :
    r.skipToToken = { r with cursor := r.cursor.advance (k + 1), keyAllowed := true } := by
  have hmark : (r.cursor.peek == '\ufeff') = false := by
    rw [Cursor.peek_cons hc]
    rfl
  have hspaces : r.cursor.skipSpaces = r.cursor := Cursor.skip_eq_self (by rw [hc]; exact .cons rfl _)
  have hcomment : r.cursor.skipComment = r.cursor := by
    rw [Cursor.skipComment, Cursor.peek_cons hc]
    rfl
  have hgap : Reading.skipGap (r.cursor.rest.length + 1) r.cursor false =
      (r.cursor.advance (k + 1), true) := by
    obtain ⟨fuel, hfuel⟩ : ∃ fuel, r.cursor.rest.length = fuel + 1 := ⟨_, by rw [hc, List.length_cons]⟩
    rw [Reading.skipGap, hspaces, hcomment, Cursor.lineBreak?_eq_some hc rfl (by decide), hfuel]
    exact h.skipGap (Cursor.rest_next_cons hc) fuel true
  rw [Reading.skipToToken, hmark]
  simp [hgap, inFlow, hd]

theorem settle_blanks (hp : r.possible = []) (hc : r.cursor.rest = List.replicate k ' ' ++ t)
    (h : Starts t) : r.settle = .ok { r with cursor := r.cursor.advance k } := by
  rw [settle, h.skipToToken hc, dropStale]
  simp [hp]

/-- A possible key stays possible on its line. -/
theorem settle_key (h : Starts r.cursor.rest) (hfresh : ∀ p ∈ r.possible,
    p.2.place.line = r.cursor.line ∧ r.cursor.index - p.2.place.index ≤ 1024) : r.settle = .ok r := by
  have hstale : ∀ p ∈ r.possible, r.isStale p.2 = false := fun p hp => by
    obtain ⟨hline, hindex⟩ := hfresh p hp
    simp [isStale, hline, hindex]
  have hany : ¬ (r.possible.any fun p => r.isStale p.2 && p.2.required) = true := by
    simp only [List.any_eq_true, Bool.and_eq_true, not_exists, not_and]
    intro p hp hs
    exact absurd hs (by simp [hstale p hp])
  have hfilter : (r.possible.filter fun p => !r.isStale p.2) = r.possible :=
    List.filter_eq_self.2 fun p hp => by simp [hstale p hp]
  have hskip : r.skipToToken = r := h.skipToToken (k := 0) rfl
  rw [settle, hskip, dropStale, if_neg hany, hfilter]

theorem dropStale_all (h : ∀ p ∈ r.possible, p.2.required = false ∧ p.2.place.line < r.cursor.line) :
    r.dropStale = .ok { r with possible := [] } := by
  have hstale : ∀ p ∈ r.possible, r.isStale p.2 = true := fun p hp => by
    simp [isStale, Nat.ne_of_lt (h p hp).2]
  have hany : ¬ (r.possible.any fun p => r.isStale p.2 && p.2.required) = true := by
    simp only [List.any_eq_true, Bool.and_eq_true, not_exists, not_and]
    intro p hp _
    simp [(h p hp).1]
  have hfilter : (r.possible.filter fun p => !r.isStale p.2) = [] :=
    List.filter_eq_nil_iff.2 fun p hp => by simp [hstale p hp]
  rw [dropStale, if_neg hany, hfilter]

/-- Possible keys are none any more on another line. -/
theorem settle_newLine (hd : r.depth = 0) (hc : r.cursor.rest = '\n' :: (List.replicate k ' ' ++ t))
    (h : Starts t) (hp : ∀ p ∈ r.possible, p.2.required = false ∧ p.2.place.line ≤ r.cursor.line) :
    r.settle =
      .ok { r with cursor := r.cursor.advance (k + 1), keyAllowed := true, possible := [] } := by
  rw [settle, h.skipToToken_newLine hd hc]
  refine dropStale_all (r := { r with cursor := r.cursor.advance (k + 1), keyAllowed := true })
    fun p hp' => ⟨(hp p hp').1, ?_⟩
  have hline : (r.cursor.advance (k + 1)).line = r.cursor.line + 1 := by
    rw [Cursor.line, Cursor.mark_newLine hc]
  exact hline ▸ Nat.lt_succ_of_le (hp p hp').2

/-! ## Places between tokens -/

/-- What is done at a place where the gap is passed. -/
def proceed (fuel : Nat) (r : Reading) : Reading × Option SyntaxFault :=
  let r := r.unwind r.cursor.column
  if r.cursor.rest.isEmpty then
    match r.endText with
    | .ok r => (r, none)
    | .error e => (r, some e)
  else match r.take with
    | .ok r => all fuel r
    | .error e => (r, some e)

theorem all_of_settle (h : r.settle = .ok r') (fuel : Nat) : all (fuel + 1) r = proceed fuel r' := by
  rw [settle] at h
  rw [all, h]
  rfl

/-- Reading gets from one place to another, with no more steps than characters. -/
def Leads (r r' : Reading) : Prop :=
  ∃ n, n + r'.cursor.rest.length ≤ r.cursor.rest.length ∧
    ∀ fuel, proceed (fuel + n) r = proceed fuel r'

/-- Reading gets from a place to the end of a token. -/
def Comes (r r' : Reading) : Prop :=
  ∃ n, n + 1 + r'.cursor.rest.length ≤ r.cursor.rest.length ∧
    ∀ fuel, proceed (fuel + n) r = all fuel r'

theorem Leads.trans (h : Leads r r₁) (h' : Leads r₁ r') : Leads r r' := by
  obtain ⟨m, hm, hfirst⟩ := h
  obtain ⟨n, hn, hsecond⟩ := h'
  exact ⟨n + m, by omega, fun fuel => by rw [← Nat.add_assoc, hfirst, hsecond]⟩

theorem Leads.comes (h : Leads r r₁) (h' : Comes r₁ r') : Comes r r' := by
  obtain ⟨m, hm, hfirst⟩ := h
  obtain ⟨n, hn, hsecond⟩ := h'
  exact ⟨n + m, by omega, fun fuel => by rw [← Nat.add_assoc, hfirst, hsecond]⟩

theorem Comes.settles (h : Comes r r₁) (hs : r₁.settle = .ok r')
    (hlen : r'.cursor.rest.length ≤ r₁.cursor.rest.length) : Leads r r' := by
  obtain ⟨n, hn, hall⟩ := h
  refine ⟨n + 1, by omega, fun fuel => ?_⟩
  rw [← all_of_settle hs, ← hall, Nat.add_right_comm, Nat.add_assoc]

/-- A place outside of brackets where no key is possible. If the text begins with a token, blocks may
have to be closed before it. -/
structure Stands (r : Reading) (text : List Char) (column : Nat) (indent : Int) (outer : List Int)
    (keyAllowed : Bool) : Prop where
  rest : r.cursor.rest = text
  column : r.cursor.column = column
  depth : r.depth = 0
  indent : r.indent = indent
  outer : r.outer = outer
  keyAllowed : r.keyAllowed = keyAllowed
  possible : r.possible = []
  sound : r.Sound

variable {text : List Char} {column : Nat} {indent : Int} {outer : List Int} {allowed : Bool}

/-- No block is closed at a column that is not left of it. -/
theorem unwind_eq_self {column : Int} (h : r.indent ≤ column) : r.unwind column = r := by
  rw [unwind]
  split
  · rfl
  · cases r.outer with
    | nil => rfl
    | cons i outer => rw [unwindTo, if_neg (Int.not_lt.2 h)]

/-- Where no block is closed, reading gets behind the next token. -/
theorem comes_of_take (hstay : r.unwind r.cursor.column = r) (ht : r.take = .ok r')
    (hlen : r'.cursor.rest.length < r.cursor.rest.length) : Comes r r' := by
  refine ⟨0, by omega, fun fuel => ?_⟩
  have hempty : r.cursor.rest.isEmpty = false := by
    cases hr : r.cursor.rest with
    | nil => simp [hr] at hlen
    | cons ch t => rfl
  rw [Nat.add_zero, proceed, hstay, hempty, ht]
  rfl

theorem Stands.comes (h : Stands r text column indent outer allowed) (hcolumn : indent ≤ column)
    (ht : r.take = .ok r') (hlen : r'.cursor.rest.length < text.length) : Comes r r' :=
  comes_of_take (unwind_eq_self (by rw [h.indent, h.column]; exact hcolumn)) ht (by rwa [h.rest])

/-- A block that is indented deeper than the next token is closed. -/
theorem Stands.closes {i : Int} (h : Stands r text column indent (i :: outer) allowed)
    (hcolumn : column < indent) : ∃ r', Leads r r' ∧ r'.lexemes = r.lexemes ++ [.blockEnd] ∧
      Stands r' text column i outer allowed := by
  have hflow : r.inFlow = false := by simp [inFlow, h.depth]
  let r' : Reading := { r.pushHere .blockEnd with indent := i, outer := outer }
  have hunwind : r.unwind column = r'.unwind column := by
    rw [unwind, hflow, if_neg Bool.false_ne_true, h.outer, unwindTo, h.indent, if_pos hcolumn, unwind,
      if_neg (by simp [r', inFlow, pushHere, push, h.depth])]
  have hleads : ∀ fuel, proceed (fuel + 0) r = proceed fuel r' := fun fuel => by
    have hcolumn' : r'.cursor.column = column := h.column
    rw [Nat.add_zero, proceed, proceed, h.column, hcolumn', hunwind]
  have hpushed : r'.tokens = ⟨.blockEnd, r.cursor.mark, r.cursor.mark⟩ :: r.tokens := rfl
  exact ⟨r', ⟨0, by simp [r', pushHere, push], hleads⟩, lexemes_push h.sound hpushed rfl,
    h.rest, h.column, h.depth, rfl, rfl, h.keyAllowed, h.possible, h.sound.push hpushed rfl rfl⟩

end Reading

end Cnd.Yaml
