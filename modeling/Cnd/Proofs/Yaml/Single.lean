import Cnd.Proofs.Yaml.Heard
import Cnd.Proofs.Yaml.Quoted

/-!
A text in single quotes is read as what `heard` says (`quoted_folded`).

The induction is on the text. Behind a line break there are more breaks or a new line, and which one
decides how the break is read; so two things are carried along, what is read of a text on its own
(`ReadsFolded`) and of one that goes on a run of breaks (`ReadsBehind`).
-/

namespace Cnd.Yaml.Scalar

variable {c c' : Cursor} {ch : Char} {t text : List Char}

theorem Reads.quote (h : c.rest = '\'' :: '\'' :: t) (hr : Reads false (c.advance 2) text c') :
    Reads false c ('\'' :: text) c' := by
  refine .step h fun fuel acc hfuel => ?_
  have hsecond : c.peekAt 1 = '\'' := by rw [Cursor.peekAt, h]; rfl
  have hrest : (c.advance 2).rest = t := by rw [Cursor.rest_advance, h]; rfl
  have hnext := hr fuel (acc ++ ['\'']) (by rw [hrest]; simp only [List.length_cons] at hfuel; omega)
  rw [List.append_assoc, List.singleton_append] at hnext
  rw [quotedBody, Cursor.peek_cons h, hsecond]
  exact hnext

theorem Reads.close (h : c.rest = '\'' :: t) (ht : t.head? ≠ some '\'') : Reads false c [] c.next := by
  refine .step h fun fuel acc hfuel => ?_
  have hsecond : (c.peekAt 1 == '\'') = false := by
    rw [Cursor.peekAt, h, List.drop_one, List.tail_cons, beq_eq_false_iff_ne]
    cases t with
    | nil => decide
    | cons d t => simpa using ht
  rw [quotedBody, Cursor.peek_cons h, hsecond, List.append_nil]
  rfl

theorem anyPair_cons (first second : Char → Bool) (ch : Char) (s : List Char) :
    Write.anyPair first second (ch :: s) =
      ((first ch && (s.head?.map second).getD false) || Write.anyPair first second s) := by
  cases s <;> simp [Write.anyPair]

theorem fitsSingle_cons {s : List Char} : Write.fitsSingle (ch :: s) = true ↔
    Write.isPrintable ch = true ∧ Write.fitsSingle s = true ∧
      (Write.isBreak ch = true → s.head? ≠ some ' ') ∧ (ch = ' ' → breaksFirst s = false) := by
  have hblank : (s.head?.map Write.isBlank).getD false = true ↔ s.head? = some ' ' := by
    cases s <;> simp [Write.isBlank]
  have hbreak : (s.head?.map Write.isBreak).getD false = breaksFirst s := rfl
  simp only [Write.fitsSingle, anyPair_cons, List.all_cons, Bool.and_eq_true, Bool.not_eq_true',
    Bool.or_eq_false_iff, Bool.and_eq_false_imp, hbreak, Write.isBlank, beq_iff_eq]
  rw [← Bool.not_eq_true, hblank]
  grind

section Folded

variable {indent : Nat} {split : Bool} {tail s : List Char}

theorem folded_ink (hink : IsInk ch) (column : Nat) (previous : Option Char) :
    Write.folded indent split column previous (ch :: s) =
      if ch = '\'' then '\'' :: '\'' :: Write.folded indent split (column + 2) (some ch) s
      else ch :: Write.folded indent split (column + 1) (some ch) s := by
  rw [Write.folded]
  simp only [beq_iff_eq, hink.2.2, if_false, hink.2.1, Bool.false_eq_true]

/-- Blanks in front of a text go on to a character of the text or to the quote behind it. -/
theorem goesOn_folded (hs : Write.fitsSingle s = true) (hfirst : breaksFirst s = false) (column : Nat) :
    GoesOn (Write.folded indent split column (some ' ') s ++ '\'' :: tail) := by
  induction s generalizing column with
  | nil => exact .cons rfl
  | cons ch s ih =>
    obtain ⟨hprint, hrest, -, hblank⟩ := fitsSingle_cons.1 hs
    have hbreak : Write.isBreak ch = false := by simpa [breaksFirst] using hfirst
    by_cases hch : ch = ' '
    · subst hch
      exact (ih hrest (hblank rfl) _).cons_blank
    · have hink : IsInk ch := ⟨hprint, hbreak, hch⟩
      rw [folded_ink hink]
      split
      · exact .cons rfl
      · exact .cons hink.not_isGap

/-- A text that goes on in a new line begins there with no blank and no break. -/
theorem stopsAt_folded (hs : Write.fitsSingle s = true) (hfirst : breaksFirst s = false)
    (hblank : s.head? ≠ some ' ') (column : Nat) (previous : Option Char) :
    StopsAt isGap (Write.folded indent split column previous s ++ '\'' :: tail) := by
  cases s with
  | nil => exact .cons rfl _
  | cons ch s =>
    obtain ⟨hprint, -⟩ := fitsSingle_cons.1 hs
    have hbreak : Write.isBreak ch = false := by simpa [breaksFirst] using hfirst
    have hch : ch ≠ ' ' := fun hch => hblank (by simp [hch])
    have hink : IsInk ch := ⟨hprint, hbreak, hch⟩
    rw [folded_ink hink]
    split
    · exact .cons rfl _
    · exact .cons hink.not_isGap _

/-- A text behind a break that it does not go on, at its first character. -/
def ReadsFolded (indent : Nat) (split : Bool) (tail s : List Char) : Prop :=
  ∀ (column : Nat) (previous : Option Char) (c : Cursor),
    (breaksFirst s = true → ∀ p ∈ previous, Write.isBreak p = false) →
    c.rest = Write.folded indent split column previous s ++ '\'' :: tail →
    Reads false c (heard false s)
      (c.advance ((Write.folded indent split column previous s).length + 1))

/-- A text that begins with a break behind another one: breaks, and what is read behind them. -/
def ReadsBehind (indent : Nat) (split : Bool) (tail s : List Char) : Prop :=
  ∀ (p : Char) (c : Cursor), breaksFirst s = true → Write.isBreak p = true →
    c.rest = Write.folded indent split 0 (some p) s ++ '\'' :: tail →
    ∃ bs text n, heard true s = bs ++ text ∧ bs ≠ [] ∧
      n ≤ (Write.folded indent split 0 (some p) s).length ∧ ReadsBreaks c bs (c.advance n) ∧
      Reads false (c.advance n) text
        (c.advance ((Write.folded indent split 0 (some p) s).length + 1))

theorem heard_true_cons (hb : Write.isBreak ch = true) :
    heard true (ch :: s) = Cursor.readBreak ch :: heard true s := by
  simp only [Write.isBreak, Bool.or_eq_true, beq_iff_eq] at hb
  rcases hb with ((rfl | rfl) | rfl) | rfl <;> rfl

/-- What is written behind a break: more breaks, or a new line. -/
def behindBreak (indent : Nat) (split : Bool) (p : Char) (s : List Char) : List Char :=
  if breaksFirst s then Write.folded indent split 0 (some p) s
  else Write.blanks indent ++ Write.folded indent split indent (some p) s

theorem folded_break (hb : Write.isBreak ch = true) (column : Nat) (previous : Option Char) :
    Write.folded indent split column previous (ch :: s) =
      (if ch == '\n' && !(previous.map Write.isBreak).getD false then ['\n'] else []) ++
        ch :: behindBreak indent split ch s := by
  have hblank : ch ≠ ' ' := by
    rintro rfl
    exact absurd hb (by decide)
  rw [Write.folded, behindBreak, breaksFirst]
  simp only [beq_iff_eq, hblank, if_false, hb, if_true]
  split
  · rfl
  · rw [List.append_assoc, List.cons_append]

theorem reads_behindBreak {p : Char} (hindent : 0 < indent) (hp : Write.isBreak p = true)
    (hs : Write.fitsSingle s = true) (hblank : s.head? ≠ some ' ')
    (hfolded : ReadsFolded indent split tail s) (hbehind : ReadsBehind indent split tail s)
    (h : c.rest = behindBreak indent split p s ++ '\'' :: tail) :
    ∃ bs text n, heard true s = bs ++ text ∧ (bs = [] ↔ breaksFirst s = false) ∧
      n ≤ (behindBreak indent split p s).length ∧ ReadsBreaks c bs (c.advance n) ∧
      Reads false (c.advance n) text (c.advance ((behindBreak indent split p s).length + 1)) := by
  unfold behindBreak at h ⊢
  cases hfirst : breaksFirst s with
  | true =>
    rw [hfirst, if_pos rfl] at h
    obtain ⟨bs, text, n, htext, hbs, hn, hbreaks, hreads⟩ := hbehind p c hfirst hp h
    exact ⟨bs, text, n, htext, by simp [hbs], hn, hbreaks, hreads⟩
  | false =>
    rw [hfirst, if_neg Bool.false_ne_true, List.append_assoc] at h
    have hrest : (c.advance indent).rest =
        Write.folded indent split indent (some p) s ++ '\'' :: tail := by
      have := Cursor.rest_advance_append h
      rwa [Write.blanks, List.length_replicate] at this
    have hreads := hfolded indent (some p) (c.advance indent) (by simp [hfirst]) hrest
    refine ⟨[], heard false s, indent, ?_, by simp, by simp [Write.blanks], ?_, ?_⟩
    · rw [heard_of_not_breaksFirst hfirst, List.nil_append]
    · exact .blanks hindent h (stopsAt_folded hs hfirst hblank indent (some p))
    · rw [← Cursor.advance_add] at hreads
      simpa [Write.blanks, Nat.add_assoc] using hreads

theorem readsBehind_cons (hindent : 0 < indent) (hs : Write.fitsSingle (ch :: s) = true)
    (hfolded : ReadsFolded indent split tail s) (hbehind : ReadsBehind indent split tail s) :
    ReadsBehind indent split tail (ch :: s) := by
  intro p c hfirst hp h
  obtain ⟨-, hrest, hblank, -⟩ := fitsSingle_cons.1 hs
  have hb : Write.isBreak ch = true := by simpa [breaksFirst] using hfirst
  have hwritten : Write.folded indent split 0 (some p) (ch :: s) =
      ch :: behindBreak indent split ch s := by
    rw [folded_break hb]
    simp [hp]
  rw [hwritten] at h ⊢
  obtain ⟨bs, text, n, htext, -, hn, hbreaks, hreads⟩ :=
    reads_behindBreak hindent hb hrest (hblank hb) hfolded hbehind (Cursor.rest_next_cons h)
  refine ⟨Cursor.readBreak ch :: bs, text, n + 1, ?_, by simp, by simpa using hn, ?_, hreads⟩
  · rw [heard_true_cons hb, htext, List.cons_append]
  · exact hbreaks.cons h hb

/-- A break and what stands behind it. A line feed has another one in front of it. -/
theorem readsFolded_break (hindent : 0 < indent) (hs : Write.fitsSingle (ch :: s) = true)
    (hb : Write.isBreak ch = true) (hfolded : ReadsFolded indent split tail s)
    (hbehind : ReadsBehind indent split tail s) : ReadsFolded indent split tail (ch :: s) := by
  intro column previous c hprevious h
  have hplain : (previous.map Write.isBreak).getD false = false := by
    cases previous with
    | none => rfl
    | some p => exact hprevious (by simpa [breaksFirst] using hb) p rfl
  by_cases hfeed : ch = '\n'
  · subst hfeed
    have hwritten : Write.folded indent split column previous ('\n' :: s) =
        '\n' :: Write.folded indent split 0 (some '\n') ('\n' :: s) := by
      rw [folded_break hb, folded_break hb, hplain]
      rfl
    rw [hwritten] at h ⊢
    obtain ⟨bs, text, n, htext, hbs, -, hbreaks, hreads⟩ := readsBehind_cons hindent hs hfolded hbehind
      '\n' c.next hb hb (Cursor.rest_next_cons h)
    have hheard : heard false ('\n' :: s) = fold (Cursor.readBreak '\n') bs ++ text := by
      rw [show heard false ('\n' :: s) = heard true ('\n' :: s) from rfl, htext, fold]
      simp [Cursor.readBreak, hbs]
    rw [hheard]
    refine .lineEnd h hb hbreaks ?_ hreads
    rw [Cursor.rest_advance, Cursor.rest_next_cons h, List.length_drop]
    exact Nat.sub_le _ _
  · have hwritten : Write.folded indent split column previous (ch :: s) =
        ch :: behindBreak indent split ch s := by
      rw [folded_break hb]
      simp [hfeed]
    obtain ⟨-, hrest, hblank, -⟩ := fitsSingle_cons.1 hs
    rw [hwritten] at h ⊢
    obtain ⟨bs, text, n, htext, hbs, -, hbreaks, hreads⟩ :=
      reads_behindBreak hindent hb hrest (hblank hb) hfolded hbehind (Cursor.rest_next_cons h)
    have hheard : heard false (ch :: s) = fold (Cursor.readBreak ch) bs ++ text := by
      simp only [Write.isBreak, Bool.or_eq_true, beq_iff_eq, hfeed, false_or] at hb
      rcases hb with (rfl | rfl) | rfl
      · -- the only break that is folded
        cases hfirst : breaksFirst s <;>
          simp [heard, hfirst, htext, fold, Cursor.readBreak, hbs]
      · exact congrArg ('\u2028' :: ·) htext
      · exact congrArg ('\u2029' :: ·) htext
    rw [hheard]
    refine .lineEnd h hb hbreaks ?_ hreads
    rw [Cursor.rest_advance, Cursor.rest_next_cons h, List.length_drop]
    exact Nat.sub_le _ _

theorem readsFolded_blank (hindent : 0 < indent) (hs : Write.fitsSingle (' ' :: s) = true)
    (hfolded : ReadsFolded indent split tail s) : ReadsFolded indent split tail (' ' :: s) := by
  intro column previous c hprevious h
  obtain ⟨-, hrest, -, hbreak⟩ := fitsSingle_cons.1 hs
  have hfirst := hbreak rfl
  have hheard : heard false (' ' :: s) = ' ' :: heard false s := rfl
  rw [hheard]
  rw [Write.folded] at h ⊢
  simp only [beq_self_eq_true, if_true] at h ⊢
  split
  · rename_i hends
    rw [if_pos hends] at h
    have halone : s.head? ≠ some ' ' := by
      rintro halone
      simp [halone] at hends
    rw [Write.newLine, List.cons_append, List.cons_append] at h
    have hnext := Cursor.rest_next_cons h
    rw [List.append_assoc] at hnext
    have hlast : (c.next.advance indent).rest =
        Write.folded indent split indent (some ' ') s ++ '\'' :: tail := by
      have := Cursor.rest_advance_append hnext
      rwa [Write.blanks, List.length_replicate] at this
    have hbreaks : ReadsBreaks c.next [] (c.next.advance indent) :=
      .blanks hindent hnext (stopsAt_folded hrest hfirst halone indent (some ' '))
    have hreads := hfolded indent (some ' ') (c.next.advance indent) (by simp [hfirst]) hlast
    rw [← Cursor.advance_add] at hreads
    have := Reads.lineEnd h rfl hbreaks (by rw [hlast, ← Cursor.rest_next_cons h, hnext]; simp) hreads
    simpa [Write.newLine, Write.blanks, fold, Cursor.readBreak, Nat.add_assoc, Cursor.advance] using this
  · rename_i hstays
    rw [if_neg hstays] at h
    refine .blank h (goesOn_folded hrest hfirst _) ?_
    exact hfolded _ (some ' ') c.next (by simp [hfirst]) (Cursor.rest_next_cons h)

theorem readsFolded_ink (hink : IsInk ch) (hfolded : ReadsFolded indent split tail s) :
    ReadsFolded indent split tail (ch :: s) := by
  intro column previous c hprevious h
  have hbreak : Write.isBreak ch = false := hink.2.1
  have hheard : heard false (ch :: s) = ch :: heard false s := by
    rw [heard, if_neg]
    · simp [hbreak]
    · rw [beq_iff_eq]
      rintro rfl
      exact absurd hbreak (by decide)
  rw [hheard]
  rw [folded_ink hink] at h ⊢
  split
  · rename_i hquote
    subst hquote
    rw [if_pos rfl] at h
    refine .quote h ?_
    refine hfolded _ (some '\'') (c.advance 2) (fun _ => by simp [Write.isBreak]) ?_
    rw [Cursor.rest_advance, h]
    rfl
  · rename_i hquote
    rw [if_neg hquote] at h
    refine .char h hink.not_isGap hquote ?_
    exact hfolded _ (some ch) c.next (fun _ p hp => by rwa [← Option.some.inj hp])
      (Cursor.rest_next_cons h)

/-- Each character of a text is read in its turn. -/
theorem readsFolded (hindent : 0 < indent) (htail : tail.head? ≠ some '\'')
    (hs : Write.fitsSingle s = true) :
    ReadsFolded indent split tail s ∧ ReadsBehind indent split tail s := by
  induction s with
  | nil =>
    refine ⟨fun column previous c _ h => ?_, fun p c hfirst => by simp [breaksFirst] at hfirst⟩
    exact .close h htail
  | cons ch s ih =>
    obtain ⟨hprint, hrest, -, -⟩ := fitsSingle_cons.1 hs
    obtain ⟨hfolded, hbehind⟩ := ih hrest
    refine ⟨?_, readsBehind_cons hindent hs hfolded hbehind⟩
    by_cases hb : Write.isBreak ch = true
    · exact readsFolded_break hindent hs hb hfolded hbehind
    by_cases hblank : ch = ' '
    · subst hblank
      exact readsFolded_blank hindent hs hfolded
    · exact readsFolded_ink ⟨hprint, by simpa using hb, hblank⟩ hfolded

end Folded

theorem quoted_folded {indent : Nat} (hindent : 0 < indent) {split : Bool} {column : Nat}
    {s tail : List Char} (hs : Write.fitsSingle s = true) (htail : tail.head? ≠ some '\'')
    (h : c.rest = '\'' :: Write.folded indent split column none s ++ '\'' :: tail) :
    quoted c = .ok (heard false s, c.advance ((Write.folded indent split column none s).length + 2)) := by
  rw [List.cons_append] at h
  have hnext := Cursor.rest_next_cons h
  have hreads := (readsFolded hindent htail hs).1 column none c.next (by simp) hnext
  have hquote : (c.peek == '"') = false := by
    rw [Cursor.peek_cons h]
    rfl
  rw [quoted, hquote, hreads _ [] (by rw [hnext, h, List.length_cons]; omega)]
  rfl

end Cnd.Yaml.Scalar
