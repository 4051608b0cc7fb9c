import Cnd.Proofs.Yaml.Cursor
import Cnd.Yaml.Scalar
import Cnd.Yaml.Write

/-!
Rules for what may stand in quotes.

A reader takes runs of characters and of blanks at a time, a writer single characters. So reading is
described by `Reads`, which says what comes of a place with any fuel that is enough, and there is a
rule for each thing that may stand at a place in either kind of quotes.
-/

namespace Cnd.Yaml

/-- A character that stands for itself in any form but that of a plain text: it can be written as it
is, and is neither a blank nor a line break. -/
def IsInk (c : Char) : Prop := Write.isPrintable c = true ∧ Write.isBreak c = false ∧ c ≠ ' '

instance : DecidablePred IsInk := fun c =>
  inferInstanceAs (Decidable (Write.isPrintable c = true ∧ Write.isBreak c = false ∧ c ≠ ' '))

theorem isInk_of_all {s : List Char} (h : (s.all fun c => decide (IsInk c)) = true) {c : Char}
    (hc : c ∈ s) : IsInk c := of_decide_eq_true (List.all_eq_true.1 h c hc)

theorem IsInk.not_isGap {c : Char} (h : IsInk c) : isGap c = false := by
  obtain ⟨hprint, hbreak, hblank⟩ := h
  have hne : ∀ d : Char, Write.isPrintable d = false → c ≠ d := by
    rintro d hd rfl
    simp [hd] at hprint
  simp only [Write.isBreak, Bool.or_eq_false_iff] at hbreak
  simp [isGap, isBreakOrEnd, isBreak, endChar, hbreak, hblank, hne '\x00' (by decide),
    hne '\t' (by decide), hne '\r' (by decide)]

theorem isBreak_of_write {c : Char} (h : Write.isBreak c = true) : isBreak c = true ∧ c ≠ '\r' := by
  simp only [Write.isBreak, Bool.or_eq_true, beq_iff_eq] at h
  rcases h with ((rfl | rfl) | rfl) | rfl <;> decide

namespace Scalar

variable {double : Bool} {c c' c₁ : Cursor} {ch : Char} {t text bs : List Char}

/-- A blank or a tab. -/
def isBlank (ch : Char) : Bool := ch == ' ' || ch == '\t'

/-! ## What stands in quotes -/

/-- The content of a quoted scalar from a place on, and the place behind the closing quote. -/
def Reads (double : Bool) (c : Cursor) (text : List Char) (c' : Cursor) : Prop :=
  ∀ fuel acc, c.rest.length < fuel → quotedBody double fuel c acc = .ok (acc ++ text, c')

/-- Breaks of blank lines, and the place of the first character behind them. -/
def ReadsBreaks (c : Cursor) (bs : List Char) (c' : Cursor) : Prop :=
  ∀ fuel acc, c.rest.length < fuel → quotedBreaks fuel c acc = .ok (acc.reverse ++ bs, c')

/-- Behind any blanks stands a character that is no line break. -/
def GoesOn (t : List Char) : Prop := ∃ ch ∈ (t.dropWhile isBlank).head?, isBreakOrEnd ch = false

theorem GoesOn.cons_blank (h : GoesOn t) : GoesOn (' ' :: t) := h

theorem GoesOn.cons (h : isGap ch = false) : GoesOn (ch :: t) := by
  simp only [isGap, Bool.or_eq_false_iff] at h
  refine ⟨ch, ?_, h.2⟩
  rw [List.dropWhile_cons_of_neg (by simp [isBlank, h])]
  rfl

theorem not_atAnyBoundary (h : c.rest = ch :: t) (hm : ch ≠ '-') (hp : ch ≠ '.') :
    c.atAnyBoundary = false := by
  have hne : ∀ d : Char, ch ≠ d → (d == ch) = false := fun d hd => beq_false_of_ne (Ne.symm hd)
  simp [Cursor.atAnyBoundary, Cursor.atBoundary, Cursor.startsWith, h, List.isPrefixOf, hne '-' hm,
    hne '.' hp]

/-- The blanks of a gap in which no line ends. -/
theorem quotedGap_of_goesOn (h : GoesOn c.rest) : quotedGap c = .ok (c.run isBlank, c.skip isBlank) := by
  obtain ⟨ch, hhead, hch⟩ := h
  obtain ⟨t, ht⟩ := List.head?_eq_some_iff.1 hhead
  have hrest : (c.skip isBlank).rest = ch :: t := by
    rw [Cursor.rest_skip, ht]
  simp only [isBreakOrEnd, Bool.or_eq_false_iff, beq_eq_false_iff_ne] at hch
  have hpeek : (c.skip isBlank).peek ≠ endChar := by
    rw [Cursor.peek_cons hrest]
    exact hch.1
  have hbreak : (c.skip isBlank).lineBreak? = none :=
    Cursor.lineBreak?_eq_none (by rw [hrest]; exact .cons hch.2 t)
  unfold isBlank at hpeek hbreak
  unfold quotedGap isBlank
  simp only [beq_iff_eq, hpeek, if_false, hbreak]

theorem stopsAt_break (hb : Write.isBreak ch = true) (t : List Char) : StopsAt isBlank (ch :: t) := by
  refine .cons ?_ t
  simp only [Write.isBreak, Bool.or_eq_true, beq_iff_eq] at hb
  rcases hb with ((rfl | rfl) | rfl) | rfl <;> rfl

/-- A gap that begins with a line break. -/
theorem quotedGap_of_break (h : c.rest = ch :: t) (hb : Write.isBreak ch = true)
    (hbs : ReadsBreaks c.next bs c₁) : quotedGap c = .ok (fold (Cursor.readBreak ch) bs, c₁) := by
  obtain ⟨hbreak, hr⟩ := isBreak_of_write hb
  have hstop : StopsAt (fun d : Char => d == ' ' || d == '\t') c.rest := h ▸ stopsAt_break hb t
  have hpeek : c.peek ≠ endChar := by
    rw [Cursor.peek_cons h]
    rintro rfl
    exact absurd hbreak (by decide)
  unfold quotedGap
  simp only [Cursor.skip_eq_self hstop, beq_iff_eq, hpeek, if_false,
    Cursor.lineBreak?_eq_some h hbreak hr, hbs _ [] (Nat.lt_succ_self _)]
  rfl

theorem Reads.step (h : c.rest = ch :: t) (hstep : ∀ fuel acc, t.length < fuel →
    quotedBody double (fuel + 1) c acc = .ok (acc ++ text, c')) : Reads double c text c' := by
  intro fuel acc hfuel
  rw [h, List.length_cons] at hfuel
  obtain ⟨fuel, rfl⟩ : ∃ f, fuel = f + 1 := ⟨fuel - 1, by omega⟩
  exact hstep fuel acc (by omega)

/-- A character that stands for itself, in a run of such characters or alone. -/
theorem Reads.char (h : c.rest = ch :: t) (hgap : isGap ch = false)
    (hself : if double then ch ≠ '"' ∧ ch ≠ '\\' else ch ≠ '\'') (hr : Reads double c.next text c') :
    Reads double c (ch :: text) c' := by
  refine .step h fun fuel acc hfuel => ?_
  rw [← Cursor.rest_next_cons h] at hfuel
  have hnext := hr fuel (acc ++ [ch]) hfuel
  rw [List.append_assoc, List.singleton_append] at hnext
  rw [quotedBody, Cursor.peek_cons h]
  by_cases ho : isOrdinary ch = true
  · rw [if_pos ho, Cursor.run_cons h ho, Cursor.skip_cons h ho]
    by_cases ho' : isOrdinary c.next.peek = true
    · -- the run goes on, and is read at once from the next place too
      have hmore := hr (fuel + 1) (acc ++ [ch]) (Nat.lt_succ_of_lt hfuel)
      rw [quotedBody, if_pos ho'] at hmore
      simpa using hmore
    · have hstop : StopsAt isOrdinary c.next.rest := by
        intro d hd
        obtain ⟨more, hmore⟩ := List.head?_eq_some_iff.1 hd
        rwa [Cursor.peek_cons hmore, Bool.not_eq_true] at ho'
      have hrun : c.next.run isOrdinary = [] := Cursor.run_append (w := []) rfl (by simp) hstop
      rw [Cursor.skip_eq_self hstop, hrun]
      exact hnext
  · rw [if_neg ho, if_neg (by simp [hgap])]
    cases double
    · rw [if_neg (by simp), if_neg (by simpa using hself)]
      exact hnext
    · simp only [if_true] at hself
      rw [if_pos rfl, if_neg (by simpa using hself.1), if_neg (by simpa using hself.2)]
      exact hnext

theorem quotedBody_gap {fuel : Nat} {acc : List Char} (hgap : isGap c.peek = true)
    (h : quotedGap c = .ok (text, c₁)) :
    quotedBody double (fuel + 1) c acc = quotedBody double fuel c₁ (acc ++ text) := by
  rw [quotedBody, if_neg (by simp [isOrdinary, hgap]), if_pos hgap, h]
  rfl

/-- A blank that does not end its line. -/
theorem Reads.blank (h : c.rest = ' ' :: t) (ht : GoesOn t) (hr : Reads double c.next text c') :
    Reads double c (' ' :: text) c' := by
  refine .step h fun fuel acc hfuel => ?_
  rw [← Cursor.rest_next_cons h] at hfuel ht
  have hon : GoesOn c.rest := by
    rw [h, ← Cursor.rest_next_cons h]
    exact ht.cons_blank
  rw [quotedBody_gap (by rw [Cursor.peek_cons h]; rfl) (quotedGap_of_goesOn hon), Cursor.run_cons h rfl,
    Cursor.skip_cons h rfl]
  by_cases hb : isBlank c.next.peek = true
  · -- the blanks go on, and are read at once from the next place too
    have hgap : isGap c.next.peek = true := by
      simp only [isBlank, Bool.or_eq_true, beq_iff_eq] at hb
      rcases hb with hb | hb <;> (rw [hb]; decide)
    have hmore := hr (fuel + 1) (acc ++ [' ']) (Nat.lt_succ_of_lt hfuel)
    rw [quotedBody_gap hgap (quotedGap_of_goesOn ht)] at hmore
    simpa using hmore
  · have hstop : StopsAt isBlank c.next.rest := by
      intro d hd
      obtain ⟨more, hmore⟩ := List.head?_eq_some_iff.1 hd
      rwa [Cursor.peek_cons hmore, Bool.not_eq_true] at hb
    have hrun : c.next.run isBlank = [] := Cursor.run_append (w := []) rfl (by simp) hstop
    have hnext := hr fuel (acc ++ [' ']) hfuel
    rw [List.append_assoc, List.singleton_append] at hnext
    rw [Cursor.skip_eq_self hstop, hrun]
    exact hnext

/-- The end of a line, with the breaks of the blank lines behind it. -/
theorem Reads.lineEnd (h : c.rest = ch :: t) (hb : Write.isBreak ch = true)
    (hbs : ReadsBreaks c.next bs c₁) (hlen : c₁.rest.length ≤ t.length)
    (hr : Reads double c₁ text c') :
    Reads double c (fold (Cursor.readBreak ch) bs ++ text) c' := by
  refine .step h fun fuel acc hfuel => ?_
  have hgap : isGap ch = true := by simp [isGap, isBreakOrEnd, (isBreak_of_write hb).1]
  rw [quotedBody_gap (by rwa [Cursor.peek_cons h]) (quotedGap_of_break h hb hbs), ← List.append_assoc]
  exact hr fuel _ (by omega)

theorem ReadsBreaks.cons (h : c.rest = ch :: t) (hb : Write.isBreak ch = true)
    (hbs : ReadsBreaks c.next bs c₁) : ReadsBreaks c (Cursor.readBreak ch :: bs) c₁ := by
  intro fuel acc hfuel
  rw [h, List.length_cons] at hfuel
  obtain ⟨fuel, rfl⟩ : ∃ f, fuel = f + 1 := ⟨fuel - 1, by omega⟩
  obtain ⟨hbreak, hr⟩ := isBreak_of_write hb
  have hne : ch ≠ '-' ∧ ch ≠ '.' := by
    constructor <;> (rintro rfl; exact absurd hb (by decide))
  have hstop : StopsAt (fun d : Char => d == ' ' || d == '\t') c.rest := h ▸ stopsAt_break hb t
  rw [quotedBreaks, not_atAnyBoundary h hne.1 hne.2]
  simp only [Bool.false_eq_true, if_false, Cursor.skip_eq_self hstop,
    Cursor.lineBreak?_eq_some h hbreak hr]
  rw [hbs fuel (Cursor.readBreak ch :: acc) (by rw [Cursor.rest_next_cons h]; omega)]
  simp

/-- The blanks in front of the rest of a text. -/
theorem ReadsBreaks.blanks {k : Nat} (hk : 0 < k) (h : c.rest = Write.blanks k ++ t)
    (ht : StopsAt isGap t) : ReadsBreaks c [] (c.advance k) := by
  intro fuel acc hfuel
  obtain ⟨fuel, rfl⟩ : ∃ f, fuel = f + 1 := ⟨fuel - 1, by omega⟩
  obtain ⟨k, rfl⟩ : ∃ k', k = k' + 1 := ⟨k - 1, by omega⟩
  have hfirst : c.rest = ' ' :: (Write.blanks k ++ t) := h
  have hboundary : c.atAnyBoundary = false := not_atAnyBoundary hfirst (by decide) (by decide)
  have hskip : c.skip isBlank = c.advance (k + 1) := by
    have hblanks : ∀ d ∈ Write.blanks (k + 1), isBlank d = true := fun d hd => by
      rw [List.eq_of_mem_replicate hd]
      rfl
    have hstop : StopsAt isBlank t := fun d hd => by
      have := ht d hd
      simp only [isGap, Bool.or_eq_false_iff] at this
      simp [isBlank, this]
    rw [Cursor.skip_append h hblanks hstop, Write.blanks, List.length_replicate]
  have hrest : (c.advance (k + 1)).rest = t := by
    have := Cursor.rest_advance_append h
    rwa [Write.blanks, List.length_replicate] at this
  have hnone : (c.advance (k + 1)).lineBreak? = none := by
    refine Cursor.lineBreak?_eq_none ?_
    rw [hrest]
    intro d hd
    have := ht d hd
    simp only [isGap, isBreakOrEnd, Bool.or_eq_false_iff] at this
    exact this.2.2
  unfold isBlank at hskip
  rw [quotedBreaks, hboundary]
  simp only [Bool.false_eq_true, if_false, hskip, hnone, List.append_nil]

end Scalar

end Cnd.Yaml
