import Cnd.Yaml.Cursor

/-!
Places ahead of a cursor.

The text of a document is written as pieces with something behind them, so a place is given as the
one behind a piece: `c.advance w.length` for the text `w ++ t` at `c`.
-/

namespace Cnd.Yaml

/-- The first character of a text fails a test, if there is one. -/
def StopsAt (test : Char → Bool) (s : List Char) : Prop := ∀ c ∈ s.head?, test c = false

theorem StopsAt.cons {test : Char → Bool} {c : Char} (h : test c = false) (s : List Char) :
    StopsAt test (c :: s) := by
  intro d hd
  rwa [← Option.some.inj hd]

theorem StopsAt.takeWhile_eq {test : Char → Bool} {w t : List Char} (hw : ∀ c ∈ w, test c = true)
    (ht : StopsAt test t) : (w ++ t).takeWhile test = w := by
  rw [List.takeWhile_append_of_pos hw]
  cases t with
  | nil => simp
  | cons c t => rw [List.takeWhile_cons_of_neg (by simp [ht c rfl]), List.append_nil]

theorem StopsAt.imp {test test' : Char → Bool} {s : List Char} (h : StopsAt test s)
    (himp : ∀ c, test' c = true → test c = true) : StopsAt test' s := by
  intro c hc
  cases hc' : test' c with
  | false => rfl
  | true => exact absurd (himp c hc') (by simp [h c hc])

namespace Cursor

variable {c : Cursor} {w t : List Char} {ch : Char}

/-! ## The text ahead -/

theorem next_nil (h : c.rest = []) : c.next = c := by
  obtain ⟨_, index, mark⟩ := c
  cases h
  rfl

theorem next_cons (h : c.rest = ch :: t) : c.next = ⟨t, c.index + 1, markAfter c.mark ch t⟩ := by
  obtain ⟨_, index, mark⟩ := c
  cases h
  rfl

theorem rest_next (c : Cursor) : c.next.rest = c.rest.tail := by
  cases h : c.rest with
  | nil => rw [next_nil h, h, List.tail_nil]
  | cons ch t => rw [next_cons h, List.tail_cons]

theorem rest_next_cons (h : c.rest = ch :: t) : c.next.rest = t := by rw [rest_next, h, List.tail_cons]

theorem rest_advance (c : Cursor) (n : Nat) : (c.advance n).rest = c.rest.drop n := by
  induction n generalizing c with
  | zero => rfl
  | succ n ih => rw [advance, ih, rest_next, List.drop_tail]

theorem rest_advance_append (h : c.rest = w ++ t) : (c.advance w.length).rest = t := by
  rw [rest_advance, h, List.drop_left]

theorem advance_add (c : Cursor) (m n : Nat) : c.advance (m + n) = (c.advance m).advance n := by
  induction m generalizing c with
  | zero => rw [Nat.zero_add, advance]
  | succ m ih => rw [Nat.succ_add, advance, advance, ih]

theorem peek_cons (h : c.rest = ch :: t) : c.peek = ch := by rw [peek, h, List.headD_cons]

theorem peek_nil (h : c.rest = []) : c.peek = endChar := by rw [peek, h, List.headD_nil]

theorem peek_ne (h : c.rest.head? ≠ some ch) (hend : ch ≠ endChar) : (c.peek == ch) = false := by
  rw [beq_eq_false_iff_ne, peek]
  cases hr : c.rest with
  | nil => exact Ne.symm hend
  | cons d t =>
    rw [hr] at h
    simpa using h

theorem run_append {test : Char → Bool} (h : c.rest = w ++ t) (hw : ∀ ch ∈ w, test ch = true)
    (ht : StopsAt test t) : c.run test = w := by
  rw [run, h, StopsAt.takeWhile_eq hw ht]

theorem skip_append {test : Char → Bool} (h : c.rest = w ++ t) (hw : ∀ ch ∈ w, test ch = true)
    (ht : StopsAt test t) : c.skip test = c.advance w.length := by
  rw [skip, run_append h hw ht]

theorem skip_eq_self {test : Char → Bool} (h : StopsAt test c.rest) : c.skip test = c :=
  skip_append (w := []) rfl (by simp) h

theorem rest_skip (c : Cursor) (test : Char → Bool) : (c.skip test).rest = c.rest.dropWhile test := by
  rw [skip]
  exact rest_advance_append List.takeWhile_append_dropWhile.symm

theorem run_cons {test : Char → Bool} (h : c.rest = ch :: t) (hch : test ch = true) :
    c.run test = ch :: c.next.run test := by
  rw [run, h, List.takeWhile_cons_of_pos hch, run, rest_next_cons h]

theorem skip_cons {test : Char → Bool} (h : c.rest = ch :: t) (hch : test ch = true) :
    c.skip test = c.next.skip test := by
  rw [skip, run_cons h hch, List.length_cons, advance, skip]

/-- The blanks that stand at a place. -/
theorem run_blanks {k : Nat} (h : c.rest = List.replicate k ' ' ++ t) (ht : StopsAt (· == ' ') t) :
    c.run (· == ' ') = List.replicate k ' ' :=
  run_append h (fun _ hd => beq_iff_eq.2 (List.eq_of_mem_replicate hd)) ht

theorem skipSpaces_blanks {k : Nat} (h : c.rest = List.replicate k ' ' ++ t)
    (ht : StopsAt (· == ' ') t) : c.skipSpaces = c.advance k := by
  rw [skipSpaces, skip, run_blanks h ht, List.length_replicate]

theorem rest_advance_blanks {k : Nat} (h : c.rest = List.replicate k ' ' ++ t) :
    (c.advance k).rest = t := by
  rw [rest_advance, h, List.drop_left' List.length_replicate]

theorem rest_advance_newLine {k : Nat} (h : c.rest = '\n' :: (List.replicate k ' ' ++ t)) :
    (c.advance (k + 1)).rest = t := by
  rw [advance]
  exact rest_advance_blanks (rest_next_cons h)

/-! ## Marks -/

theorem line_le_markAfter (m : Mark) (ch : Char) (t : List Char) : m.line ≤ (markAfter m ch t).line := by
  unfold markAfter
  grind

theorem line_le_advance (c : Cursor) (n : Nat) : c.line ≤ (c.advance n).line := by
  induction n generalizing c with
  | zero => exact Nat.le_refl _
  | succ n ih =>
    have hnext : c.line ≤ c.next.line := by
      cases h : c.rest with
      | nil => exact Nat.le_of_eq (by rw [next_nil h])
      | cons ch t =>
        rw [next_cons h]
        exact line_le_markAfter _ _ _
    exact Nat.le_trans hnext (ih c.next)

theorem index_advance (c : Cursor) (n : Nat) : (c.advance n).index ≤ c.index + n := by
  induction n generalizing c with
  | zero => exact Nat.le_refl _
  | succ n ih =>
    have hnext : c.next.index ≤ c.index + 1 := by
      cases h : c.rest with
      | nil =>
        rw [next_nil h]
        exact Nat.le_succ _
      | cons ch t => exact Nat.le_of_eq (by rw [next_cons h])
    have := ih c.next
    rw [advance]
    omega

/-- A character that is as wide as one column. -/
def IsWide (ch : Char) : Prop := isBreak ch = false ∧ ch ≠ '\ufeff'

theorem mark_next (h : c.rest = ch :: t) (hc : IsWide ch) : c.next.mark = ⟨c.line, c.column + 1⟩ := by
  have hr : ch ≠ '\r' := fun hr => by simp [isBreak, hr, IsWide] at hc
  rw [next_cons h]
  simp [markAfter, hr, hc.1, hc.2, line, column]

theorem mark_advance (h : c.rest = w ++ t) (hw : ∀ ch ∈ w, IsWide ch) :
    (c.advance w.length).mark = ⟨c.line, c.column + w.length⟩ := by
  induction w generalizing c with
  | nil => rfl
  | cons ch w ih =>
    rw [List.forall_mem_cons] at hw
    have hnext := mark_next h hw.1
    rw [List.length_cons, advance, ih (rest_next_cons h) hw.2, line, column, hnext]
    simp only [Mark.mk.injEq, true_and]
    omega

/-- Behind a line feed and blanks. -/
theorem mark_newLine {k : Nat} (h : c.rest = '\n' :: (List.replicate k ' ' ++ t)) :
    (c.advance (k + 1)).mark = ⟨c.line + 1, k⟩ := by
  have hnext : c.next.mark = ⟨c.line + 1, 0⟩ := by
    rw [next_cons h]
    simp [markAfter, isBreak, line]
  have hblanks : ∀ ch ∈ List.replicate k ' ', IsWide ch := by
    intro ch hch
    rw [List.eq_of_mem_replicate hch]
    exact ⟨by decide, by decide⟩
  have hmark := mark_advance (rest_next_cons h) hblanks
  rw [List.length_replicate] at hmark
  rw [advance, hmark, line, column, hnext, Nat.zero_add]

/-! ## Line breaks -/

/-- What a line break is read as. -/
def readBreak (ch : Char) : Char := if ch == '\u2028' || ch == '\u2029' then ch else '\n'

theorem startsWith_crlf_cons (h : c.rest = ch :: t) (hc : ch ≠ '\r') : c.startsWith "\r\n" = false := by
  have hne : ('\r' == ch) = false := beq_false_of_ne (Ne.symm hc)
  rw [startsWith, h, show "\r\n".toList = ['\r', '\n'] from rfl, List.isPrefixOf_cons_cons, hne,
    Bool.false_and]

theorem lineBreak?_eq_some (h : c.rest = ch :: t) (hb : isBreak ch = true) (hc : ch ≠ '\r') :
    c.lineBreak? = some (readBreak ch, c.next) := by
  rw [lineBreak?, startsWith_crlf_cons h hc, peek_cons h]
  simp only [isBreak, Bool.or_eq_true, beq_iff_eq] at hb
  rcases hb with (((rfl | rfl) | rfl) | rfl) | rfl <;> rfl

theorem lineBreak?_eq_none (h : StopsAt isBreak c.rest) : c.lineBreak? = none := by
  cases hr : c.rest with
  | nil => simp [lineBreak?, startsWith, peek, hr, endChar]
  | cons ch t =>
    have hb : isBreak ch = false := by
      rw [hr] at h
      exact h ch rfl
    have hc : ch ≠ '\r' := fun hc => by simp [hc, isBreak] at hb
    simp only [isBreak, Bool.or_eq_false_iff] at hb
    rw [lineBreak?, startsWith_crlf_cons hr hc, peek_cons hr]
    simp [hb]

end Cursor

end Cnd.Yaml
