import Cnd.Proofs.Text.Digit
import Cnd.Proofs.Yaml.Quoted

/-!
A text in double quotes is read as it was (`quoted_double`).

Each character is written as itself or as an escape (`escape_write`), so the induction is on the
text. A line that ends before a blank leaves a sign in front of the blank; then the blank and that
sign are read together, which is why the text behind the next character is carried along too.
-/

namespace Cnd.Yaml.Scalar

variable {c c' c₁ : Cursor} {ch : Char} {t text piece : List Char}

/-! ## Escapes -/

/-- Digits in upper case are read as the digits that they were. -/
theorem foldl_upperHex (width n a : Nat) :
    ((Text.paddedHex width n).map Char.toUpper).foldl
      (fun n c => do return (← n) * 16 + (← Text.hexValue? c)) (some a) =
        some (a * 16 ^ width + n % 16 ^ width) := by
  have hdigit : ∀ m < 16, Text.hexValue? (Text.hexDigit m).toUpper = some m := by decide
  induction width generalizing n with
  | zero => simp [Text.paddedHex, Nat.mod_one]
  | succ w ih =>
    rw [Text.paddedHex, List.map_append, List.foldl_append, ih]
    have hlast := hdigit (n % 16) (Nat.mod_lt _ (by decide))
    simp only [List.map_cons, List.map_nil, List.foldl_cons, List.foldl_nil, hlast,
      Option.bind_eq_bind, Option.bind_some, Option.pure_def, Option.some.injEq]
    have hsplit : n % 16 ^ (w + 1) = n / 16 % 16 ^ w * 16 + n % 16 := by
      rw [Nat.pow_succ', Nat.mod_mul]
      omega
    rw [hsplit, Nat.pow_succ]
    ring

theorem hexNumber?_upperHex {width n : Nat} (h : n < 16 ^ width) (rest : List Char) :
    hexNumber? width ((Text.paddedHex width n).map Char.toUpper ++ rest) = some n := by
  have hlen : ((Text.paddedHex width n).map Char.toUpper).length = width := by
    rw [List.length_map, Text.length_paddedHex]
  have htake : ((Text.paddedHex width n).map Char.toUpper ++ rest).take width =
      (Text.paddedHex width n).map Char.toUpper := List.take_left' hlen
  rw [hexNumber?, htake, hlen, if_pos (beq_self_eq_true _), foldl_upperHex, Nat.zero_mul, Nat.zero_add,
    Nat.mod_eq_of_lt h]

theorem escape_letter {letter : Char} (h : c.rest = letter :: t) (hl : unescape? letter = some ch) :
    escape c = .ok ([ch], c.next) := by
  rw [escape, Cursor.peek_cons h, hl]

theorem escape_digits {letter : Char} {width n : Nat} (hn : n ≤ 0x10FFFF) (hw : n < 16 ^ width)
    (hletter : unescape? letter = none) (hwidth : escapeWidth? letter = some width)
    (h : c.rest = letter :: ((Text.paddedHex width n).map Char.toUpper ++ t)) :
    escape c = .ok ([Char.ofNat n], c.advance (width + 1)) := by
  rw [escape, Cursor.peek_cons h, hletter, hwidth, Cursor.rest_next_cons h]
  simp only [hexNumber?_upperHex hw, if_neg (Nat.not_lt.2 hn)]
  rfl

/-- An escape is a letter, or one with the digits of the code point. -/
theorem escape_cases (ch : Char) :
    (∃ letter, Write.escape ch = ['\\', letter] ∧ unescape? letter = some ch) ∨
    ∃ letter width, Write.escape ch =
        '\\' :: letter :: (Text.paddedHex width ch.toNat).map Char.toUpper ∧
      unescape? letter = none ∧ escapeWidth? letter = some width ∧ ch.toNat < 16 ^ width := by
  have hletters : ∀ p ∈ Write.escapeLetters, unescape? p.2 = some p.1 := by decide
  have hcode : ch.toNat < 16 ^ 8 := by
    have hvalid : ch.toNat < 0xD800 ∨ 0xDFFF < ch.toNat ∧ ch.toNat < 0x110000 := ch.valid
    omega
  unfold Write.escape
  split
  · rename_i letter hlookup
    obtain ⟨l₁, l₂, hmem, -⟩ := List.lookup_eq_some_iff.1 hlookup
    exact .inl ⟨letter, rfl, hletters (ch, letter) (by simp [hmem])⟩
  · refine .inr ?_
    split
    · exact ⟨'x', 2, rfl, rfl, rfl, by omega⟩
    split
    · exact ⟨'u', 4, rfl, rfl, rfl, by omega⟩
    · exact ⟨'U', 8, rfl, rfl, rfl, hcode⟩

/-- **What a character is escaped as is read as that character.** -/
theorem escape_write (h : c.rest = Write.escape ch ++ t) :
    escape c.next = .ok ([ch], c.advance (Write.escape ch).length) := by
  rcases escape_cases ch with ⟨letter, hescape, hletter⟩ | ⟨letter, width, hescape, hnone, hwidth, hlt⟩
  · rw [hescape] at h ⊢
    exact escape_letter (Cursor.rest_next_cons h) hletter
  · have hcode : ch.toNat ≤ 0x10FFFF := by
      have hvalid : ch.toNat < 0xD800 ∨ 0xDFFF < ch.toNat ∧ ch.toNat < 0x110000 := ch.valid
      omega
    rw [hescape] at h ⊢
    rw [escape_digits hcode hlt hnone hwidth (Cursor.rest_next_cons h), Char.ofNat_toNat]
    simp [Text.length_paddedHex, Cursor.advance]

/-! ## What stands in double quotes -/

theorem Reads.escape (h : c.rest = '\\' :: t) (hpiece : escape c.next = .ok (piece, c₁))
    (hlen : c₁.rest.length ≤ t.length) (hr : Reads true c₁ text c') :
    Reads true c (piece ++ text) c' := by
  refine .step h fun fuel acc hfuel => ?_
  rw [quotedBody, Cursor.peek_cons h, ← List.append_assoc, ← hr fuel (acc ++ piece) (by omega), hpiece]
  rfl

theorem Reads.escaped (h : c.rest = Write.escape ch ++ t)
    (hr : Reads true (c.advance (Write.escape ch).length) text c') : Reads true c (ch :: text) c' := by
  obtain ⟨more, hmore⟩ : ∃ more, Write.escape ch = '\\' :: more := by
    rcases escape_cases ch with ⟨letter, hescape, -⟩ | ⟨letter, width, hescape, -⟩ <;>
      exact ⟨_, hescape⟩
  have hpiece := escape_write h
  have hlen : (c.advance (Write.escape ch).length).rest.length ≤ (more ++ t).length := by
    rw [Cursor.rest_advance_append h, List.length_append]
    omega
  rw [hmore] at h
  exact Reads.escape h hpiece hlen hr

theorem Reads.escapedBlank (h : c.rest = '\\' :: ' ' :: t) (hr : Reads true (c.advance 2) text c') :
    Reads true c (' ' :: text) c' := by
  have hpiece : Scalar.escape c.next = .ok ([' '], c.advance 2) :=
    escape_letter (Cursor.rest_next_cons h) rfl
  refine Reads.escape h hpiece ?_ hr
  rw [Cursor.rest_advance, h]
  simp

/-- A line that ends with no character of the text. -/
theorem Reads.continued {indent : Nat} (hindent : 0 < indent)
    (h : c.rest = '\\' :: (Write.newLine indent ++ t)) (ht : StopsAt isGap t)
    (hr : Reads true (c.advance (indent + 2)) text c') : Reads true c text c' := by
  have hnext : c.next.rest = '\n' :: (Write.blanks indent ++ t) := Cursor.rest_next_cons h
  have hblanks := Cursor.rest_next_cons hnext
  have hrest : (c.advance (indent + 2)).rest = t := by
    have := Cursor.rest_advance_append hblanks
    rwa [Write.blanks, List.length_replicate] at this
  have hbreaks : ReadsBreaks c.next.next [] (c.advance (indent + 2)) := .blanks hindent hblanks ht
  have hpiece : Scalar.escape c.next = .ok ([], c.advance (indent + 2)) := by
    rw [Scalar.escape, Cursor.peek_cons hnext, Cursor.lineBreak?_eq_some hnext rfl (by decide)]
    exact hbreaks _ [] (Nat.lt_succ_self _)
  exact Reads.escape h hpiece (by rw [hrest]; simp) hr

theorem Reads.closeDouble (h : c.rest = '"' :: t) : Reads true c [] c.next := by
  refine .step h fun fuel acc hfuel => ?_
  rw [quotedBody, Cursor.peek_cons h, List.append_nil]
  rfl

/-! ## Texts -/

theorem isBare_iff : Write.isBare ch = true ↔
    (ch ≠ '"' ∧ ch ≠ '\\' ∧ ch ≠ '\u2028' ∧ ch ≠ '\u2029' ∧ ch ≠ '\ufeff') ∧
      (0x20 ≤ ch.toNat ∧ ch.toNat ≤ 0x7E ∨ 0xA0 ≤ ch.toNat ∧ ch.toNat ≤ 0xFFFD) := by
  simp [Write.isBare, and_assoc]

theorem not_isGap_of_isBare (h : Write.isBare ch = true) (hblank : ch ≠ ' ') : isGap ch = false := by
  obtain ⟨⟨-, -, hline, hparagraph, -⟩, hrange⟩ := isBare_iff.1 h
  have hne : ∀ d : Char, Write.isBare d = false → ch ≠ d := by
    rintro d hd rfl
    simp [hd] at h
  simp [isGap, isBreakOrEnd, isBreak, endChar, hblank, hline, hparagraph, hne '\x00' (by decide),
    hne '\t' (by decide), hne '\n' (by decide), hne '\r' (by decide), hne '\x85' (by decide)]

section Double

variable {indent : Nat} {split : Bool} {tail s : List Char}

/-- A line ends before the character, where it may. -/
def endsBefore (split : Bool) (column : Nat) (isFirst afterEscape : Bool) (ch : Char) (s : List Char) :
    Bool :=
  split && !isFirst && !s.isEmpty && (ch == ' ' || afterEscape) && decide (Write.width < column)

theorem double_bare (hb : Write.isBare ch = true) (column : Nat) (isFirst afterEscape : Bool) :
    Write.double indent split column isFirst afterEscape (ch :: s) =
      if endsBefore split column isFirst afterEscape ch s then
        (Write.continued indent (some ch)).1 ++
          ch :: Write.double indent split ((Write.continued indent (some ch)).2 + 1) false false s
      else ch :: Write.double indent split (column + 1) false false s := by
  rw [Write.double, if_pos hb]
  rfl

theorem double_escape (hb : Write.isBare ch = false) (column : Nat) (isFirst afterEscape : Bool) :
    Write.double indent split column isFirst afterEscape (ch :: s) =
      Write.escape ch ++
        if split && !isFirst && !s.isEmpty && decide (Write.width < column + (Write.escape ch).length - 1)
        then (Write.continued indent s.head?).1 ++
          Write.double indent split (Write.continued indent s.head?).2 false true s
        else Write.double indent split (column + (Write.escape ch).length) false true s := by
  rw [Write.double, if_neg (by simp [hb]), apply_ite (Write.escape ch ++ ·), ← List.append_assoc]

theorem continued_blank : Write.continued indent (some ' ') =
    ('\\' :: Write.newLine indent ++ ['\\'], indent + 1) := rfl

theorem continued_other {next : Option Char} (h : next ≠ some ' ') :
    Write.continued indent next = ('\\' :: Write.newLine indent, indent) := by
  rw [Write.continued, if_neg (by simpa using h)]

/-- What is written for a text that begins with no blank. -/
theorem stopsAt_double (hs : s.head? ≠ some ' ') (column : Nat) (isFirst afterEscape : Bool) :
    StopsAt isGap (Write.double indent split column isFirst afterEscape s ++ '"' :: tail) := by
  cases s with
  | nil => exact .cons rfl _
  | cons ch s =>
    have hch : ch ≠ ' ' := fun hch => hs (by simp [hch])
    cases hb : Write.isBare ch with
    | true =>
      rw [double_bare hb]
      split
      · rw [continued_other (by simpa using hch)]
        exact .cons rfl _
      · exact .cons (not_isGap_of_isBare hb hch) _
    | false =>
      rw [double_escape hb]
      rcases escape_cases ch with ⟨letter, hescape, -⟩ | ⟨letter, width, hescape, -⟩ <;>
        (rw [hescape]; exact .cons rfl _)

theorem goesOn_double (column : Nat) (isFirst afterEscape : Bool) :
    GoesOn (Write.double indent split column isFirst afterEscape s ++ '"' :: tail) := by
  induction s generalizing column isFirst afterEscape with
  | nil => exact .cons rfl
  | cons ch s ih =>
    by_cases hch : ch = ' '
    · subst hch
      rw [double_bare (by decide)]
      split
      · exact .cons rfl
      · exact (ih _ _ _).cons_blank
    · have hstop : StopsAt isGap
          (Write.double indent split column isFirst afterEscape (ch :: s) ++ '"' :: tail) :=
        stopsAt_double (by simpa using hch) column isFirst afterEscape
      cases hw : Write.double indent split column isFirst afterEscape (ch :: s) ++ '"' :: tail with
      | nil => simp at hw
      | cons d w =>
        rw [hw] at hstop
        exact .cons (hstop d rfl)

/-- What stands up to the closing double quote is read as a text. -/
def ReadsAs (tail w s : List Char) : Prop :=
  ∀ c : Cursor, c.rest = w ++ '"' :: tail → Reads true c s (c.advance (w.length + 1))

theorem ReadsAs.behind {u : List Char} (hs : ReadsAs tail w s) (h : c.rest = u ++ (w ++ '"' :: tail)) :
    Reads true (c.advance u.length) s (c.advance ((u ++ w).length + 1)) := by
  rw [List.length_append, Nat.add_assoc, Cursor.advance_add]
  exact hs _ (Cursor.rest_advance_append h)

theorem ReadsAs.bare (hb : Write.isBare ch = true) (hw : GoesOn (w ++ '"' :: tail))
    (hs : ReadsAs tail w s) : ReadsAs tail (ch :: w) (ch :: s) := by
  intro c h
  have hreads := hs.behind (u := [ch]) h
  by_cases hch : ch = ' '
  · subst hch
    exact .blank h hw hreads
  · obtain ⟨⟨hquote, hslash, -⟩, -⟩ := isBare_iff.1 hb
    exact .char h (not_isGap_of_isBare hb hch) ⟨hquote, hslash⟩ hreads

theorem ReadsAs.escaped (hs : ReadsAs tail w s) : ReadsAs tail (Write.escape ch ++ w) (ch :: s) := by
  intro c h
  rw [List.append_assoc] at h
  exact .escaped h (hs.behind h)

theorem ReadsAs.escapedBlank (hs : ReadsAs tail w s) :
    ReadsAs tail ('\\' :: ' ' :: w) (' ' :: s) := fun _ h =>
  .escapedBlank h (hs.behind (u := ['\\', ' ']) h)

theorem ReadsAs.continued (hindent : 0 < indent) (hw : StopsAt isGap (w ++ '"' :: tail))
    (hs : ReadsAs tail w s) : ReadsAs tail ('\\' :: Write.newLine indent ++ w) s := by
  intro c h
  rw [List.append_assoc] at h
  have hlength : ('\\' :: Write.newLine indent).length = indent + 2 := by
    simp [Write.newLine, Write.blanks]
  have hreads := hs.behind h
  rw [hlength] at hreads
  exact .continued hindent h hw hreads

/-- A text in double quotes, from any place in it on. -/
def ReadsDouble (indent : Nat) (split : Bool) (tail s : List Char) : Prop :=
  ∀ (column : Nat) (isFirst afterEscape : Bool),
    ReadsAs tail (Write.double indent split column isFirst afterEscape s) s

theorem readsDouble_bare (hindent : 0 < indent) (hb : Write.isBare ch = true)
    (hs : ReadsDouble indent split tail s) : ReadsDouble indent split tail (ch :: s) := by
  intro column isFirst afterEscape
  rw [double_bare hb]
  split
  case isFalse => exact .bare hb (goesOn_double ..) (hs _ _ _)
  case isTrue =>
    by_cases hch : ch = ' '
    · subst hch
      rw [continued_blank, List.append_assoc]
      exact .continued hindent (.cons rfl _) (.escapedBlank (hs _ _ _))
    · rw [continued_other (by simpa using hch)]
      exact .continued hindent (.cons (not_isGap_of_isBare hb hch) _)
        (.bare hb (goesOn_double ..) (hs _ _ _))

theorem readsDouble_escape (hindent : 0 < indent) (hwidth : indent < Write.width)
    (hb : Write.isBare ch = false) (hs : ReadsDouble indent split tail s)
    (hbehind : ReadsDouble indent split tail s.tail) : ReadsDouble indent split tail (ch :: s) := by
  intro column isFirst afterEscape
  rw [double_escape hb]
  refine .escaped ?_
  split
  case isFalse => exact hs _ _ _
  case isTrue =>
    by_cases hnext : s.head? = some ' '
    · -- the blank does not start another line, so it is behind the sign
      obtain ⟨s, rfl⟩ := List.head?_eq_some_iff.1 hnext
      have hblank : Write.double indent split (indent + 1) false true (' ' :: s) =
          ' ' :: Write.double indent split (indent + 2) false false s := by
        rw [double_bare (by decide), if_neg]
        simp [endsBefore, Nat.not_lt.2 (Nat.succ_le_of_lt hwidth)]
      rw [hnext, continued_blank, hblank, List.append_assoc]
      exact .continued hindent (.cons rfl _) (.escapedBlank (hbehind _ _ _))
    · rw [continued_other hnext]
      exact .continued hindent (stopsAt_double hnext _ _ _) (hs _ _ _)

/-- Each character of a text is read in its turn. -/
theorem readsDouble (hindent : 0 < indent) (hwidth : indent < Write.width) :
    ReadsDouble indent split tail s ∧ ReadsDouble indent split tail s.tail := by
  have hnil : ReadsDouble indent split tail [] := fun _ _ _ _ h => .closeDouble h
  induction s with
  | nil => exact ⟨hnil, hnil⟩
  | cons ch s ih =>
    obtain ⟨hs, hbehind⟩ := ih
    refine ⟨?_, hs⟩
    cases hb : Write.isBare ch with
    | true => exact readsDouble_bare hindent hb hs
    | false => exact readsDouble_escape hindent hwidth hb hs hbehind

end Double

theorem quoted_double {indent : Nat} (hindent : 0 < indent) (hwidth : indent < Write.width)
    {split : Bool} {column : Nat} {s tail : List Char}
    (h : c.rest = '"' :: Write.double indent split column true false s ++ '"' :: tail) :
    quoted c = .ok (s, c.advance ((Write.double indent split column true false s).length + 2)) := by
  rw [List.cons_append] at h
  have hnext := Cursor.rest_next_cons h
  have hreads := (readsDouble hindent hwidth).1 column true false c.next hnext
  have hquote : (c.peek == '"') = true := by
    rw [Cursor.peek_cons h]
    rfl
  rw [quoted, hquote, hreads _ [] (by rw [hnext, h, List.length_cons]; omega)]
  rfl

end Cnd.Yaml.Scalar
