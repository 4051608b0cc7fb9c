import Cnd.Numeral
import Cnd.Proofs.Text.Digit

/-!
Numerals that are written by the digits of a number are read back, as integers (`ofDigits_toDigits`)
and as the parts of a decimal (`splitDecimal_pointed`, `splitDecimal_whole`).
-/

namespace Cnd.Numeral

/-- No sign is taken from a text that begins with a digit. -/
theorem splitSign_of_written {s : List Char} (h : ∀ c ∈ s.head?, c ∈ Text.writtenDigits) :
    splitSign s = (false, s) := by
  unfold splitSign
  split
  · exact absurd (h '-' rfl) (by decide)
  · exact absurd (h '+' rfl) (by decide)
  · rfl

theorem ofDigits_toDigits {n : Nat} (h : n < 10 ^ maxDigits) :
    ofDigits (Nat.toDigits 10 n) = .ok n := by
  have hl : (Nat.toDigits 10 n).length ≤ maxDigits := Text.toDigits_length_le (by decide) h
  rw [ofDigits, if_neg (by omega), Text.digitsValue_toDigits]

theorem ofDigits_eq_ok_iff {digits : List Char} {n : Nat} :
    ofDigits digits = .ok n ↔ digits.length ≤ maxDigits ∧ Text.digitsValue digits = n := by
  unfold ofDigits
  by_cases hl : maxDigits < digits.length
  · rw [if_pos hl]
    simp only [reduceCtorEq, false_iff]
    omega
  · rw [if_neg hl, Except.ok.injEq]
    exact ⟨fun hn => ⟨by omega, hn⟩, fun hn => hn.2⟩

theorem lt_pow_of_ofDigits {digits : List Char} {n : Nat} (h : ofDigits digits = .ok n) :
    n < 10 ^ maxDigits := by
  obtain ⟨hl, rfl⟩ := ofDigits_eq_ok_iff.1 h
  exact Nat.lt_of_lt_of_le (Text.digitsValue_lt digits) (Nat.pow_le_pow_right (by decide) hl)

/-! ## Decimals -/

theorem spanDigits_append {digits rest : List Char} (hd : ∀ c ∈ digits, c ∈ Text.writtenDigits)
    (hr : ∀ c ∈ rest.head?, Text.isDigit c = false) :
    spanDigits (digits ++ rest) = (digits, rest) := by
  have hall : ∀ c ∈ digits, Text.isDigit c = true := fun c hc => Text.isDigit_of_written (hd c hc)
  rw [spanDigits, List.takeWhile_append_of_pos hall, List.dropWhile_append_of_pos hall]
  cases rest with
  | nil => simp
  | cons c rest =>
    have hc := hr c rfl
    simp [hc]

/-- The exponent of a written power of ten. -/
theorem readExponent_padded (negative : Bool) (n : Nat) :
    readExponent ('e' :: (if negative then '-' else '+') :: Text.padded 2 n) =
      some (if negative then -(n : Int) else n) := by
  have hne : (Text.padded 2 n).isEmpty = false := by
    rw [Text.padded, List.isEmpty_eq_false_iff]
    exact List.append_ne_nil_of_right_ne_nil _ (List.ne_nil_of_length_pos Nat.length_toDigits_pos)
  have hall : (Text.padded 2 n).all Text.isDigit = true :=
    List.all_eq_true.2 fun c hc => Text.isDigit_of_written (Text.mem_padded hc)
  cases negative with
  | true => simp [readExponent, splitSign, hne, hall, Text.digitsValue_padded]
  | false => simp [readExponent, splitSign, hne, hall, Text.digitsValue_padded]

theorem splitFraction_of_ne {s : List Char} (h : ∀ c ∈ s.head?, c ≠ '.') :
    splitFraction s = ([], s) := by
  unfold splitFraction
  split
  · exact absurd rfl (h '.' rfl)
  · rfl

theorem splitDecimal_eq (s : List Char) :
    splitDecimal s =
      let whole := spanDigits (splitSign s).2
      let fraction := splitFraction whole.2
      if whole.1.isEmpty && fraction.1.isEmpty then none
      else (readExponent fraction.2).map fun e : Int =>
        ((splitSign s).1, Text.digitsValue (whole.1 ++ fraction.1), e - fraction.1.length) := by
  unfold splitDecimal
  dsimp only
  cases readExponent (splitFraction (spanDigits (splitSign s).2).2).2 <;> rfl

theorem splitSign_append {s : List Char} (rest : List Char)
    (hs : ∀ c ∈ s, c ∈ Text.writtenDigits) (hne : s ≠ []) :
    splitSign (s ++ rest) = (false, s ++ rest) := by
  cases s with
  | nil => exact absurd rfl hne
  | cons c s =>
    refine splitSign_of_written fun d hd => ?_
    rw [← Option.mem_some.1 hd]
    exact hs c List.mem_cons_self

section
variable {whole fraction tail : List Char} {e : Int}

/-- Digits around a point are read as such. -/
theorem splitDecimal_pointed (hw : ∀ c ∈ whole, c ∈ Text.writtenDigits) (hne : whole ≠ [])
    (hf : ∀ c ∈ fraction, c ∈ Text.writtenDigits) (ht : ∀ c ∈ tail.head?, Text.isDigit c = false)
    (he : readExponent tail = some e) :
    splitDecimal (whole ++ '.' :: (fraction ++ tail)) =
      some (false, Text.digitsValue (whole ++ fraction), e - fraction.length) := by
  have hpoint : ∀ c ∈ ('.' :: (fraction ++ tail)).head?, Text.isDigit c = false := fun c hc => by
    rw [← Option.mem_some.1 hc]
    decide
  have hfraction : splitFraction ('.' :: (fraction ++ tail)) = (fraction, tail) :=
    spanDigits_append hf ht
  rw [splitDecimal_eq, splitSign_append _ hw hne]
  dsimp only
  rw [spanDigits_append hw hpoint]
  dsimp only
  rw [hfraction, he, List.isEmpty_eq_false_iff.2 hne, Bool.false_and, if_neg Bool.false_ne_true]
  rfl

/-- Digits without a point are read as such. -/
theorem splitDecimal_whole (hw : ∀ c ∈ whole, c ∈ Text.writtenDigits) (hne : whole ≠ [])
    (ht : ∀ c ∈ tail.head?, Text.isDigit c = false ∧ c ≠ '.') (he : readExponent tail = some e) :
    splitDecimal (whole ++ tail) = some (false, Text.digitsValue whole, e) := by
  rw [splitDecimal_eq, splitSign_append _ hw hne]
  dsimp only
  rw [spanDigits_append hw fun c hc => (ht c hc).1]
  dsimp only
  rw [splitFraction_of_ne fun c hc => (ht c hc).2, he, List.isEmpty_eq_false_iff.2 hne,
    Bool.false_and, if_neg Bool.false_ne_true, List.append_nil]
  simp

end

/-- A minus sign in front of a decimal is the sign that is read. -/
theorem splitDecimal_minus {s : List Char} {r : Nat × Int} (h : splitDecimal s = some (false, r))
    (hs : ∀ c ∈ s.head?, c ∈ Text.writtenDigits) : splitDecimal ('-' :: s) = some (true, r) := by
  have hminus : splitSign ('-' :: s) = (true, s) := rfl
  rw [splitDecimal_eq, splitSign_of_written hs] at h
  rw [splitDecimal_eq, hminus]
  dsimp only at h ⊢
  split at h
  · simp at h
  · rename_i hempty
    rw [if_neg hempty]
    obtain ⟨e, he, hr⟩ := Option.map_eq_some_iff.1 h
    rw [he, ← (Prod.mk.inj hr).2]
    rfl

end Cnd.Numeral
