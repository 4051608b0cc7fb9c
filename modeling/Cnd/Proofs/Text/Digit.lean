import Cnd.Text.Digit
import Mathlib.Data.List.Induction
import Mathlib.Data.Nat.Digits.Defs

/-!
Written numbers read back: the digits of a number denote it (`digitsValue_toDigits`) and are the only
ones without a zero in front that do (`toDigits_digitsValue`), zeros in front change nothing
(`digitsValue_padded`), and a run of digits denotes a number below the power of ten of its length
(`digitsValue_lt`).
-/

namespace Cnd.Text

/-! ## Digits of any script -/

theorem digitValue?_lt {c : Char} {d : Nat} (h : digitValue? c = some d) : d < 10 := by
  obtain ⟨z, hz, rfl⟩ := Option.map_eq_some_iff.1 h
  have hbounds := List.find?_some hz
  simp only [Bool.and_eq_true, decide_eq_true_eq] at hbounds
  omega

theorem digitsValue_nil : digitsValue [] = 0 := rfl

theorem digitsValue_concat (s : List Char) (c : Char) :
    digitsValue (s ++ [c]) = 10 * digitsValue s + (digitValue? c).getD 0 := by
  simp [digitsValue, List.foldl_append]

theorem digitsValue_append (s t : List Char) :
    digitsValue (s ++ t) = digitsValue s * 10 ^ t.length + digitsValue t := by
  induction t using List.reverseRecOn with
  | nil => simp [digitsValue_nil]
  | append_singleton t c ih =>
    rw [← List.append_assoc, digitsValue_concat, ih, digitsValue_concat, List.length_append,
      List.length_singleton, Nat.pow_succ, Nat.mul_add, Nat.add_assoc]
    rw [Nat.mul_comm 10, Nat.mul_assoc]

theorem digitsValue_lt (s : List Char) : digitsValue s < 10 ^ s.length := by
  induction s using List.reverseRecOn with
  | nil => simp [digitsValue_nil]
  | append_singleton s c ih =>
    have hc : (digitValue? c).getD 0 < 10 := by
      cases h : digitValue? c with
      | none => simp
      | some d => exact digitValue?_lt h
    rw [digitsValue_concat, List.length_append, List.length_singleton, Nat.pow_succ]
    omega

/-! ## Digits of a number -/

/-- The ten digits that numbers are written with. -/
def writtenDigits : List Char := ['0', '1', '2', '3', '4', '5', '6', '7', '8', '9']

theorem digitChar_mem {d : Nat} (h : d < 10) : d.digitChar ∈ writtenDigits := by
  have hall : ∀ d < 10, Nat.digitChar d ∈ writtenDigits := by decide
  exact hall d h

theorem digitValue?_digitChar {d : Nat} (h : d < 10) : digitValue? d.digitChar = some d := by
  have hall : ∀ d < 10, digitValue? (Nat.digitChar d) = some d := by decide
  exact hall d h

theorem isDigit_of_written {c : Char} (h : c ∈ writtenDigits) : isDigit c = true := by
  have hall : writtenDigits.all isDigit = true := by decide
  exact List.all_eq_true.1 hall c h

theorem mem_toDigits {n : Nat} {c : Char} (h : c ∈ Nat.toDigits 10 n) : c ∈ writtenDigits := by
  induction n using Nat.strongRecOn with
  | ind n ih =>
    rw [Nat.toDigits_eq_if (by decide)] at h
    split at h
    · rename_i hn
      rw [List.mem_singleton.1 h]
      exact digitChar_mem hn
    · rcases List.mem_append.1 h with h | h
      · exact ih (n / 10) (by omega) h
      · rw [List.mem_singleton.1 h]
        exact digitChar_mem (Nat.mod_lt n (by decide))

theorem digitsValue_toDigits (n : Nat) : digitsValue (Nat.toDigits 10 n) = n := by
  induction n using Nat.strongRecOn with
  | ind n ih =>
    rw [Nat.toDigits_eq_if (by decide)]
    split
    · rename_i hn
      simp [digitsValue, digitValue?_digitChar hn]
    · rw [digitsValue_concat, ih (n / 10) (by omega),
        digitValue?_digitChar (Nat.mod_lt n (by decide)), Option.getD_some]
      omega

theorem toDigits_length_le {n w : Nat} (hw : 0 < w) (h : n < 10 ^ w) :
    (Nat.toDigits 10 n).length ≤ w :=
  Nat.toDigits_length 10 n w hw h

theorem lt_pow_toDigits_length (n : Nat) : n < 10 ^ (Nat.toDigits 10 n).length := by
  have := digitsValue_lt (Nat.toDigits 10 n)
  rwa [digitsValue_toDigits] at this

/-- No fewer digits than a positive number has would hold it. -/
theorem pow_toDigits_length_le {n : Nat} (hn : 0 < n) :
    10 ^ ((Nat.toDigits 10 n).length - 1) ≤ n := by
  by_contra hlt
  by_cases hl : (Nat.toDigits 10 n).length - 1 = 0
  · rw [hl] at hlt
    omega
  · have := toDigits_length_le (Nat.pos_of_ne_zero hl) (not_le.1 hlt)
    omega

/-! ## Digits that are those of a number -/

theorem exists_digitChar {c : Char} (h : c ∈ writtenDigits) :
    ∃ d < 10, digitValue? c = some d ∧ d.digitChar = c := by
  have hdigits : writtenDigits = (List.range 10).map Nat.digitChar := by rfl
  rw [hdigits] at h
  obtain ⟨d, hd, rfl⟩ := List.mem_map.1 h
  have hlt : d < 10 := List.mem_range.1 hd
  exact ⟨d, hlt, digitValue?_digitChar hlt, rfl⟩

/-- Digits without a zero in front are those of the number that they denote. -/
theorem toDigits_digitsValue {s : List Char} (hne : s ≠ []) (hs : ∀ c ∈ s, c ∈ writtenDigits)
    (hzero : s.head? ≠ some '0') : Nat.toDigits 10 (digitsValue s) = s := by
  induction s using List.reverseRecOn with
  | nil => exact absurd rfl hne
  | append_singleton s c ih =>
    obtain ⟨d, hd, hvalue, hchar⟩ := exists_digitChar (hs c (by simp))
    rw [digitsValue_concat, hvalue, Option.getD_some]
    cases s with
    | nil =>
      rw [digitsValue_nil, Nat.mul_zero, Nat.zero_add, Nat.toDigits_of_lt_base hd, hchar]
      rfl
    | cons b s =>
      have hfront : Nat.toDigits 10 (digitsValue (b :: s)) = b :: s :=
        ih (by simp) (fun x hx => hs x (List.mem_append_left _ hx)) (by simpa using hzero)
      -- The digits in front denote no zero, since zero would be written as one.
      have hpos : 0 < digitsValue (b :: s) := by
        rw [Nat.pos_iff_ne_zero]
        intro hz
        rw [hz] at hfront
        exact hzero (by simp [← hfront])
      rw [← Nat.toDigits_append_toDigits (by decide) hpos hd, hfront,
        Nat.toDigits_of_lt_base hd, hchar]

theorem head?_toDigits_ne_zero {n : Nat} (hn : 0 < n) : (Nat.toDigits 10 n).head? ≠ some '0' := by
  induction n using Nat.strongRecOn with
  | ind n ih =>
    rw [Nat.toDigits_eq_if (by decide)]
    split
    · rename_i hlt
      have hall : ∀ d < 10, 0 < d → [Nat.digitChar d].head? ≠ some '0' := by decide
      exact hall n hlt hn
    · have hfront := ih (n / 10) (by omega) (by omega)
      obtain ⟨c, rest, hc⟩ :=
        List.exists_cons_of_ne_nil (Nat.toDigits_ne_nil (b := 10) (n := n / 10))
      rw [hc] at hfront ⊢
      exact hfront

/-! ## Zeros in front and behind -/

theorem digitsValue_zeros_append (k : Nat) (s : List Char) :
    digitsValue (List.replicate k '0' ++ s) = digitsValue s := by
  have hz : digitValue? '0' = some 0 := by decide
  induction k with
  | zero => rfl
  | succ k ih =>
    rw [List.replicate_succ, List.cons_append]
    simp only [digitsValue, List.foldl_cons, hz] at ih ⊢
    exact ih

theorem digitsValue_append_zeros (s : List Char) (k : Nat) :
    digitsValue (s ++ List.replicate k '0') = digitsValue s * 10 ^ k := by
  have hzeros := digitsValue_zeros_append k []
  rw [List.append_nil, digitsValue_nil] at hzeros
  rw [digitsValue_append, hzeros, List.length_replicate, Nat.add_zero]

/-- The characters of a number with zeros in front. -/
def padded (width n : Nat) : List Char :=
  List.replicate (width - (Nat.toDigits 10 n).length) '0' ++ Nat.toDigits 10 n

theorem toList_paddedDecimal (width n : Nat) : (paddedDecimal width n).toList = padded width n := by
  simp [paddedDecimal, padded]

theorem digitsValue_padded (width n : Nat) : digitsValue (padded width n) = n := by
  rw [padded, digitsValue_zeros_append, digitsValue_toDigits]

theorem mem_padded {width n : Nat} {c : Char} (h : c ∈ padded width n) : c ∈ writtenDigits := by
  rcases List.mem_append.1 h with h | h
  · rw [(List.mem_replicate.1 h).2]
    decide
  · exact mem_toDigits h

theorem length_padded {width n : Nat} (hw : 0 < width) (h : n < 10 ^ width) :
    (padded width n).length = width := by
  have := toDigits_length_le hw h
  rw [padded, List.length_append, List.length_replicate]
  omega

/-! ## Hexadecimal digits -/

theorem hexValue?_hexDigit {n : Nat} (h : n < 16) : hexValue? (hexDigit n) = some n := by
  have hall : ∀ n < 16, hexValue? (hexDigit n) = some n := by decide
  exact hall n h

theorem length_paddedHex (width n : Nat) : (paddedHex width n).length = width := by
  induction width generalizing n with
  | zero => rfl
  | succ w ih => rw [paddedHex, List.length_append, ih, List.length_singleton]

end Cnd.Text
