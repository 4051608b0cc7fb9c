import Cnd.Proofs.Text.Digit
import Mathlib.Data.List.Lex
import Mathlib.Data.String.Basic

/-!
Written numbers compared as texts: of two numbers the smaller one comes first just if it is not above
the leading digits, as many as it has itself, of the larger one (`decimal_lt_decimal_iff`).
-/

namespace Cnd.Text

/-- How many decimal digits a number is written with. -/
def digitCount (n : Nat) : Nat := (Nat.toDigits 10 n).length

theorem digitsValue_cons (c : Char) (s : List Char) :
    digitsValue (c :: s) = (digitValue? c).getD 0 * 10 ^ s.length + digitsValue s := by
  have h := digitsValue_append [c] s
  simpa [digitsValue] using h

theorem mul_add_lt_mul_add_iff {x y a b m : Nat} (ha : a < m) (hb : b < m) :
    x * m + a < y * m + b ↔ x < y ∨ x = y ∧ a < b := by
  rcases Nat.lt_trichotomy x y with h | rfl | h
  · have := Nat.mul_le_mul_right m (Nat.succ_le_of_lt h)
    rw [Nat.succ_mul] at this
    omega
  · omega
  · have := Nat.mul_le_mul_right m (Nat.succ_le_of_lt h)
    rw [Nat.succ_mul] at this
    omega

theorem digitChar_lt_digitChar_iff {d e : Nat} (hd : d < 10) (he : e < 10) :
    d.digitChar < e.digitChar ↔ d < e := by
  have hall : ∀ d < 10, ∀ e < 10, Nat.digitChar d < Nat.digitChar e ↔ d < e := by decide
  exact hall d hd e he

/-- Runs of digits of one length are ordered as the numbers that they denote. -/
theorem lt_iff_digitsValue_lt {s t : List Char} (hs : ∀ c ∈ s, c ∈ writtenDigits)
    (ht : ∀ c ∈ t, c ∈ writtenDigits) (hl : s.length = t.length) :
    s < t ↔ digitsValue s < digitsValue t := by
  induction s generalizing t with
  | nil =>
    rw [List.length_eq_zero_iff.1 hl.symm]
    simp
  | cons c s ih =>
    cases t with
    | nil => simp at hl
    | cons b t =>
      obtain ⟨d, hd, hvc, rfl⟩ := exists_digitChar (hs c List.mem_cons_self)
      obtain ⟨e, he, hvb, rfl⟩ := exists_digitChar (ht b List.mem_cons_self)
      have hlength : s.length = t.length := Nat.succ.inj hl
      have hrest := ih (fun x hx => hs x (List.mem_cons_of_mem _ hx))
        (fun x hx => ht x (List.mem_cons_of_mem _ hx)) hlength
      have hchar : d.digitChar = e.digitChar ↔ d = e := by
        refine ⟨fun h => ?_, fun h => h ▸ rfl⟩
        have hv := hvb
        rw [← h, hvc] at hv
        exact Option.some.inj hv
      rw [List.cons_lt_cons_iff, digitChar_lt_digitChar_iff hd he, hchar, hrest, digitsValue_cons,
        digitsValue_cons, hvc, hvb, hlength, Option.getD_some, Option.getD_some]
      exact (mul_add_lt_mul_add_iff (hlength ▸ digitsValue_lt s) (digitsValue_lt t)).symm

/-- A text is before a longer one if it is before the beginning of that, or is that beginning. -/
theorem lt_append_iff {s t : List Char} (hl : s.length = t.length) (r : List Char) :
    s < t ++ r ↔ s < t ∨ s = t ∧ r ≠ [] := by
  induction s generalizing t with
  | nil =>
    obtain rfl := List.length_eq_zero_iff.1 hl.symm
    cases r <;> simp
  | cons c s ih =>
    cases t with
    | nil => simp at hl
    | cons b t =>
      rw [List.cons_append, List.cons_lt_cons_iff, List.cons_lt_cons_iff, ih (Nat.succ.inj hl),
        List.cons.injEq]
      tauto

/-- The leading digits of a number denote what is left of it without the digits behind them. -/
theorem digitsValue_take_toDigits (n k : Nat) :
    digitsValue ((Nat.toDigits 10 n).take k) = n / 10 ^ (digitCount n - k) := by
  have hsplit := digitsValue_append ((Nat.toDigits 10 n).take k) ((Nat.toDigits 10 n).drop k)
  have hlt := digitsValue_lt ((Nat.toDigits 10 n).drop k)
  rw [List.take_append_drop, digitsValue_toDigits, List.length_drop, ← digitCount, Nat.mul_comm]
    at hsplit
  rw [List.length_drop, ← digitCount] at hlt
  have hpos : 0 < 10 ^ (digitCount n - k) := Nat.pow_pos (by decide)
  calc digitsValue ((Nat.toDigits 10 n).take k)
      = (10 ^ (digitCount n - k) * digitsValue ((Nat.toDigits 10 n).take k) +
          digitsValue ((Nat.toDigits 10 n).drop k)) / 10 ^ (digitCount n - k) := by
        rw [Nat.mul_add_div hpos, Nat.div_eq_of_lt hlt, Nat.add_zero]
    _ = n / 10 ^ (digitCount n - k) := by rw [← hsplit]

theorem digitCount_mono {i j : Nat} (h : i ≤ j) : digitCount i ≤ digitCount j :=
  toDigits_length_le Nat.length_toDigits_pos (Nat.lt_of_le_of_lt h (lt_pow_toDigits_length j))

/-- **Numbers in the order of their texts.** -/
theorem toDigits_lt_toDigits_iff {i j : Nat} (h : i < j) :
    Nat.toDigits 10 i < Nat.toDigits 10 j ↔ i ≤ j / 10 ^ (digitCount j - digitCount i) := by
  have hcount : digitCount i ≤ digitCount j := digitCount_mono (Nat.le_of_lt h)
  have hlength : (Nat.toDigits 10 i).length = ((Nat.toDigits 10 j).take (digitCount i)).length := by
    rw [List.length_take, ← digitCount, ← digitCount, Nat.min_eq_left hcount]
  have hlead := digitsValue_take_toDigits j (digitCount i)
  have hwritten : ∀ c ∈ (Nat.toDigits 10 j).take (digitCount i), c ∈ writtenDigits := fun c hc =>
    mem_toDigits (List.mem_of_mem_take hc)
  have hlt := lt_iff_digitsValue_lt (fun c hc => mem_toDigits (n := i) hc) hwritten hlength
  have hgt := lt_iff_digitsValue_lt hwritten (fun c hc => mem_toDigits (n := i) hc) hlength.symm
  rw [digitsValue_toDigits, hlead] at hlt hgt
  rw [← List.take_append_drop (digitCount i) (Nat.toDigits 10 j), lt_append_iff hlength, hlt,
    Nat.le_iff_lt_or_eq]
  refine or_congr_right ⟨fun ⟨heq, _⟩ => ?_, fun heq => ⟨?_, fun hnil => ?_⟩⟩
  · rw [← hlead, ← heq, digitsValue_toDigits]
  · rcases lt_trichotomy (Nat.toDigits 10 i) ((Nat.toDigits 10 j).take (digitCount i)) with
      hc | hc | hc
    · exact absurd (hlt.1 hc) (by omega)
    · exact hc
    · exact absurd (hgt.1 hc) (by omega)
  · -- Without digits behind the leading ones the two numbers would be equal.
    have hle : digitCount j ≤ digitCount i := List.drop_eq_nil_iff.1 hnil
    rw [Nat.sub_eq_zero_of_le hle, Nat.pow_zero, Nat.div_one] at heq
    omega

theorem decimal_lt_decimal_iff {i j : Nat} (h : i < j) :
    decimal i < decimal j ↔ i ≤ j / 10 ^ (digitCount j - digitCount i) := by
  rw [decimal, decimal, String.lt_iff_toList_lt, String.toList_ofList, String.toList_ofList,
    toDigits_lt_toDigits_iff h]

end Cnd.Text
