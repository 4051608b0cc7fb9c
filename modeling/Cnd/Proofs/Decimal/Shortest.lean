import Cnd.Decimal.Shortest
import Cnd.Proofs.Decimal.Reading

/-!
The shortest decimal of a double reads back as the double.

All but the last of the decimals that the search tries are tested. The last one has seventeen
digits, so that half a unit of its last digit is less than one part in `2^54` of the value
(`neighbour_of_seventeen`); it needs no test.
-/

namespace Cnd.Binary64

theorem ratio_pos {m : Nat} (hm : 0 < m) (e : Int) : 0 < (ratio m e).1 ∧ 0 < (ratio m e).2 := by
  unfold ratio
  split
  · exact ⟨Nat.mul_pos hm (Nat.pow_pos (by decide)), Nat.one_pos⟩
  · exact ⟨hm, Nat.pow_pos (by decide)⟩

theorem ratio_div (m : Nat) (e : Int) : ((ratio m e).1 : ℚ) / (ratio m e).2 = m * 2 ^ e := by
  unfold ratio
  split
  · rename_i he
    rw [zpow_of_nonneg 2 he, Nat.pow_eq]
    push_cast
    rw [div_one]
  · rename_i he
    rw [zpow_of_neg 2 he, Nat.pow_eq]
    push_cast
    rw [div_eq_mul_inv]

/-! ## The digits before the point -/

/-- A positive quotient is not below the power of ten of its first digit. -/
theorem ten_zpow_pointPosition_le {num den : Nat} (hn : 0 < num) (hd : 0 < den) :
    (10 : ℚ) ^ (pointPosition num den - 1) ≤ num / den := by
  have hdq : (0 : ℚ) < den := by exact_mod_cast hd
  rw [le_div_iff₀ hdq]
  unfold pointPosition
  split
  · rename_i hle
    have hlen : 0 < (Nat.toDigits 10 (num / den)).length := Nat.length_toDigits_pos
    have hpow := Text.pow_toDigits_length_le (Nat.div_pos hle hd)
    have hmul := (Nat.mul_le_mul_right den hpow).trans (Nat.div_mul_le_self num den)
    rw [show ((Nat.toDigits 10 (num / den)).length : Int) - 1 =
      (((Nat.toDigits 10 (num / den)).length - 1 : Nat) : Int) by omega, zpow_natCast]
    exact_mod_cast hmul
  · have hlen : 0 < (Nat.toDigits 10 (den / num)).length := Nat.length_toDigits_pos
    have hlt := Text.lt_pow_toDigits_length (den / num)
    generalize (Nat.toDigits 10 (den / num)).length = k at hlen hlt
    simp only [Nat.pow_eq, beq_iff_eq]
    split
    · rename_i heq
      have hq : (num : ℚ) * 10 ^ (k - 1) = den := by exact_mod_cast heq
      rw [show 2 - (k : Int) - 1 = -((k - 1 : Nat) : Int) by omega, zpow_neg, zpow_natCast, ← hq,
        mul_comm, mul_assoc, mul_inv_cancel₀ (by positivity), mul_one]
    · have hle : den ≤ num * 10 ^ k := by
        have hquot := Nat.lt_mul_div_succ den hn
        exact hquot.le.trans (Nat.mul_le_mul_left num (Nat.succ_le_of_lt hlt))
      have hleq : (den : ℚ) ≤ num * 10 ^ k := by exact_mod_cast hle
      rw [show 1 - (k : Int) - 1 = -(k : Int) by omega, zpow_neg, zpow_natCast, mul_comm,
        ← div_eq_mul_inv, div_le_iff₀ (by positivity)]
      exact hleq

/-! ## The nearer neighbour -/

/-- The nearer decimal of a length is the quotient in units of its last digit, rounded. -/
theorem neighbours_eq_roundDiv {den : Nat} (hd : 0 < den) (num : Nat) (point : Int) (n : Nat) :
    ∃ a b : Nat, 0 < b ∧ (neighbours num den point n).1 = ⟨roundDiv a b, point - n⟩ ∧
      (a : ℚ) / b * 10 ^ (point - n) = num / den := by
  unfold neighbours
  dsimp only
  by_cases he : 0 ≤ point - n
  · rw [if_pos he]
    refine ⟨_, _, Nat.mul_pos hd (Nat.pow_pos (by decide)), rfl, ?_⟩
    rw [zpow_of_nonneg 10 he, Nat.pow_eq]
    push_cast
    field_simp
  · rw [if_neg he]
    refine ⟨_, _, hd, rfl, ?_⟩
    rw [zpow_of_neg 10 he, Nat.pow_eq]
    push_cast
    field_simp

/-- The nearer decimal of a length is at most half a unit of its last digit away. -/
theorem neighbour_near {den : Nat} (hd : 0 < den) (num : Nat) (point : Int) (n : Nat) :
    let near := (neighbours num den point n).1
    near.exponent = point - n ∧
      (num : ℚ) / den ≤ near.digits * 10 ^ (point - n) + 10 ^ (point - n) / 2 ∧
      (near.digits : ℚ) * 10 ^ (point - n) ≤ num / den + 10 ^ (point - n) / 2 := by
  obtain ⟨a, b, hb, hnear, hdiv⟩ := neighbours_eq_roundDiv hd num point n
  obtain ⟨hlow, hhigh⟩ := roundDiv_near_div hb a
  have hunit : (0 : ℚ) ≤ 10 ^ (point - n) := by positivity
  have hlow := mul_le_mul_of_nonneg_right hlow hunit
  have hhigh := mul_le_mul_of_nonneg_right hhigh hunit
  rw [hnear, ← hdiv]
  dsimp only
  exact ⟨rfl, by linarith, by linarith⟩

/-- Half a unit of the seventeenth digit is less than one part in `2^54`. -/
theorem near_of_half_unit {v x unit : ℚ} (hunit : 0 < unit) (hv : unit * 10 ^ 16 ≤ v)
    (hlow : v ≤ x + unit / 2) (hhigh : x ≤ v + unit / 2) :
    v * (1 - 1 / 2 ^ 54) < x ∧ x < v * (1 + 1 / 2 ^ 54) := by
  constructor <;> linarith

/-- Seventeen digits are enough to be read back. -/
theorem neighbour_of_seventeen {m : Nat} {e : Int} (hm : IsDouble m e) (hpos : 0 < m) :
    (neighbours (ratio m e).1 (ratio m e).2 (pointPosition (ratio m e).1 (ratio m e).2) 17).1.readsBackAs
      m e = true := by
  obtain ⟨hn, hd⟩ := ratio_pos hpos e
  have hpoint := ten_zpow_pointPosition_le hn hd
  generalize pointPosition (ratio m e).1 (ratio m e).2 = point at hpoint
  obtain ⟨hexp, hlow, hhigh⟩ := neighbour_near hd (ratio m e).1 point 17
  rw [ratio_div] at hpoint hlow hhigh
  generalize (neighbours (ratio m e).1 (ratio m e).2 point 17).1 = near at hexp hlow hhigh
  have hscale : (10 : ℚ) ^ (point - 1) = 10 ^ (point - (17 : Nat)) * 10 ^ 16 := by
    rw [show point - 1 = point - (17 : Nat) + (16 : Nat) by omega, zpow_add₀ (by norm_num),
      zpow_natCast]
  rw [hscale] at hpoint
  have hunit : (0 : ℚ) < 10 ^ (point - (17 : Nat)) := by positivity
  obtain ⟨hlow, hhigh⟩ := near_of_half_unit hunit hpoint hlow hhigh
  rw [Decimal.readsBackAs, beq_iff_eq, hexp]
  exact ofDecimal_of_near hm hpos hlow hhigh false

/-! ## The search -/

theorem searchFrom_readsBack {m : Nat} {e : Int} (hm : IsDouble m e) (hpos : 0 < m) {n tries : Nat}
    (h : n + tries = 17) :
    (searchFrom m e (pointPosition (ratio m e).1 (ratio m e).2) n tries).readsBackAs m e = true := by
  induction tries generalizing n with
  | zero =>
    rw [Nat.add_zero] at h
    rw [h]
    exact neighbour_of_seventeen hm hpos
  | succ tries ih =>
    rw [searchFrom]
    dsimp only
    split
    · assumption
    split
    · assumption
    · exact ih (by omega)

/-- The shortest decimal of a double is read as the double. -/
theorem ofDecimal_shortest {m : Nat} {e : Int} (hm : IsDouble m e) (hpos : 0 < m) :
    ofDecimal false (shortest m e).digits (shortest m e).exponent = .finite false m e :=
  beq_iff_eq.1 (searchFrom_readsBack hm hpos rfl)

theorem shortest_pos {m : Nat} {e : Int} (hm : IsDouble m e) (hpos : 0 < m) :
    0 < (shortest m e).digits := by
  have h := ofDecimal_shortest hm hpos
  by_contra hz
  rw [Nat.eq_zero_of_not_pos hz, ofDecimal_zero, finite.injEq] at h
  omega

end Cnd.Binary64
