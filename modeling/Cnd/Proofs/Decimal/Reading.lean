import Cnd.Proofs.Decimal.Rounding
import Cnd.Proofs.Text.Digit

/-!
Reading a decimal as a double.

What is read depends on the value of the decimal alone (`ofDecimal_congr`), up to the sign
(`ofDecimal_true`), and a decimal that is closer to a double than one part in `2^54` is read as it
(`ofDecimal_of_near`). The decimals that are decided by their count of digits are too far beyond the
range for that.
-/

namespace Cnd.Binary64

/-! ## Decimals as fractions -/

/-- A decimal as a quotient of integers. -/
def fraction (digits : Nat) (exponent : Int) : Nat × Nat :=
  if 0 ≤ exponent then (digits * 10 ^ exponent.toNat, 1) else (digits, 10 ^ (-exponent).toNat)

theorem fraction_pos {digits : Nat} (hd : 0 < digits) (exponent : Int) :
    0 < (fraction digits exponent).1 ∧ 0 < (fraction digits exponent).2 := by
  unfold fraction
  split
  · exact ⟨Nat.mul_pos hd (Nat.pow_pos (by decide)), Nat.one_pos⟩
  · exact ⟨hd, Nat.pow_pos (by decide)⟩

theorem fraction_div (digits : Nat) (exponent : Int) :
    ((fraction digits exponent).1 : ℚ) / (fraction digits exponent).2 = digits * 10 ^ exponent := by
  unfold fraction
  split
  · rename_i he
    rw [zpow_of_nonneg 10 he]
    push_cast
    rw [div_one]
  · rename_i he
    rw [zpow_of_neg 10 he]
    push_cast
    rw [div_eq_mul_inv]

/-! ## The magnitude -/

/-- The power of ten above a decimal. -/
def magnitude (digits : Nat) (exponent : Int) : Int := (Nat.toDigits 10 digits).length + exponent

theorem ten_zpow_le {a b : Int} (h : a ≤ b) : (10 : ℚ) ^ a ≤ 10 ^ b :=
  zpow_le_zpow_right₀ (by norm_num) h

theorem lt_ten_zpow_magnitude (digits : Nat) (exponent : Int) :
    (digits : ℚ) * 10 ^ exponent < 10 ^ magnitude digits exponent := by
  have hlt : (digits : ℚ) < 10 ^ (Nat.toDigits 10 digits).length := by
    exact_mod_cast Text.lt_pow_toDigits_length digits
  rw [magnitude, zpow_add₀ (by norm_num), zpow_natCast]
  exact mul_lt_mul_of_pos_right hlt (by positivity)

theorem ten_zpow_magnitude_le {digits : Nat} (hd : 0 < digits) (exponent : Int) :
    (10 : ℚ) ^ (magnitude digits exponent - 1) ≤ digits * 10 ^ exponent := by
  have hle : (10 : ℚ) ^ ((Nat.toDigits 10 digits).length - 1) ≤ digits := by
    exact_mod_cast Text.pow_toDigits_length_le hd
  have hlen : 0 < (Nat.toDigits 10 digits).length := Nat.length_toDigits_pos
  rw [magnitude, show ((Nat.toDigits 10 digits).length : Int) + exponent - 1 =
    (((Nat.toDigits 10 digits).length - 1 : Nat) : Int) + exponent by omega,
    zpow_add₀ (by norm_num), zpow_natCast]
  exact mul_le_mul_of_nonneg_right hle (by positivity)

/-- The powers of ten next to a number are its own. -/
theorem ten_zpow_unique {q : ℚ} {a b : Int} (ha : (10 : ℚ) ^ (a - 1) ≤ q) (ha' : q < 10 ^ a)
    (hb : (10 : ℚ) ^ (b - 1) ≤ q) (hb' : q < 10 ^ b) : a = b := by
  by_contra hne
  rcases lt_or_gt_of_ne hne with h | h
  · have := ten_zpow_le (show a ≤ b - 1 by omega)
    linarith
  · have := ten_zpow_le (show b ≤ a - 1 by omega)
    linarith

/-! ## Reading -/

theorem ofDecimal_zero (negative : Bool) (exponent : Int) :
    ofDecimal negative 0 exponent = .finite negative 0 minExponent := rfl

theorem ofDecimal_eq {digits : Nat} (hd : 0 < digits) (negative : Bool) (exponent : Int) :
    ofDecimal negative digits exponent =
      if magnitude digits exponent < -330 then .finite negative 0 minExponent
      else if 320 < magnitude digits exponent then .infinite negative
      else ofRatio negative (fraction digits exponent).1 (fraction digits exponent).2 := by
  have hz : (digits == 0) = false := beq_eq_false_iff_ne.2 (by omega)
  unfold ofDecimal fraction magnitude
  simp only [hz, Bool.false_or, decide_eq_true_eq, Nat.pow_eq]
  by_cases he : 0 ≤ exponent
  · simp only [if_pos he]
  · simp only [if_neg he]

/-- Decimals of one value are read alike. -/
theorem ofDecimal_congr {digits digits' : Nat} {exponent exponent' : Int} (hd : 0 < digits)
    (h : (digits : ℚ) * 10 ^ exponent = digits' * 10 ^ exponent') (negative : Bool) :
    ofDecimal negative digits exponent = ofDecimal negative digits' exponent' := by
  have hd' : 0 < digits' := by
    have hdq : (0 : ℚ) < digits := by exact_mod_cast hd
    have hq : (0 : ℚ) < digits' * 10 ^ exponent' := h ▸ by positivity
    exact_mod_cast (pos_iff_pos_of_mul_pos hq).2 (by positivity)
  have hmagnitude : magnitude digits exponent = magnitude digits' exponent' :=
    ten_zpow_unique (ten_zpow_magnitude_le hd exponent) (lt_ten_zpow_magnitude digits exponent)
      (h ▸ ten_zpow_magnitude_le hd' exponent') (h ▸ lt_ten_zpow_magnitude digits' exponent')
  obtain ⟨hn, hp⟩ := fraction_pos hd exponent
  obtain ⟨hn', hp'⟩ := fraction_pos hd' exponent'
  have hratio : (fraction digits exponent).1 * (fraction digits' exponent').2 =
      (fraction digits' exponent').1 * (fraction digits exponent).2 := by
    refine mul_eq_mul_of_div_eq hp hp' ?_
    rw [fraction_div, fraction_div, h]
  rw [ofDecimal_eq hd, ofDecimal_eq hd', hmagnitude, ofRatio_congr hn hp hn' hp' hratio]

/-- The sign of a fraction is that of the double it is rounded to. -/
theorem ofRatio_true (num den : Nat) : ofRatio true num den = (ofRatio false num den).neg := by
  unfold ofRatio
  dsimp only
  split
  · rfl
  · split <;> split <;> rfl

/-- The sign of a decimal is that of the double it is read as. -/
theorem ofDecimal_true (digits : Nat) (exponent : Int) :
    ofDecimal true digits exponent = (ofDecimal false digits exponent).neg := by
  cases Nat.eq_zero_or_pos digits with
  | inl hz =>
    rw [hz]
    rfl
  | inr hd =>
    rw [ofDecimal_eq hd, ofDecimal_eq hd, ofRatio_true]
    split
    · rfl
    · split <;> rfl

/-- What a decimal is read as is a double, if it is finite. -/
theorem isDouble_of_ofDecimal {digits : Nat} {exponent : Int} {negative s : Bool} {m : Nat}
    {e : Int} (h : ofDecimal negative digits exponent = .finite s m e) : IsDouble m e := by
  have hzero : IsDouble 0 minExponent := ⟨by decide, le_refl _, by decide, .inr rfl⟩
  cases Nat.eq_zero_or_pos digits with
  | inl hz =>
    rw [hz, ofDecimal_zero, finite.injEq] at h
    rw [← h.2.1, ← h.2.2]
    exact hzero
  | inr hd =>
    rw [ofDecimal_eq hd] at h
    split at h
    · rw [finite.injEq] at h
      rw [← h.2.1, ← h.2.2]
      exact hzero
    split at h
    · simp at h
    · exact isDouble_of_ofRatio h

/-! ## Decimals next to a double -/

theorem two_pow_1075_lt : 2 ^ 1075 < 10 ^ 330 := by
  calc 2 ^ 1075 = (2 ^ 215) ^ 5 := by rw [← pow_mul]
    _ < (10 ^ 66) ^ 5 := Nat.pow_lt_pow_left (by decide) (by decide)
    _ = 10 ^ 330 := by rw [← pow_mul]

theorem two_pow_1025_lt : 2 ^ 1025 < 10 ^ 320 := by
  calc 2 ^ 1025 = (2 ^ 205) ^ 5 := by rw [← pow_mul]
    _ < (10 ^ 64) ^ 5 := Nat.pow_lt_pow_left (by decide) (by decide)
    _ = 10 ^ 320 := by rw [← pow_mul]

/-- The positive doubles are well inside the range in which decimals are not decided by their count
of digits. -/
theorem IsDouble.bounds {m : Nat} {e : Int} (hm : IsDouble m e) (hpos : 0 < m) :
    (10 : ℚ) ^ (-330 : Int) * 2 < m * 2 ^ e ∧ (m : ℚ) * 2 ^ e * 2 < 10 ^ (320 : Int) := by
  have hone : (1 : ℚ) ≤ m := by exact_mod_cast hpos
  have hlt : (m : ℚ) < 2 ^ (53 : Int) := by exact_mod_cast hm.lt
  have hmax := hm.le_max
  unfold maxExponent at hmax
  constructor
  · have hten : ((10 : ℚ) ^ 330)⁻¹ < (2 ^ 1075)⁻¹ :=
      inv_strictAnti₀ (by positivity) (by exact_mod_cast two_pow_1075_lt)
    calc (10 : ℚ) ^ (-330 : Int) * 2 = ((10 : ℚ) ^ 330)⁻¹ * 2 := rfl
      _ < ((2 : ℚ) ^ 1075)⁻¹ * 2 := mul_lt_mul_of_pos_right hten (by norm_num)
      _ = 2 ^ (-1075 : Int) * 2 ^ (1 : Int) := rfl
      _ = 2 ^ minExponent := (zpow_add₀ (by norm_num) _ _).symm
      _ ≤ 2 ^ e := two_zpow_le hm.min_le
      _ = 1 * 2 ^ e := (one_mul _).symm
      _ ≤ m * 2 ^ e := mul_le_mul_of_nonneg_right hone (by positivity)
  · calc (m : ℚ) * 2 ^ e * 2 < 2 ^ (53 : Int) * 2 ^ e * 2 :=
          mul_lt_mul_of_pos_right (mul_lt_mul_of_pos_right hlt (by positivity)) (by norm_num)
      _ = 2 ^ (53 + e + 1) := by rw [zpow_add₀ (by norm_num), zpow_add₀ (by norm_num), zpow_one]
      _ ≤ 2 ^ ((1025 : Nat) : Int) := two_zpow_le (by omega)
      _ = 2 ^ 1025 := zpow_natCast _ _
      _ < 10 ^ 320 := by exact_mod_cast two_pow_1025_lt
      _ = 10 ^ (320 : Int) := rfl

/-- A decimal closer to a double than one part in `2^54` is read as it. -/
theorem ofDecimal_of_near {digits m : Nat} {exponent e : Int} (hm : IsDouble m e) (hpos : 0 < m)
    (hlow : (m : ℚ) * 2 ^ e * (1 - 1 / 2 ^ 54) < digits * 10 ^ exponent)
    (hhigh : (digits : ℚ) * 10 ^ exponent < (m : ℚ) * 2 ^ e * (1 + 1 / 2 ^ 54)) (negative : Bool) :
    ofDecimal negative digits exponent = .finite negative m e := by
  obtain ⟨hmin, hmax⟩ := hm.bounds hpos
  have hd : 0 < digits := by
    cases Nat.eq_zero_or_pos digits with
    | inl hz =>
      rw [hz, Nat.cast_zero, zero_mul] at hlow
      have : (0 : ℚ) < 10 ^ (-330 : Int) := by positivity
      linarith
    | inr hd => exact hd
  -- neither end of the range is near
  have hsmall : ¬magnitude digits exponent < -330 := fun h => by
    have hupper := lt_ten_zpow_magnitude digits exponent
    have hpow := ten_zpow_le (le_of_lt h)
    have hzero : (0 : ℚ) < 10 ^ (-330 : Int) := by positivity
    linarith
  have hlarge : ¬320 < magnitude digits exponent := fun h => by
    have hlower := ten_zpow_magnitude_le hd exponent
    have hpow := ten_zpow_le (show 320 ≤ magnitude digits exponent - 1 by omega)
    generalize (10 : ℚ) ^ (320 : Int) = bound at hmax hpow
    have hzero : (0 : ℚ) < m * 2 ^ e := by positivity
    linarith
  obtain ⟨hn, hp⟩ := fraction_pos hd exponent
  rw [← fraction_div] at hlow hhigh
  rw [ofDecimal_eq hd, if_neg hsmall, if_neg hlarge, ofRatio_of_near hn hp hm hlow hhigh]

end Cnd.Binary64
