import Cnd.Decimal.Binary64
import Mathlib.Algebra.Order.Field.Power
import Mathlib.Algebra.Order.Ring.Rat
import Mathlib.Tactic.FieldSimp
import Mathlib.Tactic.Linarith
import Mathlib.Tactic.Positivity
import Mathlib.Tactic.Ring

/-!
Rounding a fraction to a double.

`ofRatio` takes the exponent of the binade that a fraction lies in (`inBinade_exponentFor`) and rounds
the significand there, so what it gives is a double (`isDouble_of_ofRatio`) that depends on the value
of the fraction alone (`ofRatio_congr`). A fraction that is closer to a double than one part in
`2^54` is rounded to it (`ofRatio_of_near`).
-/

namespace Cnd.Binary64

/-- The significands and exponents of doubles. -/
structure IsDouble (m : Nat) (e : Int) : Prop where
  lt : m < 2 ^ 53
  min_le : minExponent ≤ e
  le_max : e ≤ maxExponent
  normal : 2 ^ 52 ≤ m ∨ e = minExponent

/-! ## Powers and quotients -/

theorem zpow_of_nonneg (b : ℚ) {e : Int} (h : 0 ≤ e) : b ^ e = b ^ e.toNat := by
  rw [← zpow_natCast, Int.toNat_of_nonneg h]

theorem zpow_of_neg (b : ℚ) {e : Int} (h : ¬0 ≤ e) : b ^ e = (b ^ (-e).toNat)⁻¹ := by
  rw [← zpow_natCast, Int.toNat_of_nonneg (by omega), zpow_neg, inv_inv]

theorem two_zpow_le {a b : Int} (h : a ≤ b) : (2 : ℚ) ^ a ≤ 2 ^ b :=
  zpow_le_zpow_right₀ (by norm_num) h

theorem two_zpow_add (e : Int) (k : Nat) : (2 : ℚ) ^ (e + (k : Int)) = 2 ^ k * 2 ^ e := by
  rw [zpow_add₀ (by norm_num), zpow_natCast, mul_comm]

/-- Equal quotients, multiplied out. -/
theorem mul_eq_mul_of_div_eq {a b c d : Nat} (hb : 0 < b) (hd : 0 < d)
    (h : (a : ℚ) / b = c / d) : a * d = c * b := by
  have hbq : (b : ℚ) ≠ 0 := by exact_mod_cast hb.ne'
  have hdq : (d : ℚ) ≠ 0 := by exact_mod_cast hd.ne'
  rw [div_eq_div_iff hbq hdq] at h
  exact_mod_cast h

/-! ## The nearest integer -/

theorem roundDiv_cases (n d : Nat) :
    (roundDiv n d = n / d ∧ 2 * (n % d) ≤ d) ∨ (roundDiv n d = n / d + 1 ∧ d ≤ 2 * (n % d)) := by
  unfold roundDiv
  dsimp only
  split
  · exact .inl ⟨rfl, by omega⟩
  split
  · exact .inr ⟨rfl, by omega⟩
  split
  · exact .inl ⟨rfl, by omega⟩
  · exact .inr ⟨rfl, by omega⟩

/-- A quotient is at most one half away from what it is rounded to. -/
theorem roundDiv_near {d : Nat} (hd : 0 < d) (n : Nat) :
    2 * n ≤ 2 * (roundDiv n d * d) + d ∧ 2 * (roundDiv n d * d) ≤ 2 * n + d := by
  have hdm := Nat.div_add_mod n d
  have hr := Nat.mod_lt n hd
  rw [Nat.mul_comm] at hdm
  have hsucc : (n / d + 1) * d = n / d * d + d := Nat.succ_mul _ _
  rcases roundDiv_cases n d with ⟨he, hh⟩ | ⟨he, hh⟩ <;> rw [he] <;> omega

theorem roundDiv_near_div {d : Nat} (hd : 0 < d) (n : Nat) :
    (n : ℚ) / d ≤ roundDiv n d + 1 / 2 ∧ (roundDiv n d : ℚ) - 1 / 2 ≤ n / d := by
  have hdq : (0 : ℚ) < d := by exact_mod_cast hd
  obtain ⟨hlow, hhigh⟩ := roundDiv_near hd n
  have hlow : (2 : ℚ) * n ≤ 2 * (roundDiv n d * d) + d := by exact_mod_cast hlow
  have hhigh : (2 : ℚ) * (roundDiv n d * d) ≤ 2 * n + d := by exact_mod_cast hhigh
  rw [div_le_iff₀ hdq, le_div_iff₀ hdq]
  constructor <;> linarith

/-- An integer less than one half away is what a quotient is rounded to. -/
theorem roundDiv_eq {n d m : Nat} (hl : 2 * (m * d) < 2 * n + d) (hu : 2 * n < 2 * (m * d) + d) :
    roundDiv n d = m := by
  have hdm := Nat.div_add_mod n d
  have hd : 0 < d := by omega
  have hr := Nat.mod_lt n hd
  rw [Nat.mul_comm] at hdm
  have hsucc : (n / d + 1) * d = n / d * d + d := Nat.succ_mul _ _
  have hlow : n / d ≤ m := by
    by_contra hlt
    have := Nat.mul_le_mul_right d (show m + 1 ≤ n / d by omega)
    rw [Nat.succ_mul] at this
    omega
  have hhigh : m ≤ n / d + 1 := by
    by_contra hlt
    have := Nat.mul_le_mul_right d (show n / d + 1 + 1 ≤ m by omega)
    rw [Nat.succ_mul] at this
    omega
  have hm : m = n / d ∨ m = n / d + 1 := by omega
  unfold roundDiv
  dsimp only
  rcases hm with hm | hm
  · rw [hm] at hl hu
    rw [if_pos (by omega)]
    exact hm.symm
  · rw [hm] at hl hu
    rw [if_neg (by omega), if_pos (by omega)]
    exact hm.symm

theorem roundDiv_scale {c : Nat} (hc : 0 < c) (n d : Nat) :
    roundDiv (n * c) (d * c) = roundDiv n d := by
  have hless : 2 * (n % d * c) < d * c ↔ 2 * (n % d) < d := by
    rw [← Nat.mul_assoc, Nat.mul_lt_mul_right hc]
  have hmore : d * c < 2 * (n % d * c) ↔ d < 2 * (n % d) := by
    rw [← Nat.mul_assoc, Nat.mul_lt_mul_right hc]
  unfold roundDiv
  simp only [Nat.mul_div_mul_right _ _ hc, Nat.mul_mod_mul_right, hless, hmore]

/-- Equal quotients are rounded alike. -/
theorem roundDiv_congr {n d n' d' : Nat} (hd : 0 < d) (hd' : 0 < d') (h : n * d' = n' * d) :
    roundDiv n d = roundDiv n' d' := by
  rw [← roundDiv_scale hd' n d, ← roundDiv_scale hd n' d', h, Nat.mul_comm d d']

/-! ## Scaling -/

theorem scaled_pos {den : Nat} (hd : 0 < den) (num : Nat) (e : Int) : 0 < (scaled num den e).2 := by
  unfold scaled
  split
  · exact Nat.mul_pos hd (Nat.pow_pos (by decide))
  · exact hd

/-- Scaling divides by a power of two. -/
theorem scaled_div (num den : Nat) (e : Int) :
    ((scaled num den e).1 : ℚ) / (scaled num den e).2 = num / den / 2 ^ e := by
  unfold scaled
  split
  · rename_i he
    rw [zpow_of_nonneg 2 he, Nat.pow_eq]
    push_cast
    rw [div_div]
  · rename_i he
    rw [zpow_of_neg 2 he, Nat.pow_eq]
    push_cast
    rw [div_inv_eq_mul]
    ring

/-! ## The binade -/

/-- The exponent that a positive number has among doubles of unbounded range. -/
structure InBinade (q : ℚ) (e : Int) : Prop where
  min_le : minExponent ≤ e
  lt : q < 2 ^ (e + 53)
  le : 2 ^ (e + 52) ≤ q ∨ e = minExponent

theorem InBinade.le_of {q : ℚ} {a b : Int} (ha : InBinade q a) (hb : InBinade q b) : a ≤ b := by
  rcases ha.le with h | h
  · by_contra hlt
    have hpow := two_zpow_le (show b + 53 ≤ a + 52 by omega)
    exact absurd (lt_of_lt_of_le hb.lt (hpow.trans h)) (lt_irrefl q)
  · rw [h]
    exact hb.min_le

theorem InBinade.unique {q : ℚ} {a b : Int} (ha : InBinade q a) (hb : InBinade q b) : a = b :=
  le_antisymm (ha.le_of hb) (hb.le_of ha)

/-- The powers of two next to a fraction. -/
theorem log2_bounds {num den : Nat} (hn : 0 < num) (hd : 0 < den) :
    (2 : ℚ) ^ ((num.log2 : Int) - den.log2 - 1) < num / den ∧
      (num : ℚ) / den < 2 ^ ((num.log2 : Int) - den.log2 + 1) := by
  have hn1 : (2 : ℚ) ^ (num.log2 : Int) ≤ num := by
    rw [zpow_natCast]
    exact_mod_cast Nat.log2_self_le (Nat.pos_iff_ne_zero.1 hn)
  have hn2 : (num : ℚ) < 2 ^ ((num.log2 : Int) + 1) := by
    rw [← Nat.cast_succ, zpow_natCast]
    exact_mod_cast Nat.lt_log2_self
  have hd1 : (2 : ℚ) ^ (den.log2 : Int) ≤ den := by
    rw [zpow_natCast]
    exact_mod_cast Nat.log2_self_le (Nat.pos_iff_ne_zero.1 hd)
  have hd2 : (den : ℚ) < 2 ^ ((den.log2 : Int) + 1) := by
    rw [← Nat.cast_succ, zpow_natCast]
    exact_mod_cast Nat.lt_log2_self
  have hdq : (0 : ℚ) < den := by exact_mod_cast hd
  constructor
  · rw [lt_div_iff₀ hdq]
    calc (2 : ℚ) ^ ((num.log2 : Int) - den.log2 - 1) * den
        < 2 ^ ((num.log2 : Int) - den.log2 - 1) * 2 ^ ((den.log2 : Int) + 1) :=
          mul_lt_mul_of_pos_left hd2 (by positivity)
      _ = 2 ^ (num.log2 : Int) := by
          rw [← zpow_add₀ (by norm_num)]
          congr 1
          ring
      _ ≤ num := hn1
  · rw [div_lt_iff₀ hdq]
    calc (num : ℚ) < 2 ^ ((num.log2 : Int) + 1) := hn2
      _ = 2 ^ ((num.log2 : Int) - den.log2 + 1) * 2 ^ (den.log2 : Int) := by
          rw [← zpow_add₀ (by norm_num)]
          congr 1
          ring
      _ ≤ 2 ^ ((num.log2 : Int) - den.log2 + 1) * den :=
          mul_le_mul_of_nonneg_left hd1 (by positivity)

/-- A whole power of two is above a quotient just if it is above its integer part. -/
theorem scaled_div_lt_iff {num den : Nat} (hd : 0 < den) (e : Int) (k : Nat) :
    (scaled num den e).1 / (scaled num den e).2 < 2 ^ k ↔
      (num : ℚ) / den < 2 ^ (e + (k : Int)) := by
  have hpos := scaled_pos hd num e
  have hposq : (0 : ℚ) < (scaled num den e).2 := by exact_mod_cast hpos
  rw [Nat.div_lt_iff_lt_mul hpos, zpow_add₀ (by norm_num), mul_comm ((2 : ℚ) ^ e), ← div_lt_iff₀
    (by positivity), ← scaled_div, div_lt_iff₀ hposq, zpow_natCast]
  exact_mod_cast Iff.rfl

theorem inBinade_exponentFor {num den : Nat} (hn : 0 < num) (hd : 0 < den) :
    InBinade (num / den) (exponentFor num den) := by
  obtain ⟨hlow, hhigh⟩ := log2_bounds hn hd
  have hexp : exponentFor num den =
      max minExponent
        (if (num : ℚ) / den < 2 ^ (((num.log2 : Int) - den.log2 - 53) + (53 : Nat)) then
          (num.log2 : Int) - den.log2 - 53
        else (num.log2 : Int) - den.log2 - 53 + 1) := by
    unfold exponentFor
    simp only [Nat.pow_eq, scaled_div_lt_iff hd]
  -- the exponent before it is bounded from below
  obtain ⟨e, he, hlt, hle⟩ : ∃ e, exponentFor num den = max minExponent e ∧
      (num : ℚ) / den < 2 ^ (e + 53) ∧ (2 : ℚ) ^ (e + 52) ≤ num / den := by
    refine ⟨_, hexp, ?_⟩
    split
    · rename_i h
      refine ⟨by exact_mod_cast h, le_trans (two_zpow_le ?_) hlow.le⟩
      omega
    · rename_i h
      refine ⟨lt_of_lt_of_le hhigh (two_zpow_le (by omega)), ?_⟩
      have h := not_lt.1 h
      refine le_trans (two_zpow_le ?_) h
      omega
  rw [he]
  refine ⟨le_max_left _ _, lt_of_lt_of_le hlt (two_zpow_le ?_), ?_⟩
  · have := le_max_right minExponent e
    omega
  · rcases le_total minExponent e with h | h
    · rw [max_eq_right h]
      exact .inl hle
    · exact .inr (max_eq_left h)

/-! ## Rounding -/

/-- A significand that has come to `2^53` moves on to the next binade. -/
def carried (m : Nat) (e : Int) : Nat × Int := if m = 2 ^ 53 then (2 ^ 52, e + 1) else (m, e)

theorem ofRatio_eq {num den : Nat} (hn : 0 < num) (hd : 0 < den) (negative : Bool) :
    let e := exponentFor num den
    let c := carried (roundDiv (scaled num den e).1 (scaled num den e).2) e
    ofRatio negative num den =
      if maxExponent < c.2 then .infinite negative else .finite negative c.1 c.2 := by
  have hz : (num == 0 || den == 0) = false := by
    simp only [Bool.or_eq_false_iff, beq_eq_false_iff_ne]
    omega
  intro e c
  unfold ofRatio
  rw [hz, if_neg Bool.false_ne_true]
  simp only [c, carried, e, Nat.pow_eq, beq_iff_eq]

/-- Equal fractions are rounded to the same double. -/
theorem ofRatio_congr {num den num' den' : Nat} (hn : 0 < num) (hd : 0 < den) (hn' : 0 < num')
    (hd' : 0 < den') (h : num * den' = num' * den) (negative : Bool) :
    ofRatio negative num den = ofRatio negative num' den' := by
  have hdq : (den : ℚ) ≠ 0 := by exact_mod_cast hd.ne'
  have hdq' : (den' : ℚ) ≠ 0 := by exact_mod_cast hd'.ne'
  have hq : (num : ℚ) / den = num' / den' := by
    rw [div_eq_div_iff hdq hdq']
    exact_mod_cast h
  have he : exponentFor num den = exponentFor num' den' :=
    (inBinade_exponentFor hn hd).unique (hq ▸ inBinade_exponentFor hn' hd')
  have hs := scaled_pos hd num (exponentFor num den)
  have hs' := scaled_pos hd' num' (exponentFor num den)
  have hround : roundDiv (scaled num den (exponentFor num den)).1
      (scaled num den (exponentFor num den)).2 =
        roundDiv (scaled num' den' (exponentFor num den)).1
          (scaled num' den' (exponentFor num den)).2 := by
    refine roundDiv_congr hs hs' (mul_eq_mul_of_div_eq hs hs' ?_)
    rw [scaled_div, scaled_div, hq]
  rw [ofRatio_eq hn hd, ofRatio_eq hn' hd', hround, he]

/-- A quotient of at most 53 bits, and of no fewer if it is not tiny, is rounded to a double. -/
theorem isDouble_carried {n d : Nat} {e : Int} (hmin : minExponent ≤ e) (hlt : n / d < 2 ^ 53)
    (hnormal : 2 ^ 52 ≤ n / d ∨ e = minExponent)
    (hmax : (carried (roundDiv n d) e).2 ≤ maxExponent) :
    IsDouble (carried (roundDiv n d) e).1 (carried (roundDiv n d) e).2 := by
  have hround := roundDiv_cases n d
  unfold carried at hmax ⊢
  generalize roundDiv n d = r at hround hmax ⊢
  by_cases hc : r = 2 ^ 53
  · rw [if_pos hc] at hmax ⊢
    exact ⟨show 2 ^ 52 < 2 ^ 53 by decide, show minExponent ≤ e + 1 by omega, hmax, .inl (le_refl _)⟩
  · rw [if_neg hc] at hmax ⊢
    refine ⟨by omega, hmin, hmax, hnormal.imp_left fun hn => ?_⟩
    omega

/-- What a fraction is rounded to is a double, if it is finite. -/
theorem isDouble_of_ofRatio {num den : Nat} {negative s : Bool} {m : Nat} {e : Int}
    (h : ofRatio negative num den = .finite s m e) : IsDouble m e := by
  by_cases hz : num = 0 ∨ den = 0
  · have hzero : (num == 0 || den == 0) = true := by simpa using hz
    rw [ofRatio, hzero, if_pos rfl] at h
    simp only [finite.injEq] at h
    obtain ⟨-, rfl, rfl⟩ := h
    exact ⟨by decide, le_refl _, by decide, .inr rfl⟩
  have hn : 0 < num := by omega
  have hd : 0 < den := by omega
  rw [ofRatio_eq hn hd] at h
  obtain ⟨hmin, hlt, hle⟩ := inBinade_exponentFor hn hd
  generalize exponentFor num den = x at hmin hlt hle h
  have hquot : (scaled num den x).1 / (scaled num den x).2 < 2 ^ 53 :=
    (scaled_div_lt_iff hd x 53).2 hlt
  have hnormal : 2 ^ 52 ≤ (scaled num den x).1 / (scaled num den x).2 ∨ x = minExponent := by
    refine hle.imp_left fun hle => ?_
    by_contra hsmall
    have := (scaled_div_lt_iff hd x 52).1 (not_le.1 hsmall)
    exact absurd (lt_of_lt_of_le this hle) (lt_irrefl _)
  split at h
  · simp at h
  · rename_i hmax
    rw [finite.injEq] at h
    rw [← h.2.1, ← h.2.2]
    exact isDouble_carried hmin hquot hnormal (not_lt.1 hmax)

/-! ## Fractions next to a double -/

/-- The significand that a fraction is rounded to, if it is less than half a step away. -/
theorem roundDiv_scaled {num den k : Nat} (hd : 0 < den) {e : Int}
    (hlow : (k : ℚ) * 2 ^ e < num / den + 2 ^ e / 2)
    (hhigh : (num : ℚ) / den < k * 2 ^ e + 2 ^ e / 2) :
    roundDiv (scaled num den e).1 (scaled num den e).2 = k := by
  have hpos := scaled_pos hd num e
  have hdiv := scaled_div num den e
  generalize (scaled num den e).1 = n at hdiv ⊢
  generalize (scaled num den e).2 = d at hpos hdiv ⊢
  have hdq : (0 : ℚ) < d := by exact_mod_cast hpos
  have hstep : (0 : ℚ) < 2 ^ e := by positivity
  -- the two bounds, divided by the step
  have hlow : (k : ℚ) < n / d + 1 / 2 := by
    rw [hdiv, ← mul_lt_mul_iff_of_pos_right hstep, add_mul, div_mul_cancel₀ _ hstep.ne']
    linarith
  have hhigh : (n : ℚ) / d < k + 1 / 2 := by
    rw [hdiv, div_lt_iff₀ hstep, add_mul]
    linarith
  have hlow : (2 : ℚ) * (k * d) < 2 * n + d := by
    have := mul_lt_mul_of_pos_right hlow hdq
    rw [add_mul, div_mul_cancel₀ _ hdq.ne'] at this
    linarith
  have hhigh : (2 : ℚ) * n < 2 * (k * d) + d := by
    have := mul_lt_mul_of_pos_right hhigh hdq
    rw [add_mul, div_mul_cancel₀ _ hdq.ne'] at this
    linarith
  exact roundDiv_eq (by exact_mod_cast hlow) (by exact_mod_cast hhigh)

section
variable {q : ℚ} {m : Nat} {e : Int}

theorem lt_of_near (hm : IsDouble m e) (hhigh : q < (m : ℚ) * 2 ^ e * (1 + 1 / 2 ^ 54)) :
    q < 2 ^ (e + 53) := by
  have hmq : (m : ℚ) ≤ 2 ^ 53 - 1 := by
    have : (m : ℚ) + 1 ≤ 2 ^ 53 := by exact_mod_cast hm.lt
    linarith
  have hstep : (0 : ℚ) < 2 ^ e := by positivity
  have hscaled := mul_le_mul_of_nonneg_right hmq hstep.le
  have hpow : (2 : ℚ) ^ (e + 53) = 2 ^ 53 * 2 ^ e := by exact_mod_cast two_zpow_add e 53
  rw [hpow]
  linarith

/-- Below the binade of a double, only the least significand is that close. -/
theorem least_of_near (hm : IsDouble m e) (hne : e ≠ minExponent)
    (hlow : (m : ℚ) * 2 ^ e * (1 - 1 / 2 ^ 54) < q) (hbelow : q < 2 ^ 52 * 2 ^ e) : m = 2 ^ 52 := by
  have hnormal : 2 ^ 52 ≤ m := hm.normal.resolve_right hne
  by_contra hm'
  have hmq : (2 : ℚ) ^ 52 + 1 ≤ m := by exact_mod_cast (show 2 ^ 52 + 1 ≤ m by omega)
  have hstep : (0 : ℚ) < 2 ^ e := by positivity
  have hscaled := mul_le_mul_of_nonneg_right hmq hstep.le
  linarith

/-- A number closer to a double than one part in `2^54` lies in the binade of the double, or just
below the power of two that the double is. -/
theorem inBinade_of_near (hm : IsDouble m e) (hlow : (m : ℚ) * 2 ^ e * (1 - 1 / 2 ^ 54) < q)
    (hhigh : q < (m : ℚ) * 2 ^ e * (1 + 1 / 2 ^ 54)) :
    InBinade q e ∨ (m = 2 ^ 52 ∧ InBinade q (e - 1)) := by
  by_cases hle : (2 : ℚ) ^ (e + 52) ≤ q ∨ e = minExponent
  · exact .inl ⟨hm.min_le, lt_of_near hm hhigh, hle⟩
  have hmin := hm.min_le
  have hne : e ≠ minExponent := fun h => hle (.inr h)
  have h52 : (2 : ℚ) ^ (e + 52) = 2 ^ 52 * 2 ^ e := by exact_mod_cast two_zpow_add e 52
  have h51 : (2 : ℚ) ^ (e + 51) = 2 ^ 51 * 2 ^ e := by exact_mod_cast two_zpow_add e 51
  have hbelow : q < 2 ^ 52 * 2 ^ e := h52 ▸ not_le.1 fun h => hle (.inl h)
  have hleast := least_of_near hm hne hlow hbelow
  have hmq : (m : ℚ) = 2 ^ 52 := by exact_mod_cast hleast
  have hstep : (0 : ℚ) < 2 ^ e := by positivity
  refine .inr ⟨hleast, by omega, ?_, .inl ?_⟩
  · rw [show e - 1 + 53 = e + 52 by ring, h52]
    exact hbelow
  · rw [show e - 1 + 52 = e + 51 by ring, h51]
    rw [hmq] at hlow
    linarith

end

/-- A fraction closer to a double than one part in `2^54` is rounded to it. -/
theorem ofRatio_of_near {num den m : Nat} {e : Int} (hn : 0 < num) (hd : 0 < den)
    (hm : IsDouble m e) (hlow : (m : ℚ) * 2 ^ e * (1 - 1 / 2 ^ 54) < num / den)
    (hhigh : (num : ℚ) / den < (m : ℚ) * 2 ^ e * (1 + 1 / 2 ^ 54)) (negative : Bool) :
    ofRatio negative num den = .finite negative m e := by
  have hstep : (0 : ℚ) < 2 ^ e := by positivity
  have hmax := hm.le_max
  have hmq : (m : ℚ) * 2 ^ e < 2 ^ 53 * 2 ^ e := by
    have : (m : ℚ) < 2 ^ 53 := by exact_mod_cast hm.lt
    exact mul_lt_mul_of_pos_right this hstep
  rw [ofRatio_eq hn hd]
  rcases inBinade_of_near hm hlow hhigh with hin | ⟨hleast, hin⟩
  · have hexp := (inBinade_exponentFor hn hd).unique hin
    have hround : roundDiv (scaled num den e).1 (scaled num den e).2 = m :=
      roundDiv_scaled hd (by linarith) (by linarith)
    rw [hexp, hround, carried, if_neg (Nat.ne_of_lt hm.lt), if_neg (not_lt.2 hmax)]
  · have hexp := (inBinade_exponentFor hn hd).unique hin
    have hhalf : (2 : ℚ) ^ (e - 1) = 2 ^ e / 2 := by
      rw [zpow_sub₀ (by norm_num), zpow_one]
    have hmc : (m : ℚ) = 2 ^ 52 := by exact_mod_cast hleast
    have hround : roundDiv (scaled num den (e - 1)).1 (scaled num den (e - 1)).2 = 2 ^ 53 := by
      refine roundDiv_scaled hd ?_ ?_ <;> rw [hhalf] <;> rw [hmc] at hlow hhigh <;> push_cast
        <;> linarith
    rw [hexp, hround, carried, if_pos rfl, sub_add_cancel, if_neg (not_lt.2 hmax), hleast]

end Cnd.Binary64
