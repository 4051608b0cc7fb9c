import Cnd.Proofs.Decimal.Rounding
import Mathlib.Order.WithBotTop

/-!
The order of doubles is that of their exact values, the infinities beyond all fractions
(`lt_iff_value`, `eq_iff_value`). NaN has no value, so it compares with nothing.
-/

namespace Cnd.Binary64

/-- The fraction that a finite double is. -/
def fractionOf (negative : Bool) (m : Nat) (e : Int) : ℚ := (if negative then -(m : ℚ) else m) * 2 ^ e

/-- The exact value of a double, which NaN has not: a fraction, or what is below or above all of them. -/
def value? : Binary64 → Option (WithBotTop ℚ)
  | .nan => none
  | .infinite negative => some (if negative then ⊥ else ⊤)
  | .finite s m e => some (fractionOf s m e : ℚ)

@[simp]
theorem value?_nan : value? .nan = none := rfl

@[simp]
theorem value?_infinite (negative : Bool) :
    value? (.infinite negative) = some (if negative then ⊥ else ⊤) := rfl

@[simp]
theorem value?_finite (s : Bool) (m : Nat) (e : Int) :
    value? (.finite s m e) = some ((fractionOf s m e : ℚ) : WithBotTop ℚ) := rfl

/-- The exponent is none below the least one. -/
def Aligned : Binary64 → Prop
  | .nan | .infinite _ => True
  | .finite _ _ e => minExponent ≤ e

theorem units_eq {e : Int} (he : minExponent ≤ e) (s : Bool) (m : Nat) :
    (units s m e : ℚ) = fractionOf s m e * 2 ^ (-minExponent) := by
  have hpow : (2 : ℚ) ^ (e - minExponent).toNat = 2 ^ e * 2 ^ (-minExponent) := by
    rw [← zpow_add₀ (by norm_num), ← sub_eq_add_neg, zpow_of_nonneg 2 (by omega)]
  unfold units fractionOf
  cases s
  · simp only [Bool.false_eq_true, if_false, Nat.pow_eq]
    push_cast
    rw [hpow]
    ring
  · simp only [if_true, Nat.pow_eq]
    push_cast
    rw [hpow]
    ring

theorem two_zpow_pos (e : Int) : (0 : ℚ) < 2 ^ e := by positivity

theorem units_lt_iff {e e' : Int} (he : minExponent ≤ e) (he' : minExponent ≤ e') (s s' : Bool)
    (m m' : Nat) : units s m e < units s' m' e' ↔ fractionOf s m e < fractionOf s' m' e' := by
  have h := mul_lt_mul_iff_left₀ (b := fractionOf s m e) (c := fractionOf s' m' e')
    (two_zpow_pos (-minExponent))
  rw [← units_eq he, ← units_eq he'] at h
  exact_mod_cast h

theorem units_eq_iff {e e' : Int} (he : minExponent ≤ e) (he' : minExponent ≤ e') (s s' : Bool)
    (m m' : Nat) : units s m e = units s' m' e' ↔ fractionOf s m e = fractionOf s' m' e' := by
  have h := mul_left_inj' (a := fractionOf s m e) (b := fractionOf s' m' e')
    (two_zpow_pos (-minExponent)).ne'
  rw [← units_eq he, ← units_eq he'] at h
  exact_mod_cast h

theorem lt_finite (s s' : Bool) (m m' : Nat) (e e' : Int) :
    lt (.finite s m e) (.finite s' m' e') = decide (units s m e < units s' m' e') := rfl

theorem finite_not_lt_zero (m : Nat) (e e' : Int) :
    lt (.finite false m e) (.finite false 0 e') = false := by
  rw [lt_finite, units, units]
  simp

theorem lt_iff_value {x y : Binary64} (hx : x.Aligned) (hy : y.Aligned) :
    x.lt y = true ↔ ∃ a b, x.value? = some a ∧ y.value? = some b ∧ a < b := by
  have hbot : ∀ a : ℚ, ⊥ < (a : WithBotTop ℚ) := fun a => WithBot.bot_lt_coe _
  have htop : ∀ a : ℚ, (a : WithBotTop ℚ) < ⊤ := fun a => WithBot.coe_lt_coe.2 (WithTop.coe_lt_top a)
  cases x with
  | nan => simp [lt]
  | infinite s =>
    cases y with
    | nan => simp [lt]
    | infinite s' => cases s <;> cases s' <;> simp [lt]
    | finite s' m' e' => cases s <;> simp [lt, hbot]
  | finite s m e =>
    cases y with
    | nan => simp [lt]
    | infinite s' => cases s' <;> simp [lt, htop]
    | finite s' m' e' => simp [lt, units_lt_iff hx hy]

theorem eq_iff_value {x y : Binary64} (hx : x.Aligned) (hy : y.Aligned) :
    x.eq y = true ↔ ∃ a, x.value? = some a ∧ y.value? = some a := by
  have hinfinite : ∀ (s : Bool) (a : ℚ), (if s then ⊥ else ⊤) ≠ (a : WithBotTop ℚ) := fun s a => by
    cases s
    · exact (WithBotTop.coe_ne_top a).symm
    · exact (WithBotTop.coe_ne_bot a).symm
  cases x with
  | nan => simp [eq]
  | infinite s =>
    cases y with
    | nan => simp [eq]
    | infinite s' => cases s <;> cases s' <;> simp [eq]
    | finite s' m' e' => simp [eq, (hinfinite s _).symm]
  | finite s m e =>
    cases y with
    | nan => simp [eq]
    | infinite s' => simp [eq, hinfinite]
    | finite s' m' e' =>
      simp only [eq, beq_iff_eq, units_eq_iff hx hy, value?_finite, Option.some.injEq,
        exists_eq_left', WithBotTop.coe_injective.eq_iff]
      exact eq_comm

theorem value?_eq_none_iff {x : Binary64} : x.value? = none ↔ x = .nan := by
  cases x <;> simp

end Cnd.Binary64
