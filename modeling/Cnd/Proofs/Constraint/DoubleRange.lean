import Cnd.Proofs.Constraint.Range
import Cnd.Proofs.Decimal.Order
import Cnd.Proofs.Value.Number

/-!
Ranges of doubles.

A range is left by what lies beyond a bound, or on one that does not belong to it. Among numbers
that is to lie within the bounds, but NaN is beyond no number and no number is beyond NaN: so NaN
is in every range, and a bound that is NaN bounds nothing (`read_double_range`).
-/

namespace Cnd

theorem Binary64.Canonical.aligned {x : Binary64} (h : x.Canonical) : x.Aligned := by
  cases x with
  | nan => trivial
  | infinite s => trivial
  | finite s m e => exact h.min_le

namespace Constraint

open Binary64

/-- Both are numbers and the first is the greater one, or the same where that is enough. -/
def Exceeds (inclusive : Bool) (x y : Binary64) : Prop :=
  ∃ a b, x.value? = some a ∧ y.value? = some b ∧ (b < a ∨ b = a ∧ inclusive = true)

/-- A double compares as required with each bound that is given. -/
def InRange (i : Interval Binary64) (x : Binary64) : Prop :=
  (∀ b, i.lower = some b → Exceeds i.lowerInclusive x b) ∧
    ∀ b, i.upper = some b → Exceeds i.upperInclusive b x

theorem Exceeds.not_nan {inclusive : Bool} {x y : Binary64} (h : Exceeds inclusive x y) :
    x ≠ .nan ∧ y ≠ .nan := by
  obtain ⟨a, b, hx, hy, -⟩ := h
  constructor
  · rintro rfl
    simp [value?] at hx
  · rintro rfl
    simp [value?] at hy

/-- What is not below another double, nor equal to it where that is left out, exceeds it unless one
of the two is no number. -/
theorem exceeds_or_nan_iff {x y : Binary64} (hx : x.Aligned) (hy : y.Aligned) {on : Bool}
    (hon : on = true ↔ ∃ a, x.value? = some a ∧ y.value? = some a) (inclusive : Bool) :
    (!(x.lt y || (on && !inclusive))) = true ↔ Exceeds inclusive x y ∨ x = .nan ∨ y = .nan := by
  rw [Bool.not_eq_true', Bool.or_eq_false_iff, ← Bool.not_eq_true, Bool.and_eq_false_iff,
    ← Bool.not_eq_true on, lt_iff_value hx hy, hon, Exceeds, ← value?_eq_none_iff (x := x),
    ← value?_eq_none_iff (x := y), Bool.not_eq_false']
  cases hvx : x.value? with
  | none => simp
  | some a =>
    cases hvy : y.value? with
    | none => simp
    | some b =>
      simp only [Option.some.injEq, exists_and_left, exists_eq_left', not_lt, reduceCtorEq, or_false]
      constructor
      · rintro ⟨hle, hne | hinclusive⟩
        · exact .inl (lt_of_le_of_ne hle hne)
        · exact (lt_or_eq_of_le hle).imp id fun he => ⟨he, hinclusive⟩
      · rintro (hlt | ⟨rfl, hinclusive⟩)
        · exact ⟨hlt.le, .inl hlt.ne⟩
        · exact ⟨le_rfl, .inr hinclusive⟩

theorem contains_double_iff {i : Interval Binary64} (hlower : ∀ b, i.lower = some b → b.Aligned)
    (hupper : ∀ b, i.upper = some b → b.Aligned) {x : Binary64} (hx : x.Aligned) :
    i.contains doubleComparison x = true ↔
      (∀ b, i.lower = some b → Exceeds i.lowerInclusive x b ∨ x = .nan ∨ b = .nan) ∧
      ∀ b, i.upper = some b → Exceeds i.upperInclusive b x ∨ b = .nan ∨ x = .nan := by
  rw [Interval.contains, Bool.and_eq_true, Interval.aboveLower, Interval.belowUpper]
  refine and_congr ?_ ?_
  · cases hl : i.lower with
    | none => simp
    | some b =>
      simp only [Option.some.injEq, forall_eq']
      exact exceeds_or_nan_iff hx (hlower b hl) (eq_iff_value hx (hlower b hl)) _
  · cases hu : i.upper with
    | none => simp
    | some b =>
      simp only [Option.some.injEq, forall_eq']
      refine exceeds_or_nan_iff (hupper b hu) hx ?_ _
      simp only [doubleComparison, eq_iff_value hx (hupper b hu), and_comm]

theorem isBound_canonical {part : List Char} {b : Option Binary64} {x : Binary64}
    (h : IsBound (fun s => (Literal.readDouble s).toOption) part b) (hb : b = some x) :
    x.Canonical := by
  rcases h with ⟨-, rfl⟩ | ⟨-, y, hy, rfl⟩
  · simp at hb
  · obtain rfl := Option.some.inj hb
    exact Literal.canonical_of_readDouble (toOption_eq_some.1 hy)

/-- **Ranges of doubles.** A double meets a range exactly if it compares as required with each
given bound, except that comparisons with NaN are let pass; so what the range says holds of the
doubles that meet it just where neither they nor a bound is NaN. -/
theorem read_double_range {ns : Namespaces} {text : String} {c : Constraint}
    (h : read ns .double text = .ok c) :
    ∃ i, Denotes (fun s => (Literal.readDouble s).toOption) text i ∧ i.IsBounded ∧
      ∀ x : Binary64, x.Canonical →
        (c.isSatisfiedBy (.double x) = true ↔
          (∀ b, i.lower = some b → Exceeds i.lowerInclusive x b ∨ x = .nan ∨ b = .nan) ∧
          ∀ b, i.upper = some b → Exceeds i.upperInclusive b x ∨ b = .nan ∨ x = .nan) ∧
        (InRange i x ↔ c.isSatisfiedBy (.double x) = true ∧
          x ≠ .nan ∧ i.lower ≠ some .nan ∧ i.upper ≠ some .nan) := by
  obtain ⟨r, hr, rfl⟩ := read_eq_ok_iff.1 h
  obtain ⟨i, hi, rfl⟩ := map_eq_ok.1 hr
  obtain ⟨hdenotes, hbounded, -⟩ := readInterval_eq_ok_iff.1 hi
  simp only [toOption_literalBound] at hdenotes
  refine ⟨i, hdenotes, hbounded, fun x hx => ?_⟩
  obtain ⟨_, lower, upper, _, -, -, -, -, -, hlower, hupper⟩ := hdenotes
  have hmeets := contains_double_iff (fun b hb => (isBound_canonical hlower hb).aligned)
    (fun b hb => (isBound_canonical hupper hb).aligned) hx.aligned
  refine ⟨hmeets, ?_⟩
  rw [show isSatisfiedBy ⟨text, .double, .double i⟩ (.double x) = i.contains doubleComparison x from rfl,
    hmeets]
  constructor
  · rintro ⟨hl, hu⟩
    refine ⟨⟨fun b hb => .inl (hl b hb), fun b hb => .inl (hu b hb)⟩, ?_,
      fun hb => (hl _ hb).not_nan.2 rfl, fun hb => (hu _ hb).not_nan.1 rfl⟩
    rcases hbounded with hb | hb
    · obtain ⟨b, hb⟩ := Option.ne_none_iff_exists'.1 hb
      exact (hl b hb).not_nan.1
    · obtain ⟨b, hb⟩ := Option.ne_none_iff_exists'.1 hb
      exact (hu b hb).not_nan.2
  · rintro ⟨⟨hl, hu⟩, hne, hnl, hnu⟩
    constructor
    · intro b hb
      exact (hl b hb).resolve_right fun hn => hn.elim hne fun he => hnl (he ▸ hb)
    · intro b hb
      exact (hu b hb).resolve_right fun hn => hn.elim (fun he => hnu (he ▸ hb)) hne

/-- NaN meets a range that it does not lie in. -/
theorem read_double_range_nan : ∃ c i, read .empty .double "[0, 1]" = .ok c ∧
    Denotes (fun s => (Literal.readDouble s).toOption) "[0, 1]" i ∧
    c.isSatisfiedBy (.double .nan) = true ∧ ¬ InRange i .nan := by
  let zero : Binary64 := .finite false 0 minExponent
  let one : Binary64 := .finite false (2 ^ 52) (-52)
  have hparts : splitRange "[0, 1]" = some ⟨true, "0", "1", true⟩ := rfl
  have hlower : readBound (literalBound Literal.readDouble) "0" = .ok (some zero) := rfl
  have hupper : readBound (literalBound Literal.readDouble) "1" = .ok (some one) := rfl
  have hordered : doubleComparison.lt one zero = false := by
    simp only [doubleComparison, one, zero, finite_not_lt_zero]
  have hread : readInterval (literalBound Literal.readDouble) doubleComparison "[0, 1]" =
      .ok ⟨some zero, some one, true, true⟩ := by
    simp [readInterval, hparts, hlower, hupper, hordered, bind, Except.bind]
  have hc : read .empty .double "[0, 1]" =
      .ok ⟨"[0, 1]", .double, .double ⟨some zero, some one, true, true⟩⟩ :=
    read_eq_ok_iff.2 ⟨.double _, by rw [readRequirement, hread, Except.map], rfl⟩
  obtain ⟨i, hi, -, hx⟩ := read_double_range hc
  obtain ⟨hmeets, hin⟩ := hx .nan trivial
  refine ⟨_, i, hc, hi, hmeets.2 ⟨fun _ _ => .inr (.inl rfl), fun _ _ => .inr (.inr rfl)⟩, ?_⟩
  exact fun h => (hin.1 h).2.1 rfl

end Constraint

end Cnd
