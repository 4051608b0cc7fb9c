/-!
Intervals over any ordered kind of value: two bounds, each of which may be missing, and whether
each bound belongs to the interval.
-/

namespace Cnd

structure Interval (α : Type) where
  lower : Option α
  upper : Option α
  lowerInclusive : Bool
  upperInclusive : Bool

namespace Interval

/-- A strict order and an equality by which bounds are compared. -/
structure Comparison (α : Type) where
  lt : α → α → Bool
  eq : α → α → Bool

variable {α : Type}

/-- Not below the lower bound, nor on it if it is left out. -/
def aboveLower (c : Comparison α) (i : Interval α) (x : α) : Bool :=
  match i.lower with
  | none => true
  | some b => !(c.lt x b || (c.eq x b && !i.lowerInclusive))

/-- Not above the upper bound, nor on it if it is left out. -/
def belowUpper (c : Comparison α) (i : Interval α) (x : α) : Bool :=
  match i.upper with
  | none => true
  | some b => !(c.lt b x || (c.eq x b && !i.upperInclusive))

def contains (c : Comparison α) (i : Interval α) (x : α) : Bool :=
  i.aboveLower c x && i.belowUpper c x

end Interval

end Cnd
