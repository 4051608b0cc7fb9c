import Cnd.ItemPath
import Mathlib.Data.List.Induction

/-!
Where paths lead.

Walking along segments, a name leads down, two points lead up, staying at the root, and one point
leads nowhere. What segments do from any location is to go up so many levels and then down along
some names (`Route`, `walk_eq`); so whether they lead below the location that they start from can be
seen from the route alone (`isBelow_walk_iff`).
-/

namespace Cnd

namespace PathSegment

/-- A name, with or without an index. -/
def IsItem : PathSegment → Prop
  | .item _ _ => True
  | .current | .parent => False

/-- The location that a segment leads to, locations being the names on the way from the root. -/
def step (here : List PathSegment) : PathSegment → List PathSegment
  | .current => here
  | .parent => here.dropLast
  | .item name index => here ++ [.item name index]

end PathSegment

namespace ItemPath

/-- The location that segments lead to, one after the other. -/
def walk (here gs : List PathSegment) : List PathSegment := gs.foldl PathSegment.step here

/-- The location that an absolute path leads to. -/
def location (p : ItemPath) : List PathSegment := walk [] p.segments

/-- The second location is the first one followed by at least one more name. -/
def IsBelow (here there : List PathSegment) : Prop := ∃ more, more ≠ [] ∧ there = here ++ more

theorem isBelow_append_iff {front here there : List PathSegment} :
    IsBelow (front ++ here) (front ++ there) ↔ IsBelow here there := by
  simp [IsBelow, List.append_assoc]

theorem walk_nil (here : List PathSegment) : walk here [] = here := rfl

theorem walk_concat (here gs : List PathSegment) (g : PathSegment) :
    walk here (gs ++ [g]) = PathSegment.step (walk here gs) g := by
  rw [walk, List.foldl_append]
  rfl

theorem walk_append (here gs hs : List PathSegment) :
    walk here (gs ++ hs) = walk (walk here gs) hs := List.foldl_append

theorem walk_of_isItem {gs : List PathSegment} (h : ∀ g ∈ gs, g.IsItem) (here : List PathSegment) :
    walk here gs = here ++ gs := by
  induction gs using List.reverseRecOn with
  | nil => rw [walk_nil, List.append_nil]
  | append_singleton gs g ih =>
    rw [walk_concat, ih fun x hx => h x (List.mem_append_left _ hx)]
    cases g with
    | item name index => rw [PathSegment.step, List.append_assoc]
    | current | parent => exact False.elim (h _ List.mem_concat_self)

/-! ## Routes -/

/-- So many levels up, and then down along names. -/
structure Route where
  climbs : Nat
  names : List PathSegment

/-- A route with a segment behind it: two points take the last name back, or lead one level up where
there is none. -/
def Route.step (r : Route) : PathSegment → Route
  | .current => r
  | .parent => if r.names = [] then ⟨r.climbs + 1, []⟩ else ⟨r.climbs, r.names.dropLast⟩
  | .item name index => ⟨r.climbs, r.names ++ [.item name index]⟩

/-- What is left of segments when each two points have taken back the name in front of them. -/
def route (gs : List PathSegment) : Route := gs.foldl Route.step ⟨0, []⟩

theorem route_concat (gs : List PathSegment) (g : PathSegment) :
    route (gs ++ [g]) = (route gs).step g := by
  rw [route, List.foldl_append]
  rfl

/-- Taking a route from a location. -/
def Route.from (r : Route) (here : List PathSegment) : List PathSegment :=
  here.take (here.length - r.climbs) ++ r.names

theorem Route.from_step (r : Route) (here : List PathSegment) (g : PathSegment) :
    (r.step g).from here = PathSegment.step (r.from here) g := by
  cases g with
  | current => rfl
  | item name index => simp only [Route.step, Route.from, PathSegment.step, List.append_assoc]
  | parent =>
    simp only [Route.step, Route.from, PathSegment.step]
    by_cases hnames : r.names = []
    · -- Nothing is left to take back, so the last level of the start goes.
      rw [if_pos hnames, hnames, List.append_nil, List.append_nil, List.dropLast_eq_take,
        List.take_take, List.length_take]
      congr 1
      dsimp only
      omega
    · rw [if_neg hnames, List.dropLast_append_of_ne_nil hnames]

/-- Walking along segments is taking their route. -/
theorem walk_eq (here gs : List PathSegment) : walk here gs = (route gs).from here := by
  induction gs using List.reverseRecOn with
  | nil => simp [walk, route, Route.from]
  | append_singleton gs g ih => rw [walk_concat, ih, route_concat, Route.from_step]

/-- Segments lead below their start just if their names begin with the levels they have left. -/
theorem isBelow_walk_iff (here gs : List PathSegment) :
    IsBelow here (walk here gs) ↔
      IsBelow (here.drop (here.length - (route gs).climbs)) (route gs).names := by
  rw [walk_eq, Route.from]
  conv_lhs => arg 1; rw [← List.take_append_drop (here.length - (route gs).climbs) here]
  exact isBelow_append_iff

/-! ## Ancestors -/

theorem isAncestorOf_iff {p q : ItemPath} :
    p.isAncestorOf q = true ↔ p.absolute = q.absolute ∧ IsBelow p.segments q.segments := by
  simp only [isAncestorOf, Bool.and_eq_true, beq_iff_eq, decide_eq_true_eq,
    List.isPrefixOf_iff_prefix, and_assoc]
  refine and_congr_right fun _ => ?_
  constructor
  · rintro ⟨hlength, more, hq⟩
    refine ⟨more, ?_, hq.symm⟩
    rintro rfl
    rw [← hq, List.append_nil] at hlength
    omega
  · rintro ⟨more, hne, hq⟩
    have := List.length_pos_iff.2 hne
    rw [hq, List.length_append]
    exact ⟨by omega, more, rfl⟩

end ItemPath

end Cnd
