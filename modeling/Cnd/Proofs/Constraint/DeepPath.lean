import Cnd.Proofs.Constraint.Range
import Cnd.Proofs.ItemPath.Location

/-!
Constraints that ask for a path below another one.

The paths that meet such a constraint are the ones whose segments continue those of its own path;
where the segments behind these lead is not asked. They lead below that path if no two points are
among them, and otherwise just if the names that are left begin with the levels that were left
(`satisfied_deep_path`).
-/

namespace Cnd.Constraint

open ItemPath

/-- The text of the path in front of `/*`; nothing in front of it stands for the root. -/
def stemPath (stem : String) : String := if stem = "" then "/" else stem

theorem readPath_deep_eq_ok_iff {ns : Namespaces} {stem : String} {r : Requirement} :
    readPath ns (stem ++ "/*") = .ok r ↔
      ∃ p, ItemPath.parse ns (stemPath stem) = .ok p ∧ .path p true = r := by
  have htext : (stem ++ "/*").toList = stem.toList ++ ['/', '*'] := by simp
  have hdeep : ['*', '/'].isPrefixOf (stem.toList ++ ['/', '*']).reverse = true := by simp
  have hstem : (stem.toList ++ ['/', '*']).take ((stem.toList ++ ['/', '*']).length - 2) =
      stem.toList := by simp
  have hpath : String.ofList (if stem.toList = [] then ['/'] else stem.toList) = stemPath stem := by
    rw [stemPath]
    by_cases he : stem = ""
    · simp [he]
    · rw [if_neg he, if_neg (by simpa using he), String.ofList_toList]
  simp only [readPath, htext, hdeep, if_true, hstem, Bool.true_and, List.isEmpty_iff, hpath]
  cases ItemPath.parse ns (stemPath stem) with
  | ok p => simp
  | error e => simp

/-- A constraint on the paths below another one is read from the text of that path. -/
theorem read_deep_eq_ok_iff {ns : Namespaces} {stem : String} {c : Constraint} :
    read ns .path (stem ++ "/*") = .ok c ↔
      ∃ p, ItemPath.parse ns (stemPath stem) = .ok p ∧
        c = ⟨stem ++ "/*", .path, .path p true⟩ := by
  rw [read_eq_ok_iff]
  simp only [readRequirement, readPath_deep_eq_ok_iff]
  constructor
  · rintro ⟨r, ⟨p, hp, rfl⟩, rfl⟩
    exact ⟨p, hp, rfl⟩
  · rintro ⟨p, hp, rfl⟩
    exact ⟨.path p true, ⟨p, hp, rfl⟩, rfl⟩

/-- **Constraints on paths below another one.** Let the other path be absolute and made of names alone.
An absolute path meets the constraint exactly if its segments are those of the other path and at
least one more. It leads below the other path exactly if what is left of the segments behind, when
two points have taken names back, are the names of the levels that they left and at least one more;
so among paths made of names alone it does both or neither. -/
theorem satisfied_deep_path {ns : Namespaces} {stem : String} {p : ItemPath} {c : Constraint}
    (hc : read ns .path (stem ++ "/*") = .ok c) (hp : ItemPath.parse ns (stemPath stem) = .ok p)
    (habsolute : p.absolute = true) (hitems : ∀ g ∈ p.segments, g.IsItem)
    {q : ItemPath} (hq : q.absolute = true) :
    (c.isSatisfiedBy (.path q) = true ↔ IsBelow p.segments q.segments) ∧
    (∀ rest, q.segments = p.segments ++ rest →
      (IsBelow p.segments q.location ↔
        IsBelow (p.segments.drop (p.segments.length - (route rest).climbs)) (route rest).names)) ∧
    ((∀ g ∈ q.segments, g.IsItem) →
      (c.isSatisfiedBy (.path q) = true ↔ IsBelow p.segments q.location)) := by
  obtain ⟨p', hp', rfl⟩ := read_deep_eq_ok_iff.1 hc
  obtain rfl : p' = p := Except.ok.inj (hp'.symm.trans hp)
  have hmeets : isSatisfiedBy ⟨stem ++ "/*", .path, .path p' true⟩ (.path q) = true ↔
      IsBelow p'.segments q.segments := by
    simp only [isSatisfiedBy, if_true, isAncestorOf_iff, habsolute, hq, true_and]
  refine ⟨hmeets, fun rest hrest => ?_, fun hnames => ?_⟩
  · rw [location, hrest, walk_append, walk_of_isItem hitems, List.nil_append]
    exact isBelow_walk_iff p'.segments rest
  · rw [hmeets, location, walk_of_isItem hnames, List.nil_append]

/-- Two points right below the other path leave it, and the path still meets the constraint. -/
theorem satisfied_deep_path_parent :
    let p : ItemPath := ⟨true, [.item ⟨"", "a"⟩ none]⟩
    let q : ItemPath := ⟨true, [.item ⟨"", "a"⟩ none, .parent, .item ⟨"", "b"⟩ none]⟩
    ItemPath.parse .builtin "/a" = .ok p ∧ ItemPath.parse .builtin "/a/../b" = .ok q ∧
      ∃ c, read .builtin .path "/a/*" = .ok c ∧ c.isSatisfiedBy (.path q) = true ∧
        ¬ IsBelow p.segments q.location := by
  intro p q
  have hp : ItemPath.parse .builtin (stemPath "/a") = .ok p := by rfl
  have hq : ItemPath.parse .builtin "/a/../b" = .ok q := by rfl
  have hc := read_deep_eq_ok_iff.2 ⟨p, hp, rfl⟩
  obtain ⟨hmeets, hleads, -⟩ := satisfied_deep_path hc hp rfl (by simp [p, PathSegment.IsItem])
    (q := q) rfl
  refine ⟨hp, hq, _, hc, hmeets.2 ⟨[.parent, .item ⟨"", "b"⟩ none], by simp, rfl⟩, ?_⟩
  rw [hleads [.parent, .item ⟨"", "b"⟩ none] rfl]
  rintro ⟨more, hmore, hnames⟩
  have hne : [PathSegment.item ⟨"", "b"⟩ none] = PathSegment.item ⟨"", "a"⟩ none :: more := hnames
  exact absurd (List.cons.inj hne).1 (by decide)

end Cnd.Constraint
