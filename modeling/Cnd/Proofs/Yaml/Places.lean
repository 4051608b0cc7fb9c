import Cnd.Proofs.Yaml.Position
import Mathlib.Data.List.Nodup

/-!
The source map of a tree, as a whole.

A key is escaped by two replacements, first of the tildes and then of the slashes. Where the keys of
a mapping have different texts, the map has one entry for each position of the tree and no other
entries, so that an entry names its node (`places_unambiguous`).
-/

namespace Cnd.Yaml

/-! ## Escaping as replacement -/

/-- A text with all occurrences of a character replaced. -/
def replaced (c : Char) (t s : List Char) : List Char :=
  s.flatMap fun d => if d == c then t else [d]

/-- Tildes are replaced before slashes, so the tildes that slashes become stay as they are. -/
theorem escaped_eq_replaced (s : List Char) :
    escaped s = replaced '/' ['~', '1'] (replaced '~' ['~', '0'] s) := by
  rw [replaced, replaced, List.flatMap_assoc, escaped]
  congr 1
  funext c
  unfold escapeKeyChar
  split
  · simp
  · simp

/-! ## Entries of the map -/

/-- Where keys are distinct, the entry that is found for a key is the only one. -/
theorem find?_eq_some_iff_mem {α : Type} {map : List (String × α)} (h : (map.map (·.1)).Nodup)
    {p : String} {a : α} : map.find? (·.1 == p) = some (p, a) ↔ (p, a) ∈ map := by
  refine ⟨List.mem_of_find?_eq_some, fun hmem => ?_⟩
  obtain ⟨e, he⟩ : ∃ e, map.find? (·.1 == p) = some e := by
    rw [← Option.isSome_iff_exists, List.find?_isSome]
    exact ⟨(p, a), hmem, by simp⟩
  have hkey : e.1 = p := by simpa using List.find?_some he
  rw [he, List.inj_on_of_nodup_map h (List.mem_of_find?_eq_some he) hmem hkey]

theorem keys_setPlace (path : String) (m : Mark) (map : SourceMap) :
    (setPlace path m map).map (·.1) =
      if path ∈ map.map (·.1) then map.map (·.1) else map.map (·.1) ++ [path] := by
  induction map with
  | nil => simp [setPlace]
  | cons e map ih =>
    obtain ⟨q, place⟩ := e
    rw [setPlace]
    by_cases hq : q = path
    · simp [hq]
    · rw [if_neg (by simpa using hq), List.map_cons, ih]
      by_cases hp : path ∈ map.map (·.1)
      · rw [if_pos hp, if_pos (by simpa using .inr (by simpa using hp)), List.map_cons]
      · rw [if_neg hp, if_neg (by simpa [Ne.symm hq] using hp), List.map_cons, List.cons_append]

theorem nodup_setPlaces (marks : List (String × Mark)) {map : SourceMap}
    (h : (map.map (·.1)).Nodup) : ((setPlaces marks map).map (·.1)).Nodup := by
  induction marks generalizing map with
  | nil => exact h
  | cons e marks ih =>
    rw [setPlaces, List.foldl_cons, ← setPlaces]
    refine ih ?_
    rw [keys_setPlace]
    split
    · exact h
    · rename_i hp
      exact List.nodup_append.2 ⟨h, List.nodup_singleton _, by
        rintro q hq _ hq' rfl
        exact hp (List.mem_singleton.1 hq' ▸ hq)⟩

/-- No path is recorded twice. -/
theorem nodup_places (n : Node) : (n.places.map (·.1)).Nodup := nodup_setPlaces _ List.nodup_nil

/-- The source map has the positions of the nodes as its keys, each with the place of its node. -/
theorem mem_places {ok : Tag → Prop} {n : Node} (h : n.KeyedBy ok) {p : String}
    {place : Option Int × Option Int} : (p, place) ∈ n.places ↔
      ∃ steps x, n.at? steps = some x ∧ p = pointer steps ∧ place = lineColumn x.mark := by
  rw [← find?_eq_some_iff_mem (nodup_places n)]
  constructor
  · intro hfind
    by_cases hp : ∃ steps x, n.at? steps = some x ∧ p = pointer steps
    · obtain ⟨steps, x, hx, rfl⟩ := hp
      refine ⟨steps, x, hx, rfl, ?_⟩
      rw [find?_places h hx] at hfind
      exact (congrArg Prod.snd (Option.some.inj hfind)).symm
    · rw [find?_places_eq_none h fun steps x hx heq => hp ⟨steps, x, hx, heq⟩] at hfind
      simp at hfind
  · rintro ⟨steps, x, hx, rfl, rfl⟩
    exact find?_places h hx

/-- **A source map is unambiguous.** Escaping keeps keys apart and leaves no slash in them. So two
positions of a tree have one path only if they are the same, each position has exactly one entry,
which holds the line and the column where its node starts, and there are no other entries. -/
theorem places_unambiguous {n : Node} (h : n.KeyedBy fun _ => True) :
    (∀ key key', escapeKey key = escapeKey key' → key = key') ∧
    (∀ key, (escapeKey key).toList = replaced '/' ['~', '1'] (replaced '~' ['~', '0'] key.toList) ∧
      '/' ∉ (escapeKey key).toList) ∧
    (∀ steps steps' x x', n.at? steps = some x → n.at? steps' = some x' →
      pointer steps = pointer steps' → steps = steps' ∧ x = x') ∧
    (n.places.map (·.1)).Nodup ∧
    ∀ p place, (p, place) ∈ n.places ↔ ∃ steps x, n.at? steps = some x ∧ p = pointer steps ∧
      place = (some (x.mark.line + 1 : Int), some (x.mark.column + 1 : Int)) := by
  refine ⟨fun key key' he => ?_, fun key => ?_, fun steps steps' x x' hx hx' hp => ?_,
    nodup_places n, fun p place => mem_places h⟩
  · have hchars := congrArg String.toList he
    rw [toList_escapeKey, toList_escapeKey] at hchars
    exact String.toList_inj.1 (escaped_injective hchars)
  · rw [toList_escapeKey]
    exact ⟨escaped_eq_replaced key.toList, slash_not_mem_escaped key.toList⟩
  · obtain rfl := pointer_injective hx hx' hp
    exact ⟨rfl, Option.some.inj (hx.symm.trans hx')⟩

/-- A mapping with a slash in one key, the escape of a slash in another, a number under it, and an
empty key. -/
def tangledTree : Node :=
  .mapping .map
    [(.scalar .str "a/b" ⟨0, 1⟩, .sequence .seq [.scalar .str "x" ⟨0, 7⟩] ⟨0, 6⟩),
     (.scalar .str "a~1b" ⟨1, 1⟩,
      .mapping .map [(.scalar .int "0" ⟨1, 8⟩, .scalar .str "y" ⟨1, 11⟩)] ⟨1, 7⟩),
     (.scalar .str "" ⟨2, 1⟩, .scalar .str "z" ⟨2, 5⟩)] ⟨0, 0⟩

theorem keyedBy_tangledTree : tangledTree.KeyedBy fun _ => True := by
  refine .mapping _ _ _ (by simp) (by simp [Node.keyText?]) ?_
  simp only [List.forall_mem_cons]
  exact ⟨.sequence _ _ _ (by simpa using .scalar ..),
    .mapping _ _ _ (by simp) (by simp) (by simpa using .scalar ..), .scalar .., by simp⟩

theorem places_unambiguous_tangled :
    tangledTree.KeyedBy (fun _ => True) ∧
    tangledTree.places.map (·.1) = ["", "/a~1b", "/a~1b/0", "/a~01b", "/a~01b/0", "/"] ∧
    ("/a~01b/0", some 2, some 12) ∈ tangledTree.places ∧
    ∀ steps x, tangledTree.at? steps = some x → pointer steps = "/a~01b/0" →
      steps = [.key (.text "a~1b"), .key (.text "0")] := by
  obtain ⟨-, -, hsame, -, hmem⟩ := places_unambiguous keyedBy_tangledTree
  have hy : tangledTree.at? [.key (.text "a~1b"), .key (.text "0")] =
      some (.scalar .str "y" ⟨1, 11⟩) := rfl
  have hpath : pointer [.key (.text "a~1b"), .key (.text "0")] = "/a~01b/0" := by decide
  refine ⟨keyedBy_tangledTree, by decide, (hmem _ _).2 ⟨_, _, hy, hpath.symm, rfl⟩, ?_⟩
  intro steps x hx hp
  exact (hsame _ _ _ _ hx hy (hp.trans hpath.symm)).1

end Cnd.Yaml
