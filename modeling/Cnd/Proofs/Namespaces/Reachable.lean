import Cnd.Namespaces.Session
import Cnd.Proofs.Namespaces.Index

/-!
Every table in use is indexed: one action keeps the invariant of all tables (`indexed_step`), so any
run of actions does (`indexed_run`). `index_of_reachable` says what that means for lookups.
-/

namespace Cnd.Namespaces

theorem Indexed.declareData {ns ns' : Namespaces} {policy : ConflictPolicy} {pfx uri : Data}
    {c : Change} (h : Indexed ns) (hd : ns.declareData policy pfx uri = .ok (ns', c)) :
    Indexed ns' := by
  unfold Namespaces.declareData at hd
  split at hd
  · exact h.declare hd
  · simp at hd

theorem Indexed.afterDeclaring {ns : Namespaces} (h : Indexed ns) (policy : ConflictPolicy)
    (pfx uri : Data) : Indexed (ns.afterDeclaring policy pfx uri) := by
  unfold Namespaces.afterDeclaring
  split
  · rename_i hd
    exact h.declareData hd
  · exact h

theorem Indexed.declareAll {ns ns' : Namespaces} {pairs : List (Data × Data)} (h : Indexed ns)
    (hd : ns.declareAll pairs = .ok ns') : Indexed ns' := by
  induction pairs generalizing ns with
  | nil =>
    simp only [Namespaces.declareAll, Except.ok.injEq] at hd
    exact hd ▸ h
  | cons p rest ih =>
    simp only [Namespaces.declareAll] at hd
    split at hd
    · simp at hd
    · rename_i hp
      exact ih (h.declareData hp) hd

theorem Indexed.ofPairs {builtins : Bool} {pairs : List (Data × Data)} {ns : Namespaces}
    (h : ofPairs builtins pairs = .ok ns) : Indexed ns :=
  Indexed.empty.declareAll h

theorem step_make (tables : List Namespaces) (builtins : Bool) (pairs : List (Data × Data)) :
    step tables (.make builtins pairs) =
      match ofPairs builtins pairs with
      | .ok ns => tables ++ [ns]
      | .error _ => tables := rfl

theorem reachable_of_ofPairs {builtins : Bool} {pairs : List (Data × Data)} {ns : Namespaces}
    (h : ofPairs builtins pairs = .ok ns) : Reachable ns := by
  refine ⟨[.make builtins pairs], ?_⟩
  rw [run, List.foldl_cons, List.foldl_nil, step_make, h]
  exact List.mem_singleton_self ns

/-- The table of the built-in prefixes is made as any other. -/
theorem ofPairs_builtin : ofPairs true [] = .ok builtin := by rfl

theorem reachable_builtin : Reachable builtin := reachable_of_ofPairs ofPairs_builtin

/-- An action keeps the invariant of all tables in use. -/
theorem indexed_step {tables : List Namespaces} (h : ∀ ns ∈ tables, Indexed ns) (a : Action) :
    ∀ ns ∈ step tables a, Indexed ns := by
  intro ns hns
  cases a with
  | make builtins pairs =>
    rw [step_make] at hns
    split at hns
    · rename_i made hm
      rcases List.mem_append.1 hns with hns | hns
      · exact h ns hns
      · rw [List.mem_singleton.1 hns]
        exact Indexed.ofPairs hm
    · exact h ns hns
  | declare i policy pfx uri =>
    have hns : ns ∈ tables.modify i (Namespaces.afterDeclaring · policy pfx uri) := hns
    obtain ⟨j, hj, rfl⟩ := List.mem_iff_getElem.1 hns
    rw [List.getElem_modify]
    split
    · exact (h _ (List.getElem_mem _)).afterDeclaring policy pfx uri
    · exact h _ (List.getElem_mem _)
  | copy i =>
    rcases List.mem_append.1 hns with hns | hns
    · exact h ns hns
    · exact h ns (List.mem_of_getElem? (Option.mem_toList.1 hns))

theorem indexed_run (actions : List Action) : ∀ ns ∈ run actions, Indexed ns := by
  suffices h : ∀ tables, (∀ ns ∈ tables, Indexed ns) → ∀ ns ∈ actions.foldl step tables, Indexed ns by
    exact h [] (by simp)
  induction actions with
  | nil => exact fun _ h => h
  | cons a actions ih => exact fun tables h => ih _ (indexed_step h a)

theorem Reachable.indexed {ns : Namespaces} (h : Reachable ns) : Indexed ns := by
  obtain ⟨actions, hns⟩ := h
  exact indexed_run actions ns hns

/-- The first prefix of a URI is the one in front of which nothing is bound to it. -/
theorem firstPrefix?_eq_some_iff {l : List (String × String)} {pfx uri : String} :
    firstPrefix? l uri = some pfx ↔
      ∃ before after, l = before ++ (pfx, uri) :: after ∧ ∀ b ∈ before, b.2 ≠ uri := by
  simp only [firstPrefix?, Option.map_eq_some_iff, List.find?_eq_some_iff_append]
  constructor
  · rintro ⟨⟨a, b⟩, ⟨hb, before, after, hl, hn⟩, rfl⟩
    have hu : b = uri := by simpa using hb
    exact ⟨before, after, hu ▸ hl, fun e he => by simpa using hn e he⟩
  · rintro ⟨before, after, hl, hn⟩
    exact ⟨(pfx, uri), ⟨by simp, before, after, hl, fun e he => by simpa using hn e he⟩, rfl⟩

/-- **The index of a table in use.** No prefix is bound twice; the URIs with a canonical prefix are
the bound ones; the canonical prefix of a URI is the first one of the table that is bound to it; and
a prefix that is not empty has the form of a prefix, and a URI that is not empty. -/
theorem index_of_reachable {ns : Namespaces} (h : Reachable ns) :
    (ns.bindings.map (·.1)).Nodup ∧
    (∀ uri, (∃ pfx, ns.canonical? uri = some pfx) ↔ ∃ pfx, ns.uri? pfx = some uri) ∧
    (∀ uri pfx, ns.canonical? uri = some pfx ↔
      ∃ before after, ns.bindings = before ++ (pfx, uri) :: after ∧ ∀ b ∈ before, b.2 ≠ uri) ∧
    (∀ pfx uri, ns.uri? pfx = some uri → pfx ≠ "" →
      isPrefixText pfx.toList = true ∧ uri ≠ "") := by
  have hi := h.indexed
  refine ⟨hi.distinct, ?_, ?_, ?_⟩
  · intro uri
    rw [hi.first uri]
    constructor
    · rintro ⟨pfx, hp⟩
      exact ⟨pfx, hi.mem_bindings.1 (mem_of_firstPrefix? hp)⟩
    · rintro ⟨pfx, hp⟩
      cases hf : firstPrefix? ns.bindings uri with
      | some p => exact ⟨p, rfl⟩
      | none => exact absurd rfl (firstPrefix?_eq_none_iff.1 hf _ (hi.mem_bindings.2 hp))
  · intro uri pfx
    rw [hi.first uri, firstPrefix?_eq_some_iff]
  · intro pfx uri hu hp
    exact hi.wellFormed _ (hi.mem_bindings.2 hu) hp

/-- After two prefixes of one URI, the first of which moves to another one in a copy. -/
def movedActions : List Action :=
  [.make false [(.text "a", .text "u"), (.text "b", .text "u")], .copy 0,
   .declare 1 .override (.text "a") (.text "v"), .declare 1 .error (.text "1") (.text "w")]

/-- The second prefix is canonical where the first one has moved. -/
theorem index_of_moved :
    Reachable ⟨[("b", "u"), ("a", "v")], [("u", "b"), ("v", "a")]⟩ ∧
      canonical? ⟨[("b", "u"), ("a", "v")], [("u", "b"), ("v", "a")]⟩ "u" = some "b" := by
  have h : Reachable ⟨[("b", "u"), ("a", "v")], [("u", "b"), ("v", "a")]⟩ :=
    ⟨movedActions, by
      have hr : run movedActions = [⟨[("a", "u"), ("b", "u")], [("u", "a")]⟩,
          ⟨[("b", "u"), ("a", "v")], [("u", "b"), ("v", "a")]⟩] := by rfl
      simp [hr]⟩
  exact ⟨h, ((index_of_reachable h).2.2.1 "u" "b").2 ⟨[], [("a", "v")], rfl, by simp⟩⟩

end Cnd.Namespaces
