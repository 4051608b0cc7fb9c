import Cnd.Export.Basic
import Cnd.Proofs.Namespaces.Extend
import Cnd.Proofs.Namespaces.Reachable

/-!
The prefix table of a payload.

The first source that binds a prefix decides its URI (`uri?_mergeAll`), and making a table of the
exported pairs gives a table with the same bindings (`ofPairs_bindings`).
-/

namespace Cnd

open Namespaces

namespace Namespaces

/-- The bindings of a table as pairs of plain values. -/
def pairs (ns : Namespaces) : List (Data × Data) :=
  ns.bindings.map fun b => (.text b.1, .text b.2)

theorem Indexed.checkDeclaration {ns : Namespaces} (h : Indexed ns) {b : String × String}
    (hb : b ∈ ns.bindings) : checkDeclaration b.1 b.2 = .ok () :=
  checkDeclaration_eq_ok.2 (h.wellFormed b hb)

/-- Declaring new prefixes puts them behind those of the table. -/
theorem bindings_declareAll {l : List (String × String)} {ns : Namespaces}
    (hok : ∀ b ∈ l, Namespaces.checkDeclaration b.1 b.2 = .ok ()) (hd : (l.map (·.1)).Nodup)
    (hnew : ∀ b ∈ l, ns.uri? b.1 = none) :
    ∃ ns', ns.declareAll (l.map fun b => (.text b.1, .text b.2)) = .ok ns' ∧
      ns'.bindings = ns.bindings ++ l := by
  induction l generalizing ns with
  | nil => exact ⟨ns, rfl, (List.append_nil _).symm⟩
  | cons b l ih =>
    rw [List.map_cons, List.nodup_cons] at hd
    have hdeclare : ns.declareData .error (.text b.1) (.text b.2) = .ok (ns.bind b.1 b.2, .added) := by
      simp only [declareData, declare, hok b List.mem_cons_self, hnew b List.mem_cons_self]
    -- the others are still new
    have hrest : ∀ c ∈ l, (ns.bind b.1 b.2).uri? c.1 = none := by
      intro c hc
      have hne : c.1 ≠ b.1 := fun he => hd.1 (List.mem_map.2 ⟨c, hc, he⟩)
      rw [uri?_bind, hnew c (List.mem_cons_of_mem b hc), if_neg hne]
      rfl
    obtain ⟨ns', hns', hbindings⟩ := ih (fun c hc => hok c (List.mem_cons_of_mem b hc)) hd.2 hrest
    refine ⟨ns', ?_, ?_⟩
    · rw [List.map_cons, declareAll, hdeclare]
      exact hns'
    · rw [hbindings, bind, List.append_assoc, List.singleton_append]

/-- **A table is made again of its pairs**, with the same bindings. -/
theorem ofPairs_bindings {ns : Namespaces} (h : Indexed ns) :
    ∃ ns', ofPairs false ns.pairs = .ok ns' ∧ ns'.bindings = ns.bindings :=
  bindings_declareAll (fun _ hb => h.checkDeclaration hb) h.distinct fun _ _ => rfl

end Namespaces

namespace Export

theorem uri?_mergeBinding (source : String) (merged : Namespaces) (pfx uri p : String) :
    (mergeBinding source merged pfx uri).1.uri? p =
      (merged.uri? p).or (if p = pfx then some uri else none) := by
  unfold mergeBinding
  split
  · exact uri?_bind merged pfx uri p
  · rename_i kept hkept
    by_cases h : p = pfx
    · rw [h, hkept, Option.some_or]
    · rw [if_neg h, Option.or_none]

theorem uri?_mergeTable (source : String) (merged : Namespaces) (l : List (String × String))
    (p : String) : (mergeTable source merged l).1.uri? p = (merged.uri? p).or (l.lookup p) := by
  induction l generalizing merged with
  | nil => rw [mergeTable, List.lookup_nil, Option.or_none]
  | cons b l ih =>
    obtain ⟨pfx, uri⟩ := b
    rw [mergeTable, ih, uri?_mergeBinding, List.lookup_cons, Option.or_assoc]
    by_cases h : p = pfx
    · rw [if_pos h, h, beq_self_eq_true, Option.some_or]
    · rw [if_neg h, beq_false_of_ne h, Option.none_or]

/-- **The first source that binds a prefix** decides its URI. -/
theorem uri?_mergeAll (merged : Namespaces) (sources : List (String × Definitions)) (p : String) :
    (mergeAll merged sources).1.uri? p =
      (merged.uri? p).or (sources.findSome? (·.2.namespaces.uri? p)) := by
  induction sources generalizing merged with
  | nil => rw [mergeAll, List.findSome?_nil, Option.or_none]
  | cons s sources ih =>
    have hfirst : s.2.namespaces.bindings.lookup p = s.2.namespaces.uri? p := rfl
    rw [mergeAll, ih, uri?_mergeTable, Option.or_assoc, List.findSome?_cons, hfirst]
    cases s.2.namespaces.uri? p <;> rfl

theorem indexed_mergeTable {source : String} {merged : Namespaces} {l : List (String × String)}
    (h : Indexed merged) (hok : ∀ b ∈ l, checkDeclaration b.1 b.2 = .ok ()) :
    Indexed (mergeTable source merged l).1 := by
  induction l generalizing merged with
  | nil => exact h
  | cons b l ih =>
    obtain ⟨pfx, uri⟩ := b
    have hbinding : Indexed (mergeBinding source merged pfx uri).1 := by
      unfold mergeBinding
      split
      · rename_i hnew
        exact h.bind hnew (hok _ List.mem_cons_self)
      · exact h
    exact ih hbinding fun c hc => hok c (List.mem_cons_of_mem _ hc)

theorem indexed_mergeAll {merged : Namespaces} {sources : List (String × Definitions)}
    (h : Indexed merged) (hs : ∀ s ∈ sources, Indexed s.2.namespaces) :
    Indexed (mergeAll merged sources).1 := by
  induction sources generalizing merged with
  | nil => exact h
  | cons s sources ih =>
    have htable : Indexed (mergeTable s.1 merged s.2.namespaces.bindings).1 :=
      indexed_mergeTable h fun _ hb => (hs s List.mem_cons_self).checkDeclaration hb
    exact ih htable fun t ht => hs t (List.mem_cons_of_mem _ ht)

theorem namespaces_ofSources (generatedAt : String) (sources : List (String × Definitions)) :
    (Payload.ofSources generatedAt sources).1.namespaces = (mergeAll .empty sources).1 := rfl

end Export

end Cnd
