import Cnd.Proofs.Namespaces.Extend
import Cnd.Proofs.Namespaces.Reachable
import Cnd.Proofs.Namespaces.Resolve
import Mathlib.Data.List.Nodup
import Mathlib.Data.List.Perm.Subperm

/-!
What one declaration does to a table.

Two tables are the same just if they look up prefixes and URIs alike, whatever the order of their
entries (`same_iff`). A declaration is refused, or leaves the table as it is, or makes another one,
which has one new binding behind all others (`bindings_declare`); since the index is right on both
sides, that settles the canonical prefixes too (`declareData_effect`).
-/

namespace Cnd.Namespaces

/-! ## Tables that are the same -/

theorem lookup_eq_some_iff_mem {l : List (String × String)} (hd : (l.map (·.1)).Nodup)
    {k v : String} : l.lookup k = some v ↔ (k, v) ∈ l :=
  ⟨mem_of_lookup_eq_some, lookup_eq_some_of_mem hd⟩

theorem sameEntries_iff {l m : List (String × String)} (hl : (l.map (·.1)).Nodup)
    (hm : (m.map (·.1)).Nodup) :
    sameEntries l m = true ↔ ∀ k, l.lookup k = m.lookup k := by
  simp only [sameEntries, Bool.and_eq_true, beq_iff_eq, List.all_eq_true]
  constructor
  · rintro ⟨hlength, hall⟩ k
    have hsub : l ⊆ m := fun e he => mem_of_lookup_eq_some (hall e he)
    -- Distinct entries, all of them in the other list, which has no more: they are the same ones.
    have hperm : l.Perm m :=
      ((List.Nodup.of_map _ hl).subperm hsub).perm_of_length_le (Nat.le_of_eq hlength.symm)
    ext v
    rw [lookup_eq_some_iff_mem hl, lookup_eq_some_iff_mem hm, hperm.mem_iff]
  · intro h
    have hperm : l.Perm m := by
      rw [List.perm_ext_iff_of_nodup (.of_map _ hl) (.of_map _ hm)]
      rintro ⟨k, v⟩
      rw [← lookup_eq_some_iff_mem hl, ← lookup_eq_some_iff_mem hm, h k]
    refine ⟨hperm.length_eq, fun e he => ?_⟩
    exact lookup_eq_some_of_mem hm (hperm.mem_iff.1 he)

theorem same_iff {a b : Namespaces} (ha : Indexed a) (hb : Indexed b) :
    a.same b = true ↔ (∀ pfx, a.uri? pfx = b.uri? pfx) ∧ ∀ uri, a.canonical? uri = b.canonical? uri := by
  rw [same, Bool.and_eq_true, sameEntries_iff ha.distinct hb.distinct,
    sameEntries_iff ha.indexDistinct hb.indexDistinct]
  rfl

/-! ## Declarations that are refused -/

/-- Why a declaration is refused. -/
inductive Refuses (ns : Namespaces) (policy : ConflictPolicy) : Data → Data → NameError → Prop where
  | notText {pfx uri : Data} (h : ∀ p u, pfx = .text p → uri = .text u → False) :
    Refuses ns policy pfx uri (.notText pfx uri)
  | invalidPrefix {p u : String} (hne : p ≠ "") (h : isPrefixText p.toList = false) :
    Refuses ns policy (.text p) (.text u) (.invalidPrefix p)
  | emptyUri {p : String} (hne : p ≠ "") (h : isPrefixText p.toList = true) :
    Refuses ns policy (.text p) (.text "") (.emptyUri p)
  /-- The prefix is bound to another URI, and the policy does not let it move or stay. -/
  | conflict {p u current : String} (hp : policy = .error) (hu : ns.uri? p = some current)
    (hne : current ≠ u) : Refuses ns policy (.text p) (.text u) (.conflict p current u)

theorem refuses_of_checkDeclaration {ns : Namespaces} {policy : ConflictPolicy} {p u : String}
    {e : NameError} (h : checkDeclaration p u = .error e) :
    Refuses ns policy (.text p) (.text u) e := by
  unfold checkDeclaration at h
  by_cases hp : p = ""
  · simp [hp] at h
  by_cases ht : isPrefixText p.toList = true
  · by_cases hu : u = ""
    · obtain rfl : NameError.emptyUri p = e := by simpa [hp, ht, hu] using h
      exact hu ▸ .emptyUri hp ht
    · simp [hp, ht, hu] at h
  · obtain rfl : NameError.invalidPrefix p = e := by simpa [hp, ht] using h
    exact .invalidPrefix hp (by simpa using ht)

theorem refuses_of_declareData {ns : Namespaces} {policy : ConflictPolicy} {pfx uri : Data}
    {e : NameError} (h : ns.declareData policy pfx uri = .error e) :
    Refuses ns policy pfx uri e := by
  unfold declareData at h
  split at h
  · rename_i p u
    unfold declare at h
    split at h
    · rename_i e' he'
      rw [← Except.error.inj h]
      exact refuses_of_checkDeclaration he'
    split at h
    · simp at h
    rename_i current hu
    split at h
    · simp at h
    rename_i hne
    cases policy with
    | error =>
      rw [← Except.error.inj h]
      exact .conflict rfl hu (by simpa using hne)
    | ignore | override => simp at h
  · rename_i htexts
    rw [← Except.error.inj h]
    exact .notText htexts

/-! ## Declarations that make another table -/

/-- A prefix is bound anew. -/
structure Rebinds (ns ns' : Namespaces) (pfx uri : String) : Prop where
  /-- The table is another one. -/
  differs : ns.same ns' = false
  bound : ns'.uri? pfx = some uri
  /-- All other bindings stay, in their order, and the new one is the last. -/
  bindings : ns'.bindings = ns.bindings.filter (·.1 != pfx) ++ [(pfx, uri)]
  others : ∀ p, p ≠ pfx → ns'.uri? p = ns.uri? p
  /-- Only the new URI and the former one may get or lose a canonical prefix. -/
  canonical_others : ∀ u, u ≠ uri → ns.uri? pfx ≠ some u → ns'.canonical? u = ns.canonical? u
  /-- The former URI keeps one while there are prefixes for it. -/
  canonical_former : ∀ u, ns.uri? pfx = some u →
    ((∃ p, ns'.canonical? u = some p) ↔ ∃ p, p ≠ pfx ∧ ns'.uri? p = some u)
  /-- The new URI keeps the one that it has. -/
  canonical_new : ∀ p, ns.canonical? uri = some p → ns'.canonical? uri = some p

theorem bindings_declare {ns ns' : Namespaces} {policy : ConflictPolicy} {pfx uri : String}
    {c : Change} (h : ns.declare policy pfx uri = .ok (ns', c)) :
    (c.isChange = false ∧ ns' = ns) ∨
      (c.isChange = true ∧ ns.uri? pfx ≠ some uri ∧
        ns'.bindings = ns.bindings.filter (·.1 != pfx) ++ [(pfx, uri)]) := by
  obtain ⟨-, hcases⟩ := declare_cases h
  rcases hcases with ⟨-, rfl, rfl⟩ | ⟨hn, rfl, rfl⟩ | ⟨current, hc, hne, ⟨-, rfl, rfl⟩ | ⟨-, rfl, rfl⟩⟩
  · exact .inl ⟨rfl, rfl⟩
  · refine .inr ⟨rfl, by simp [hn], ?_⟩
    have hkept : ns.bindings.filter (·.1 != pfx) = ns.bindings := by
      rw [List.filter_eq_self]
      intro b hb
      have := List.lookup_eq_none_iff.1 hn b hb
      rwa [bne_comm] at this
    rw [hkept]
    rfl
  · exact .inl ⟨rfl, rfl⟩
  · exact .inr ⟨rfl, by simpa [hc] using hne, rfl⟩

theorem bindings_of_change {ns ns' : Namespaces} {policy : ConflictPolicy} {pfx uri : String}
    {c : Change} (h : ns.declare policy pfx uri = .ok (ns', c)) (hc : c.isChange = true) :
    ns.uri? pfx ≠ some uri ∧ ns'.bindings = ns.bindings.filter (·.1 != pfx) ++ [(pfx, uri)] := by
  rcases bindings_declare h with ⟨hkept, -⟩ | ⟨-, hbindings⟩
  · rw [hkept] at hc
    simp at hc
  · exact hbindings

/-- A change moves the prefix just if it was bound, and from the URI that it was bound to. -/
theorem moved_iff {ns ns' : Namespaces} {policy : ConflictPolicy} {pfx uri : String} {c : Change}
    (h : ns.declare policy pfx uri = .ok (ns', c)) (hc : c.isChange = true) {former : String} :
    c = .moved former ↔ ns.uri? pfx = some former := by
  obtain ⟨-, hcases⟩ := declare_cases h
  rcases hcases with
    ⟨-, -, rfl⟩ | ⟨hn, -, rfl⟩ | ⟨current, hcurrent, -, ⟨-, -, rfl⟩ | ⟨-, -, rfl⟩⟩
  · simp [Change.isChange] at hc
  · simp [hn]
  · simp [Change.isChange] at hc
  · rw [hcurrent, Option.some.injEq, Change.moved.injEq]

theorem firstPrefix?_ne {ns : Namespaces} (hi : Indexed ns) {pfx u : String}
    (hu : ns.uri? pfx ≠ some u) : firstPrefix? ns.bindings u ≠ some pfx :=
  fun hf => hu (hi.uri?_of_canonical? ((hi.first u).trans hf))

/-- The canonical prefixes where a new binding follows the others. -/
theorem canonical?_of_bindings {ns ns' : Namespaces} (hi : Indexed ns) (hi' : Indexed ns')
    {pfx uri u : String}
    (hb : ns'.bindings = ns.bindings.filter (·.1 != pfx) ++ [(pfx, uri)])
    (hu : ns.uri? pfx ≠ some u) :
    ns'.canonical? u = (ns.canonical? u).or (if uri = u then some pfx else none) := by
  rw [hi'.first, hb, firstPrefix?_append, firstPrefix?_filter_of_ne (firstPrefix?_ne hi hu),
    ← hi.first]

theorem Rebinds.of_declare {ns ns' : Namespaces} (hi : Indexed ns) {policy : ConflictPolicy}
    {pfx uri : String} {c : Change} (h : ns.declare policy pfx uri = .ok (ns', c))
    (hne : ns.uri? pfx ≠ some uri)
    (hb : ns'.bindings = ns.bindings.filter (·.1 != pfx) ++ [(pfx, uri)]) :
    Rebinds ns ns' pfx uri := by
  have hi' : Indexed ns' := hi.declare h
  have hbound : ns'.uri? pfx = some uri := hi'.mem_bindings.1 (by simp [hb])
  refine ⟨?_, hbound, hb, fun p hp => uri?_declare_other h hp, ?_, ?_, ?_⟩
  · rw [← Bool.not_eq_true, same_iff hi hi']
    intro hsame
    exact hne ((hsame.1 pfx).trans hbound)
  · intro u hu hformer
    rw [canonical?_of_bindings hi hi' hb hformer, if_neg hu.symm, Option.or_none]
  · intro u hformer
    constructor
    · rintro ⟨p, hp⟩
      have hpu := hi'.uri?_of_canonical? hp
      refine ⟨p, ?_, hpu⟩
      rintro rfl
      rw [hbound] at hpu
      exact hne (hpu ▸ hformer)
    · rintro ⟨p, -, hp⟩
      obtain ⟨p', hp', -⟩ := hi'.exists_canonical ⟨p, hp⟩
      exact ⟨p', hp'⟩
  · intro p hp
    rw [canonical?_of_bindings hi hi' hb hne, hp, Option.some_or]

end Cnd.Namespaces
