import Cnd.Namespaces.Basic

/-!
The index of a prefix table, and what declaring does to it.

`Indexed` is the invariant of a table: no prefix is bound twice, the index names for each URI the
first prefix of the table that is bound to it, and only the empty prefix may be malformed or have
an empty URI. `Indexed.declare` keeps it through a declaration, whatever the policy. The only hard
step is taking a binding away (`Indexed.unbind`): the index then either named another prefix, which
is still the first, or has to find the next one.
-/

namespace Cnd.Namespaces

/-! ## Bindings by prefix and by URI -/

/-- The first prefix of some bindings with a URI. -/
def firstPrefix? (bindings : List (String × String)) (uri : String) : Option String :=
  (bindings.find? (·.2 == uri)).map (·.1)

theorem lookup_eq_some_of_mem {l : List (String × String)} {k v : String}
    (hd : (l.map (·.1)).Nodup) (h : (k, v) ∈ l) : l.lookup k = some v := by
  induction l with
  | nil => simp at h
  | cons e l ih =>
    obtain ⟨k', v'⟩ := e
    simp only [List.map_cons, List.nodup_cons, List.mem_map, not_exists, not_and] at hd
    rcases List.mem_cons.1 h with he | hm
    · cases he; simp
    · have hne : (k == k') = false := by
        simp only [beq_eq_false_iff_ne]
        intro he
        exact hd.1 (k, v) hm he
      rw [List.lookup_cons, hne]
      exact ih hd.2 hm

theorem mem_of_lookup_eq_some {l : List (String × String)} {k v : String}
    (h : l.lookup k = some v) : (k, v) ∈ l := by
  obtain ⟨l₁, l₂, rfl, -⟩ := List.lookup_eq_some_iff.1 h
  simp

theorem lookup_filter_other {l : List (String × String)} {k k' : String} (h : k' ≠ k) :
    (l.filter (·.1 != k)).lookup k' = l.lookup k' := by
  induction l with
  | nil => rfl
  | cons e l ih =>
    obtain ⟨a, b⟩ := e
    by_cases ha : a = k
    · subst ha
      have hne : (k' == a) = false := by simpa using h
      simp only [List.filter_cons, bne_self_eq_false, Bool.false_eq_true, if_false, List.lookup_cons,
        hne, ih]
    · have hk : (a != k) = true := by simpa using ha
      simp only [List.filter_cons, hk, if_true, List.lookup_cons, ih]

theorem lookup_filter_self {l : List (String × String)} {k : String} :
    (l.filter (·.1 != k)).lookup k = none := by
  rw [List.lookup_eq_none_iff]
  intro e he
  have := (List.mem_filter.1 he).2
  simp only [bne_iff_ne, ne_eq] at this
  simpa using fun h => this h.symm

theorem nodup_keys_filter {l : List (String × String)} (p : String × String → Bool)
    (hd : (l.map (·.1)).Nodup) : ((l.filter p).map (·.1)).Nodup :=
  hd.sublist (List.filter_sublist.map _)

theorem nodup_keys_append {l : List (String × String)} {k v : String}
    (hd : (l.map (·.1)).Nodup) (hk : l.lookup k = none) : ((l ++ [(k, v)]).map (·.1)).Nodup := by
  rw [List.map_append, List.nodup_append]
  refine ⟨hd, by simp, ?_⟩
  intro a ha b hb
  simp only [List.map_cons, List.map_nil, List.mem_singleton] at hb
  obtain ⟨e, he, rfl⟩ := List.mem_map.1 ha
  have := List.lookup_eq_none_iff.1 hk e he
  simp only [bne_iff_ne, ne_eq] at this
  rw [hb]
  exact fun h => this h.symm

theorem firstPrefix?_append (l : List (String × String)) (pfx uri u : String) :
    firstPrefix? (l ++ [(pfx, uri)]) u =
      (firstPrefix? l u).or (if uri = u then some pfx else none) := by
  simp only [firstPrefix?, List.find?_append]
  by_cases h : uri = u <;> cases l.find? (·.2 == u) <;> simp [h]

/-- Taking away a prefix that is not the first of a URI leaves the first one. -/
theorem firstPrefix?_filter_of_ne {l : List (String × String)} {pfx u : String}
    (h : firstPrefix? l u ≠ some pfx) :
    firstPrefix? (l.filter (·.1 != pfx)) u = firstPrefix? l u := by
  induction l with
  | nil => rfl
  | cons e l ih =>
    obtain ⟨a, b⟩ := e
    by_cases hb : b = u
    · have hap : a ≠ pfx := by
        intro ha
        exact h (by simp [firstPrefix?, hb, ha])
      have hk : (a != pfx) = true := by simpa using hap
      simp [firstPrefix?, hk, hb]
    · have hbu : (b == u) = false := by simpa using hb
      have hl : firstPrefix? ((a, b) :: l) u = firstPrefix? l u := by
        simp [firstPrefix?, hbu]
      rw [hl] at h ⊢
      by_cases ha : a = pfx
      · simpa [List.filter_cons, ha] using ih h
      · have hk : (a != pfx) = true := by simpa using ha
        rw [← ih h]
        simp [firstPrefix?, hk, hbu]

theorem firstPrefix?_eq_none_iff {l : List (String × String)} {u : String} :
    firstPrefix? l u = none ↔ ∀ b ∈ l, b.2 ≠ u := by
  simp [firstPrefix?]

theorem mem_of_firstPrefix? {l : List (String × String)} {pfx u : String}
    (h : firstPrefix? l u = some pfx) : (pfx, u) ∈ l := by
  simp only [firstPrefix?, Option.map_eq_some_iff] at h
  obtain ⟨⟨a, b⟩, hf, rfl⟩ := h
  have hb : b = u := by simpa using List.find?_some hf
  exact hb ▸ List.mem_of_find?_eq_some hf

/-! ## The invariant -/

/-- A table whose index is right. -/
structure Indexed (ns : Namespaces) : Prop where
  distinct : (ns.bindings.map (·.1)).Nodup
  indexDistinct : (ns.canonical.map (·.1)).Nodup
  /-- The index names the first prefix of each bound URI, and no others. -/
  first : ∀ uri, ns.canonical? uri = firstPrefix? ns.bindings uri
  wellFormed : ∀ b ∈ ns.bindings, b.1 ≠ "" → isPrefixText b.1.toList = true ∧ b.2 ≠ ""

theorem Indexed.empty : Indexed empty :=
  ⟨by simp [Namespaces.empty], by simp [Namespaces.empty], fun _ => rfl, by simp [Namespaces.empty]⟩

theorem Indexed.mem_bindings {ns : Namespaces} (h : Indexed ns) {pfx uri : String} :
    (pfx, uri) ∈ ns.bindings ↔ ns.uri? pfx = some uri :=
  ⟨lookup_eq_some_of_mem h.distinct, mem_of_lookup_eq_some⟩

theorem Indexed.uri?_of_canonical? {ns : Namespaces} (h : Indexed ns) {pfx uri : String}
    (hc : ns.canonical? uri = some pfx) : ns.uri? pfx = some uri := by
  rw [h.first] at hc
  exact h.mem_bindings.1 (mem_of_firstPrefix? hc)

/-- The declarations that `checkDeclaration` lets pass. -/
theorem checkDeclaration_eq_ok {pfx uri : String} :
    checkDeclaration pfx uri = .ok () ↔ (pfx ≠ "" → isPrefixText pfx.toList = true ∧ uri ≠ "") := by
  unfold checkDeclaration
  by_cases hp : pfx = ""
  · simp [hp]
  · by_cases ht : isPrefixText pfx.toList = true <;> by_cases hu : uri = "" <;>
      simp [hp, ht, hu]

/-- A new binding at the end leaves every first prefix first. -/
theorem Indexed.bind {ns : Namespaces} (h : Indexed ns) {pfx uri : String}
    (hnew : ns.uri? pfx = none) (hok : checkDeclaration pfx uri = .ok ()) :
    Indexed (ns.bind pfx uri) := by
  have hf := h.first uri
  refine ⟨nodup_keys_append h.distinct hnew, ?_, ?_, ?_⟩
  · simp only [Namespaces.bind]
    split
    · exact h.indexDistinct
    · rename_i hn
      exact nodup_keys_append h.indexDistinct (Option.not_isSome_iff_eq_none.1 hn)
  · intro u
    simp only [Namespaces.bind, canonical?, firstPrefix?_append] at hf ⊢
    rw [← h.first u]
    by_cases hu : uri = u
    · subst hu
      cases hc : ns.canonical.lookup uri with
      | some p => simp [canonical?, hc]
      | none => simp [canonical?, hc, List.lookup_append]
    · have hne : (u == uri) = false := by simpa using fun e => hu e.symm
      rw [if_neg hu, Option.or_none]
      split
      · rfl
      · simp [List.lookup_append, List.lookup_cons, hne, canonical?]
  · intro b hb
    simp only [Namespaces.bind, List.mem_append, List.mem_singleton] at hb
    rcases hb with hb | rfl
    · exact h.wellFormed b hb
    · exact checkDeclaration_eq_ok.1 hok

section
variable {bindings canonical : List (String × String)} {pfx uri : String}

theorem nodup_unindex (h : (canonical.map (·.1)).Nodup) :
    ((unindex bindings canonical pfx uri).map (·.1)).Nodup := by
  unfold unindex
  split
  · split
    · exact nodup_keys_append (nodup_keys_filter _ h) lookup_filter_self
    · exact nodup_keys_filter _ h
  · exact h

theorem unindex_of_ne (h : canonical.lookup uri ≠ some pfx) :
    unindex bindings canonical pfx uri = canonical := by
  simp [unindex, h]

/-- The canonical prefix of a URI gives way to the first one that is left. -/
theorem lookup_unindex_self (h : canonical.lookup uri = some pfx) :
    (unindex bindings canonical pfx uri).lookup uri = firstPrefix? bindings uri := by
  rw [unindex, if_pos (beq_iff_eq.2 h), firstPrefix?]
  cases bindings.find? (·.2 == uri) with
  | none => exact lookup_filter_self
  | some b =>
    dsimp only
    rw [List.lookup_append, lookup_filter_self]
    simp

theorem lookup_unindex_other {u : String} (hu : u ≠ uri) :
    (unindex bindings canonical pfx uri).lookup u = canonical.lookup u := by
  have hne : (u == uri) = false := by simpa using hu
  unfold unindex
  split
  · split
    · rw [List.lookup_append, lookup_filter_other hu]
      simp [List.lookup_cons, hne]
    · exact lookup_filter_other hu
  · rfl

end

/-- Taking a binding away elects the next prefix of its URI, if it was the canonical one. -/
theorem Indexed.unbind {ns : Namespaces} (h : Indexed ns) {pfx uri : String}
    (hold : ns.uri? pfx = some uri) : Indexed (ns.unbind pfx uri) := by
  -- The prefix is bound to this URI alone, so it is the first of no other one.
  have hother : ∀ u, u ≠ uri → firstPrefix? ns.bindings u ≠ some pfx := by
    intro u hu hp
    have := h.uri?_of_canonical? ((h.first u).trans hp)
    rw [hold] at this
    exact hu (Option.some.inj this).symm
  refine ⟨nodup_keys_filter _ h.distinct, nodup_unindex h.indexDistinct, ?_, ?_⟩
  · intro u
    have hfirst := h.first u
    simp only [Namespaces.unbind, canonical?] at hfirst ⊢
    by_cases hu : u = uri
    · subst hu
      by_cases hc : ns.canonical.lookup u = some pfx
      · exact lookup_unindex_self hc
      · rw [unindex_of_ne hc, hfirst]
        rw [hfirst] at hc
        exact (firstPrefix?_filter_of_ne hc).symm
    · rw [lookup_unindex_other hu, hfirst, firstPrefix?_filter_of_ne (hother u hu)]
  · intro b hb
    exact h.wellFormed b (List.mem_filter.1 hb).1

theorem uri?_unbind_self (ns : Namespaces) (pfx uri : String) :
    (ns.unbind pfx uri).uri? pfx = none := lookup_filter_self

/-! ## Declaring -/

/-- What a declaration that is not refused does. -/
theorem declare_cases {ns ns' : Namespaces} {policy : ConflictPolicy} {pfx uri : String}
    {c : Change} (h : ns.declare policy pfx uri = .ok (ns', c)) :
    checkDeclaration pfx uri = .ok () ∧
      ((ns.uri? pfx = some uri ∧ ns' = ns ∧ c = .none) ∨
       (ns.uri? pfx = none ∧ ns' = ns.bind pfx uri ∧ c = .added) ∨
       ∃ current, ns.uri? pfx = some current ∧ current ≠ uri ∧
        ((policy = .ignore ∧ ns' = ns ∧ c = .kept current) ∨
         (policy = .override ∧ ns' = (ns.unbind pfx current).bind pfx uri ∧ c = .moved current))) := by
  unfold declare at h
  split at h
  · simp at h
  rename_i hok
  refine ⟨hok, ?_⟩
  split at h
  · rename_i hn
    simp only [Except.ok.injEq, Prod.mk.injEq] at h
    exact .inr (.inl ⟨hn, h.1.symm, h.2.symm⟩)
  rename_i current hc
  split at h
  · rename_i he
    simp only [Except.ok.injEq, Prod.mk.injEq] at h
    exact .inl ⟨by rw [hc, beq_iff_eq.1 he], h.1.symm, h.2.symm⟩
  rename_i hne
  refine .inr (.inr ⟨current, hc, by simpa using hne, ?_⟩)
  cases policy with
  | error => simp at h
  | ignore =>
    simp only [Except.ok.injEq, Prod.mk.injEq] at h
    exact .inl ⟨rfl, h.1.symm, h.2.symm⟩
  | override =>
    simp only [Except.ok.injEq, Prod.mk.injEq] at h
    exact .inr ⟨rfl, h.1.symm, h.2.symm⟩

theorem Indexed.declare {ns ns' : Namespaces} {policy : ConflictPolicy} {pfx uri : String}
    {c : Change} (h : Indexed ns) (hd : ns.declare policy pfx uri = .ok (ns', c)) : Indexed ns' := by
  obtain ⟨hok, hcases⟩ := declare_cases hd
  rcases hcases with ⟨-, rfl, -⟩ | ⟨hn, rfl, -⟩ | ⟨current, hc, -, ⟨-, rfl, -⟩ | ⟨-, rfl, -⟩⟩
  · exact h
  · exact h.bind hn hok
  · exact h
  · exact (h.unbind hc).bind (uri?_unbind_self ns pfx current) hok

end Cnd.Namespaces
