import Cnd.Proofs.Namespaces.Index

/-!
What a table keeps when more is declared in it.

A declaration never gives a prefix up (`coveredBy_declare`). It gives up no URI of a prefix and no
canonical prefix of a URI either, unless its policy is to override (`extendedBy_declare`,
`keepsCanonical_declare`).
-/

namespace Cnd.Namespaces

/-- The other table binds every prefix of this one to the same URI. -/
def ExtendedBy (ns ns' : Namespaces) : Prop :=
  ∀ pfx uri, ns.uri? pfx = some uri → ns'.uri? pfx = some uri

/-- The other table binds every prefix of this one, to whatever URI. -/
def CoveredBy (ns ns' : Namespaces) : Prop :=
  ∀ pfx, ns.contains pfx = true → ns'.contains pfx = true

/-- The other table has the same canonical prefix for every URI that has one in this one. -/
def KeepsCanonical (ns ns' : Namespaces) : Prop :=
  ∀ uri pfx, ns.canonical? uri = some pfx → ns'.canonical? uri = some pfx

theorem ExtendedBy.refl (ns : Namespaces) : ns.ExtendedBy ns := fun _ _ h => h

theorem ExtendedBy.trans {a b c : Namespaces} (hab : a.ExtendedBy b) (hbc : b.ExtendedBy c) :
    a.ExtendedBy c := fun pfx uri h => hbc pfx uri (hab pfx uri h)

theorem CoveredBy.refl (ns : Namespaces) : ns.CoveredBy ns := fun _ h => h

theorem CoveredBy.trans {a b c : Namespaces} (hab : a.CoveredBy b) (hbc : b.CoveredBy c) :
    a.CoveredBy c := fun pfx h => hbc pfx (hab pfx h)

theorem KeepsCanonical.refl (ns : Namespaces) : ns.KeepsCanonical ns := fun _ _ h => h

theorem KeepsCanonical.trans {a b c : Namespaces} (hab : a.KeepsCanonical b)
    (hbc : b.KeepsCanonical c) : a.KeepsCanonical c :=
  fun uri pfx h => hbc uri pfx (hab uri pfx h)

theorem contains_iff {ns : Namespaces} {pfx : String} :
    ns.contains pfx = true ↔ ∃ uri, ns.uri? pfx = some uri := by
  rw [contains, Option.isSome_iff_exists]

theorem ExtendedBy.coveredBy {ns ns' : Namespaces} (h : ns.ExtendedBy ns') : ns.CoveredBy ns' := by
  intro pfx hc
  obtain ⟨uri, hu⟩ := contains_iff.1 hc
  exact contains_iff.2 ⟨uri, h pfx uri hu⟩

theorem uri?_bind (ns : Namespaces) (pfx uri p : String) :
    (ns.bind pfx uri).uri? p = (ns.uri? p).or (if p = pfx then some uri else none) := by
  rw [uri?, bind, List.lookup_append, uri?, List.lookup_cons, List.lookup_nil]
  by_cases h : p = pfx
  · rw [if_pos h, h, beq_self_eq_true]
  · rw [if_neg h, beq_false_of_ne h]

/-- A new binding hides none. -/
theorem extendedBy_bind (ns : Namespaces) (pfx uri : String) : ns.ExtendedBy (ns.bind pfx uri) := by
  intro p u h
  rw [uri?_bind, h, Option.some_or]

/-- A new binding is canonical only where none was. -/
theorem keepsCanonical_bind (ns : Namespaces) (pfx uri : String) :
    ns.KeepsCanonical (ns.bind pfx uri) := by
  intro u p h
  rw [canonical?] at h
  rw [canonical?, bind]
  split
  · exact h
  · rw [List.lookup_append, h, Option.some_or]

/-- A prefix that moves is bound again. -/
theorem coveredBy_move (ns : Namespaces) (pfx old new : String) :
    ns.CoveredBy ((ns.unbind pfx old).bind pfx new) := by
  intro p hc
  rw [contains, uri?_bind]
  by_cases h : p = pfx
  · rw [if_pos h]
    cases (ns.unbind pfx old).uri? p <;> rfl
  · have hother : (ns.unbind pfx old).uri? p = ns.uri? p := lookup_filter_other h
    rw [if_neg h, Option.or_none, hother]
    exact hc

/-- What is declared is new, or leaves the table as it is, unless the policy is to override. -/
theorem declare_eq_or_bind {ns ns' : Namespaces} {policy : ConflictPolicy} {pfx uri : String}
    {c : Change} (hp : policy ≠ .override) (h : ns.declare policy pfx uri = .ok (ns', c)) :
    ns' = ns ∨ ns' = ns.bind pfx uri := by
  obtain ⟨-, hcases⟩ := declare_cases h
  rcases hcases with ⟨-, hs, -⟩ | ⟨-, hs, -⟩ | ⟨current, -, -, ⟨-, hs, -⟩ | ⟨ho, -⟩⟩
  · exact .inl hs
  · exact .inr hs
  · exact .inl hs
  · exact absurd ho hp

theorem extendedBy_declare {ns ns' : Namespaces} {policy : ConflictPolicy} {pfx uri : String}
    {c : Change} (hp : policy ≠ .override) (h : ns.declare policy pfx uri = .ok (ns', c)) :
    ns.ExtendedBy ns' := by
  rcases declare_eq_or_bind hp h with rfl | rfl
  · exact .refl _
  · exact extendedBy_bind ns pfx uri

theorem keepsCanonical_declare {ns ns' : Namespaces} {policy : ConflictPolicy} {pfx uri : String}
    {c : Change} (hp : policy ≠ .override) (h : ns.declare policy pfx uri = .ok (ns', c)) :
    ns.KeepsCanonical ns' := by
  rcases declare_eq_or_bind hp h with rfl | rfl
  · exact .refl _
  · exact keepsCanonical_bind ns pfx uri

theorem coveredBy_declare {ns ns' : Namespaces} {policy : ConflictPolicy} {pfx uri : String}
    {c : Change} (h : ns.declare policy pfx uri = .ok (ns', c)) : ns.CoveredBy ns' := by
  obtain ⟨-, hcases⟩ := declare_cases h
  rcases hcases with ⟨-, rfl, -⟩ | ⟨-, rfl, -⟩ | ⟨current, -, -, ⟨-, rfl, -⟩ | ⟨-, rfl, -⟩⟩
  · exact .refl ns'
  · exact (extendedBy_bind ns pfx uri).coveredBy
  · exact .refl ns'
  · exact coveredBy_move ns pfx current uri

/-! ## Declaring one prefix -/

theorem uri?_unbind_other (ns : Namespaces) (uri : String) {pfx p : String} (h : p ≠ pfx) :
    (ns.unbind pfx uri).uri? p = ns.uri? p := lookup_filter_other h

/-- The URI of a prefix behind its declaration: the declared one, unless another one is kept. -/
def Change.uriBehind (declared : String) : Change → String
  | .kept current => current
  | .none | .added | .moved _ => declared

theorem uri?_declare_self {ns ns' : Namespaces} {policy : ConflictPolicy} {pfx uri : String}
    {c : Change} (h : ns.declare policy pfx uri = .ok (ns', c)) :
    ns'.uri? pfx = some (c.uriBehind uri) := by
  obtain ⟨-, hcases⟩ := declare_cases h
  rcases hcases with ⟨hu, rfl, rfl⟩ | ⟨hn, rfl, rfl⟩ | ⟨current, hc, -, ⟨-, rfl, rfl⟩ | ⟨-, rfl, rfl⟩⟩
  · exact hu
  · rw [uri?_bind, hn, if_pos rfl, Option.none_or]
    rfl
  · exact hc
  · rw [uri?_bind, uri?_unbind_self, if_pos rfl, Option.none_or]
    rfl

/-- A declaration leaves all other prefixes as they are. -/
theorem uri?_declare_other {ns ns' : Namespaces} {policy : ConflictPolicy} {pfx uri : String}
    {c : Change} (h : ns.declare policy pfx uri = .ok (ns', c)) {p : String} (hp : p ≠ pfx) :
    ns'.uri? p = ns.uri? p := by
  obtain ⟨-, hcases⟩ := declare_cases h
  rcases hcases with ⟨-, rfl, -⟩ | ⟨-, rfl, -⟩ | ⟨current, -, -, ⟨-, rfl, -⟩ | ⟨-, rfl, -⟩⟩
  · rfl
  · rw [uri?_bind, if_neg hp, Option.or_none]
  · rfl
  · rw [uri?_bind, if_neg hp, Option.or_none, uri?_unbind_other ns current hp]

/-- What a declaration does depends on the table by the URI of its prefix alone. -/
theorem change_declare_congr {ns ns' : Namespaces} (policy : ConflictPolicy) {pfx : String}
    (uri : String) (h : ns'.uri? pfx = ns.uri? pfx) :
    (ns'.declare policy pfx uri).map (·.2) = (ns.declare policy pfx uri).map (·.2) := by
  unfold declare
  rw [h]
  split
  · rfl
  split
  · rfl
  split
  · rfl
  cases policy with
  | error | ignore | override => rfl

/-- A declaration that no policy has to allow is the same under all of them, and reports no prefix
that was bound otherwise. -/
theorem declare_of_error {ns ns' : Namespaces} {pfx uri : String} {c : Change}
    (h : ns.declare .error pfx uri = .ok (ns', c)) (policy : ConflictPolicy) :
    ns.declare policy pfx uri = .ok (ns', c) ∧ (c = .none ∨ c = .added) := by
  obtain ⟨hok, hcases⟩ := declare_cases h
  rcases hcases with ⟨hu, rfl, rfl⟩ | ⟨hn, rfl, rfl⟩ | ⟨current, -, -, ⟨hp, -⟩ | ⟨hp, -⟩⟩
  · exact ⟨by simp [declare, hok, hu], .inl rfl⟩
  · exact ⟨by simp [declare, hok, hn], .inr rfl⟩
  · simp at hp
  · simp at hp

end Cnd.Namespaces
