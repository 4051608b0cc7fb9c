import Cnd.Proofs.Elaboration.Known
import Cnd.Proofs.Namespaces.Render
import Cnd.Proofs.Reading.Exact

/-!
Every name that is read may be written again.

Unless a prefix may be overridden, a table only grows while a text is read, so what some table on
the way knew is known to the last one (`NodeType.Known.mono`), and that renders what it knows to
texts that it resolves (`Knows.roundTrips`). Only the type that all types extend may be unknown, as
it is required without being written (`Meaning.AreRequired.cases`).
-/

namespace Cnd

open Namespaces

/-! ## Names in definitions -/

/-- The names in a property, those of its values and constraints included. -/
def PropertyDefinition.names (p : PropertyDefinition) : List Name :=
  p.name :: p.declaringType ::
    (p.defaults.flatMap Value.names ++ p.constraints.flatMap (·.requirement.names))

/-- The names in a child node, without its required types. -/
def ChildDefinition.ownNames (c : ChildDefinition) : List Name :=
  c.name :: c.declaringType :: c.defaultType.toList

/-- The names in a node type, without the required types of its child nodes. -/
def NodeType.ownNames (t : NodeType) : List Name :=
  t.name :: (t.supertypes ++ t.primaryItem.toList ++ t.properties.flatMap PropertyDefinition.names ++
    t.children.flatMap ChildDefinition.ownNames)

section
variable {ns : Namespaces}

theorem PropertyDefinition.Known.knowsItem_names {owner : Name} {p : PropertyDefinition}
    (h : p.Known ns owner) (howner : ns.Knows owner) : ∀ n ∈ p.names, ns.KnowsItem n := by
  intro n hn
  simp only [names, List.mem_cons, List.mem_append, List.mem_flatMap] at hn
  rcases hn with rfl | rfl | ⟨v, hv, hn⟩ | ⟨c, hc, hn⟩
  · exact h.name
  · exact .inr (h.declaringType ▸ howner)
  · exact .inr ((h.defaults v hv).2.knows n hn)
  · have hread := Constraint.requirement_of_read (h.constraints c hc)
    exact .inr (Constraint.knows_of_readRequirement hread n hn)

theorem ChildDefinition.Known.knowsItem_ownNames {owner : Name} {c : ChildDefinition}
    (h : c.Known ns owner) (howner : ns.Knows owner) : ∀ n ∈ c.ownNames, ns.KnowsItem n := by
  intro n hn
  simp only [ownNames, List.mem_cons, Option.mem_toList] at hn
  rcases hn with rfl | rfl | hn
  · exact h.name
  · exact .inr (h.declaringType ▸ howner)
  · exact .inr (h.defaultType n hn)

theorem NodeType.Known.knowsItem_ownNames {t : NodeType} (h : t.Known ns) :
    ∀ n ∈ t.ownNames, ns.KnowsItem n := by
  intro n hn
  simp only [ownNames, List.mem_cons, List.mem_append, List.mem_flatMap, Option.mem_toList] at hn
  rcases hn with rfl | ((hn | hn) | ⟨p, hp, hn⟩) | ⟨c, hc, hn⟩
  · exact .inr h.name
  · exact .inr (h.supertypes n hn)
  · exact h.primaryItem n hn
  · exact (h.properties p hp).knowsItem_names h.name n hn
  · exact (h.children c hc).knowsItem_ownNames h.name n hn

end

/-! ## Rendering them -/

/-- The required types of a child node can be written, or were not. -/
def ChildDefinition.RequiredShownBy (ns : Namespaces) (c : ChildClause) (d : ChildDefinition) :
    Prop :=
  c.requiredTypes = none ∧ d.requiredTypes = [.base] ∨ ∀ n ∈ d.requiredTypes, ns.RoundTrips n

/-- A table renders the names in a node type of a clause, and resolves the texts to them. -/
structure NodeType.ShownBy (ns : Namespaces) (c : TypeClause) (t : NodeType) : Prop where
  names : ∀ n ∈ t.ownNames, n ≠ .wildcard → ns.RoundTrips n
  requiredTypes : List.Forall₂ (ChildDefinition.RequiredShownBy ns)
    (c.members.filterMap (·.child?)) t.children

/-- What a clause means is shown by every larger table. -/
theorem Meaning.IsNodeType.shownBy {ns last : Namespaces} {c : TypeClause} {t : NodeType}
    (h : IsNodeType ns c t) (he : ns.ExtendedBy last) (hi : Indexed last) : t.ShownBy last c where
  names n hn hw := by
    have hknown : t.Known last := (known_of_isNodeType h).mono he
    rcases hknown.knowsItem_ownNames n hn with hwildcard | hknows
    · exact absurd hwildcard hw
    · exact hknows.roundTrips hi
  requiredTypes := h.children.imp fun _ _ hchild =>
    hchild.requiredTypes.cases.imp_right fun hknows n hn => ((hknows n hn).mono he).roundTrips hi

/-! ## Texts -/

namespace Definitions

/-- **Tables only grow unless a prefix may be overridden.** Each prefix keeps its URI, and each URI
its canonical prefix, from the table that a text is read with to that at its end; and this renders
every name in the node types, except the wildcard and required types that are not written, to a text
that it resolves to the name. -/
theorem names_of_readWith {source : String} {policy : ConflictPolicy} {seed : Option Namespaces}
    {text : String} {d : Definitions} (hseed : Reachable (seed.getD .builtin))
    (hpolicy : policy ≠ .override) (h : (readWith source policy seed text).outcome = .ok d) :
    (seed.getD .builtin).ExtendedBy d.namespaces ∧
      (seed.getD .builtin).KeepsCanonical d.namespaces ∧
      List.Forall₂ (fun c t => t.ShownBy d.namespaces c) (typeClauses text) d.types := by
  obtain ⟨tokens, clauses, -, hclauses, hm⟩ := means_of_readWith h
  have hi : Indexed d.namespaces := hm.indexed hseed.indexed
  obtain ⟨hextended, htypes⟩ :=
    hm.types ExtendedBy .refl (fun _ _ _ => .trans) (extendedBy_declare hpolicy)
  obtain ⟨hcanonical, -⟩ :=
    hm.types KeepsCanonical .refl (fun _ _ _ => .trans) (keepsCanonical_declare hpolicy)
  refine ⟨hextended, hcanonical, ?_⟩
  rw [hclauses]
  exact htypes.imp fun c t ⟨ns, hmeans, he⟩ => hmeans.shownBy he hi

/-- The node type of a text with names in a path, a constraint and required types. -/
def pathType : NodeType :=
  ⟨⟨"u", "t"⟩, [], false, false, none,
    [⟨⟨"u", "p"⟩, ⟨"u", "t"⟩, .path, [.path ⟨false, [.item ⟨"u", "a"⟩ none]⟩],
      [⟨"e:b/*", .path, .path ⟨false, [.item ⟨"u", "b"⟩ none]⟩ true⟩], {}⟩],
    [⟨.wildcard, ⟨"u", "t"⟩, [⟨"u", "c"⟩], none, {}⟩]⟩

def ignoredOutline : Outlined
    "<e='u'> <e='v'> <f='u'> [e:t] - e:p (Path) = 'f:a' < 'e:b/*' + * (f:c)" where
  outline :=
    ⟨[.binding ⟨⟨.symbol '<', ⟨1, 1⟩⟩, "e", "u"⟩, .binding ⟨⟨.symbol '<', ⟨1, 9⟩⟩, "e", "v"⟩,
      .binding ⟨⟨.symbol '<', ⟨1, 17⟩⟩, "f", "u"⟩,
      .nodeType ⟨⟨.text "e:t" false, ⟨1, 26⟩⟩, [], false, false,
        [.property ⟨.named ⟨.text "e:p" false, ⟨1, 33⟩⟩, .path, [⟨.text "f:a" true, ⟨1, 46⟩⟩], [],
          [⟨.text "e:b/*" true, ⟨1, 54⟩⟩]⟩,
         .child ⟨.wildcard, some [⟨.text "f:c" false, ⟨1, 67⟩⟩], none, []⟩]⟩], .complete⟩
  eq := by decide +kernel

/-- A second URI of a prefix is ignored, and a second prefix of a URI is not canonical. -/
theorem names_of_readWith_ignored :
    let text := "<e='u'> <e='v'> <f='u'> [e:t] - e:p (Path) = 'f:a' < 'e:b/*' + * (f:c)"
    let last := (Namespaces.builtin.bind "e" "u").bind "f" "u"
    (readWith "" .ignore none text).outcome = .ok ⟨[pathType], last⟩ ∧
      last.uri? "nt" = some Name.nodeTypeUri ∧ last.canonical? Name.nodeTypeUri = some "nt" ∧
      (∀ n ∈ pathType.ownNames, n ≠ .wildcard → last.RoundTrips n) ∧ last.RoundTrips ⟨"u", "c"⟩ := by
  intro text last
  have h : (readWith "" .ignore none text).outcome = .ok ⟨[pathType], last⟩ :=
    readWith_of_outline ignoredOutline rfl
  have hseed : Reachable ((none : Option Namespaces).getD .builtin) := reachable_builtin
  obtain ⟨hextended, hcanonical, htypes⟩ := names_of_readWith hseed (by decide) h
  rw [typeClauses, ignoredOutline.eq] at htypes
  obtain ⟨⟨hnames, hrequired⟩, -⟩ := List.forall₂_cons.1 htypes
  refine ⟨h, hextended _ _ rfl, hcanonical _ _ rfl, hnames, ?_⟩
  rcases (List.forall₂_cons.1 hrequired).1 with ⟨hnone, -⟩ | hshown
  · exact absurd hnone (by simp)
  · exact hshown _ (List.mem_singleton_self _)

end Definitions

end Cnd
