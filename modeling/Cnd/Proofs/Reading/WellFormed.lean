import Cnd.Proofs.Elaboration.Known
import Cnd.Proofs.Reading.Exact

/-!
Every node type that is read is well-formed.

`NodeType.WellFormed` is said of a node type alone, whatever the text and the table it was read with.
Most of it comes from what a clause means (`wellFormed_of_isNodeType`): the parts of a node type are
known to a table, and its marks name at most one primary item, which is counted over properties and
child nodes together. That no list of required types is empty comes from the grammar
(`Grammar.requiredTypes_ne_nil`).
-/

namespace Cnd

open Namespaces

/-! ## Well-formed definitions -/

/-- A name that is not the wildcard, with a local part that may be written. -/
def Name.Proper (n : Name) : Prop := n ≠ .wildcard ∧ LegalLocal n.localName.toList

structure PropertyDefinition.WellFormed (t : NodeType) (p : PropertyDefinition) : Prop where
  name : p.name = .wildcard ∨ p.name.Proper
  declaringType : p.declaringType = t.name
  primary : p.attributes.primary = true → t.primaryItem = some p.name
  /-- The type of a value says of which kind its payload is. -/
  defaults : ∀ v ∈ p.defaults, v.type = p.type ∧ ∀ n ∈ v.names, n.Proper
  constraints : ∀ c ∈ p.constraints,
    c.type = p.type ∧ p.type ∈ c.requirement.types ∧ ∀ n ∈ c.requirement.names, n.Proper

structure ChildDefinition.WellFormed (t : NodeType) (c : ChildDefinition) : Prop where
  name : c.name = .wildcard ∨ c.name.Proper
  declaringType : c.declaringType = t.name
  primary : c.attributes.primary = true → t.primaryItem = some c.name
  someRequired : c.requiredTypes ≠ []
  requiredTypes : ∀ n ∈ c.requiredTypes, n.Proper
  defaultType : ∀ n ∈ c.defaultType, n.Proper

/-- How many members have the flag of the primary item. -/
def NodeType.primaryCount (t : NodeType) : Nat :=
  t.properties.countP (·.attributes.primary) + t.children.countP (·.attributes.primary)

structure NodeType.WellFormed (t : NodeType) : Prop where
  name : t.name.Proper
  supertypes : ∀ n ∈ t.supertypes, n.Proper
  primaryItem : ∀ n ∈ t.primaryItem, n = .wildcard ∨ n.Proper
  primaryOnce : t.primaryItem.isSome ↔ t.primaryCount = 1
  properties : ∀ p ∈ t.properties, p.WellFormed t
  children : ∀ c ∈ t.children, c.WellFormed t

/-- The texts of the constraints of each property. -/
def NodeType.constraintTexts (t : NodeType) : List (List String) :=
  t.properties.map fun p => p.constraints.map (·.definition)

/-- The texts that the constraints of each property are written with. -/
def TypeClause.constraintTexts (c : TypeClause) : List (List String) :=
  (c.members.filterMap (·.property?)).map fun p => p.constraints.map Elaboration.textOf

theorem Namespaces.Knows.proper {ns : Namespaces} {n : Name} (h : ns.Knows n) : n.Proper :=
  ⟨h.legal.ne_wildcard, h.legal⟩

theorem Namespaces.KnowsItem.proper {ns : Namespaces} {n : Name} (h : ns.KnowsItem n) :
    n = .wildcard ∨ n.Proper := h.imp_right (·.proper)

theorem PropertyDefinition.Known.wellFormed {ns : Namespaces} {t : NodeType}
    {p : PropertyDefinition} (h : p.Known ns t.name)
    (hprimary : p.attributes.primary = true → t.primaryItem = some p.name) : p.WellFormed t where
  name := h.name.proper
  declaringType := h.declaringType
  primary := hprimary
  defaults v hv := by
    obtain ⟨htype, hdenoted⟩ := h.defaults v hv
    exact ⟨htype, fun n hn => (hdenoted.knows n hn).proper⟩
  constraints c hc := by
    have hread := h.constraints c hc
    have hrequirement := Constraint.requirement_of_read hread
    exact ⟨Constraint.type_of_read hread, Constraint.mem_types_of_readRequirement hrequirement,
      fun n hn => (Constraint.knows_of_readRequirement hrequirement n hn).proper⟩

theorem ChildDefinition.Known.wellFormed {ns : Namespaces} {t : NodeType} {c : ChildDefinition}
    (h : c.Known ns t.name)
    (hprimary : c.attributes.primary = true → t.primaryItem = some c.name)
    (hrequired : c.requiredTypes ≠ []) : c.WellFormed t where
  name := h.name.proper
  declaringType := h.declaringType
  primary := hprimary
  someRequired := hrequired
  requiredTypes n hn := by
    rcases h.requiredTypes n hn with rfl | hknown
    · exact ⟨by decide, legalLocal_base⟩
    · exact hknown.proper
  defaultType n hn := (h.defaultType n hn).proper

/-! ## Required types in the grammar -/

namespace Grammar

theorem ne_nil_of_required {s : List Token} {required : Option (List Token)}
    (h : Required s required) : required ≠ some [] := by
  cases h with
  | none => simp
  | some hl hs hr => exact fun he => Outline.texts_ne_nil hs (Option.some.inj he)

theorem ne_nil_of_members {s : List Token} {ms : List MemberClause}
    (h : Members s ms) {k : ChildClause} (hk : .child k ∈ ms) : k.requiredTypes ≠ some [] := by
  induction h with
  | none => simp at hk
  | more hm _ ih =>
    rcases List.mem_cons.1 hk with rfl | hk
    · cases hm with
      | child _ hc =>
        cases hc with
        | mk _ hr _ _ => exact ne_nil_of_required hr
    · exact ih hk

/-- Where required types are written, there is at least one. -/
theorem requiredTypes_ne_nil {s : List Token} {cs : List Clause} (h : Document s cs)
    {c : TypeClause} (hc : .nodeType c ∈ cs) {k : ChildClause} (hk : .child k ∈ c.members) :
    k.requiredTypes ≠ some [] := by
  induction h with
  | none => simp at hc
  | binding _ _ ih => exact ih (by simpa using hc)
  | nodeType hn _ _ ih =>
    rcases List.mem_cons.1 hc with he | hc
    · obtain rfl := Clause.nodeType.inj he
      cases hn with
      | mk _ _ _ _ _ hm => exact ne_nil_of_members hm hk
    · exact ih hc

end Grammar

/-! ## Primary items -/

namespace Meaning

theorem mem_properties {ms : List MemberClause} {k : PropertyClause} :
    k ∈ ms.filterMap (·.property?) ↔ .property k ∈ ms := by
  rw [List.mem_filterMap]
  constructor
  · rintro ⟨m, hm, hk⟩
    cases m with
    | property c => exact Option.some.inj hk ▸ hm
    | child c => simp [MemberClause.property?] at hk
  · exact fun h => ⟨_, h, rfl⟩

theorem mem_children {ms : List MemberClause} {k : ChildClause} :
    k ∈ ms.filterMap (·.child?) ↔ .child k ∈ ms := by
  rw [List.mem_filterMap]
  constructor
  · rintro ⟨m, hm, hk⟩
    cases m with
    | property c => simp [MemberClause.child?] at hk
    | child c => exact Option.some.inj hk ▸ hm
  · exact fun h => ⟨_, h, rfl⟩

/-- Marks give the flag of the primary item just if one of them is a mark for it. -/
theorem primary_withMarks (ms : List (Token × Mark)) :
    (({} : ItemAttributes).withMarks (ms.map (·.2))).primary = true ↔ 0 < primaryMarks ms := by
  simp [ItemAttributes.withMarks, primaryMarks, List.countP_pos_iff]

theorem IsProperty.primary_iff {ns : Namespaces} {owner : Name} {c : PropertyClause}
    {p : PropertyDefinition} (h : IsProperty ns owner c p) :
    p.attributes.primary = true ↔ 0 < primaryMarks c.marks := by
  rw [h.attributes]
  exact primary_withMarks c.marks

theorem IsChild.primary_iff {ns : Namespaces} {owner : Name} {c : ChildClause}
    {d : ChildDefinition} (h : IsChild ns owner c d) :
    d.attributes.primary = true ↔ 0 < primaryMarks c.marks := by
  rw [h.attributes]
  exact primary_withMarks c.marks

/-- There are no more items with the flag than marks for it. -/
theorem countP_primary_le {α β : Type} {R : α → β → Prop} {marks : α → List (Token × Mark)}
    {flag : β → Bool} (hflag : ∀ a b, R a b → flag b = true → 0 < primaryMarks (marks a))
    {l : List α} {r : List β} (h : List.Forall₂ R l r) :
    r.countP flag ≤ primaryMarks (l.flatMap marks) := by
  induction h with
  | nil => simp
  | @cons a b l r hr _ ih =>
    rw [List.countP_cons, List.flatMap_cons, primaryMarks_append]
    split
    · rename_i hb
      have hpos := hflag a b hr hb
      omega
    · omega

/-- The marks of all members are those of properties and those of child nodes. -/
theorem primaryMarks_members (ms : List MemberClause) :
    primaryMarks (ms.flatMap (·.marks)) =
      primaryMarks ((ms.filterMap (·.property?)).flatMap (·.marks)) +
        primaryMarks ((ms.filterMap (·.child?)).flatMap (·.marks)) := by
  induction ms with
  | nil => rfl
  | cons m ms ih =>
    rw [List.flatMap_cons, primaryMarks_append, ih]
    cases m with
    | property c =>
      have hproperties : (MemberClause.property c :: ms).filterMap (·.property?) =
          c :: ms.filterMap (·.property?) := rfl
      rw [hproperties, List.flatMap_cons, primaryMarks_append, Nat.add_assoc]
      rfl
    | child c =>
      have hchildren : (MemberClause.child c :: ms).filterMap (·.child?) =
          c :: ms.filterMap (·.child?) := rfl
      rw [hchildren, List.flatMap_cons, primaryMarks_append, Nat.add_left_comm]
      rfl

theorem IsChild.requiredTypes_ne_nil {ns : Namespaces} {owner : Name} {c : ChildClause}
    {d : ChildDefinition} (h : IsChild ns owner c d) (hc : c.requiredTypes ≠ some []) :
    d.requiredTypes ≠ [] := by
  have hr := h.requiredTypes
  cases hts : c.requiredTypes with
  | none =>
    rw [hts] at hr
    simp [show d.requiredTypes = [.base] from hr]
  | some ts =>
    rw [hts] at hr hc
    intro hnil
    rw [hnil] at hr
    exact hc (congrArg some (List.forall₂_nil_right_iff.1 hr))

section
variable {ns : Namespaces} {c : TypeClause} {t : NodeType} (h : IsNodeType ns c t)

include h

theorem IsNodeType.primaryCount_le : t.primaryCount ≤ 1 := by
  have hproperties : t.properties.countP (·.attributes.primary) ≤
      primaryMarks ((c.members.filterMap (·.property?)).flatMap (·.marks)) :=
    countP_primary_le (fun _ _ hp => hp.primary_iff.1) h.properties
  have hchildren : t.children.countP (·.attributes.primary) ≤
      primaryMarks ((c.members.filterMap (·.child?)).flatMap (·.marks)) :=
    countP_primary_le (fun _ _ hd => hd.primary_iff.1) h.children
  have honce := h.primaryOnce
  rw [primaryMarks_members] at honce
  rw [NodeType.primaryCount]
  omega

/-- A property with the flag is the primary item. -/
theorem IsNodeType.primaryItem_of_property {p : PropertyDefinition} (hp : p ∈ t.properties)
    (hflag : p.attributes.primary = true) : t.primaryItem = some p.name := by
  obtain ⟨k, hk, hprop⟩ := exists_of_forall₂ h.properties hp
  exact (h.primaryItem p.name).2
    ⟨.property k, mem_properties.1 hk, hprop.primary_iff.1 hflag, hprop.name⟩

theorem IsNodeType.primaryItem_of_child {d : ChildDefinition} (hd : d ∈ t.children)
    (hflag : d.attributes.primary = true) : t.primaryItem = some d.name := by
  obtain ⟨k, hk, hchild⟩ := exists_of_forall₂ h.children hd
  exact (h.primaryItem d.name).2
    ⟨.child k, mem_children.1 hk, hchild.primary_iff.1 hflag, hchild.name⟩

theorem IsNodeType.primaryCount_pos {n : Name} (hn : t.primaryItem = some n) :
    0 < t.primaryCount := by
  obtain ⟨m, hm, hpos, -⟩ := (h.primaryItem n).1 hn
  cases m with
  | property k =>
    obtain ⟨p, hp, hprop⟩ := exists_of_forall₂ h.properties.flip (mem_properties.2 hm)
    have hcount : 0 < t.properties.countP (·.attributes.primary) :=
      List.countP_pos_iff.2 ⟨p, hp, hprop.primary_iff.2 hpos⟩
    exact Nat.add_pos_left hcount _
  | child k =>
    obtain ⟨d, hd, hchild⟩ := exists_of_forall₂ h.children.flip (mem_children.2 hm)
    have hcount : 0 < t.children.countP (·.attributes.primary) :=
      List.countP_pos_iff.2 ⟨d, hd, hchild.primary_iff.2 hpos⟩
    exact Nat.add_pos_right _ hcount

theorem IsNodeType.primaryItem_isSome_iff : t.primaryItem.isSome ↔ t.primaryCount = 1 := by
  have hle := h.primaryCount_le
  constructor
  · intro hsome
    obtain ⟨n, hn⟩ := Option.isSome_iff_exists.1 hsome
    have hpos := h.primaryCount_pos hn
    omega
  · intro hone
    rw [NodeType.primaryCount] at hone
    cases Nat.eq_zero_or_pos (t.properties.countP (·.attributes.primary)) with
    | inl hzero =>
      have hpos : 0 < t.children.countP (·.attributes.primary) := by omega
      obtain ⟨d, hd, hflag⟩ := List.countP_pos_iff.1 hpos
      rw [h.primaryItem_of_child hd hflag]
      rfl
    | inr hpos =>
      obtain ⟨p, hp, hflag⟩ := List.countP_pos_iff.1 hpos
      rw [h.primaryItem_of_property hp hflag]
      rfl

/-- What a clause means is well-formed, if no list of required types in it is empty. -/
theorem wellFormed_of_isNodeType
    (hrequired : ∀ k, .child k ∈ c.members → k.requiredTypes ≠ some []) : t.WellFormed := by
  have hknown := known_of_isNodeType h
  exact
    { name := hknown.name.proper
      supertypes := fun n hn => (hknown.supertypes n hn).proper
      primaryItem := fun n hn => (hknown.primaryItem n hn).proper
      primaryOnce := h.primaryItem_isSome_iff
      properties := fun p hp =>
        (hknown.properties p hp).wellFormed (h.primaryItem_of_property hp)
      children := fun d hd => by
        obtain ⟨k, hk, hchild⟩ := exists_of_forall₂ h.children hd
        refine (hknown.children d hd).wellFormed (h.primaryItem_of_child hd) ?_
        exact hchild.requiredTypes_ne_nil (hrequired k (mem_children.1 hk)) }

theorem IsNodeType.constraintTexts_eq : c.constraintTexts = t.constraintTexts :=
  map_eq_map_of_forall₂ h.properties fun _ _ hp =>
    map_eq_map_of_forall₂ hp.constraints fun _ _ hk => (Constraint.definition_of_read hk).symm

end

end Meaning

/-! ## Texts -/

namespace Definitions

theorem mem_nodeTypes {cs : List Clause} {c : TypeClause} (h : c ∈ cs.filterMap (·.nodeType?)) :
    .nodeType c ∈ cs := by
  obtain ⟨clause, hclause, hc⟩ := List.mem_filterMap.1 h
  cases clause with
  | binding b => simp [Clause.nodeType?] at hc
  | nodeType c' => exact Option.some.inj hc ▸ hclause

/-- **Every node type that is read is well-formed**, and its constraints keep the texts that they are
written with. -/
theorem wellFormed_of_readWith {source : String} {policy : ConflictPolicy}
    {seed : Option Namespaces} {text : String} {d : Definitions}
    (h : (readWith source policy seed text).outcome = .ok d) :
    (∀ t ∈ d.types, t.WellFormed) ∧
      d.types.map (·.constraintTexts) = (typeClauses text).map (·.constraintTexts) := by
  obtain ⟨tokens, clauses, hdocument, hclauses, hm⟩ := means_of_readWith h
  obtain ⟨-, htypes⟩ := hm.types (fun _ _ => True) (fun _ => trivial) (fun _ _ _ _ _ => trivial)
    fun _ => trivial
  constructor
  · intro t ht
    obtain ⟨c, hc, ns, hmeans, -⟩ := exists_of_forall₂ htypes ht
    exact Meaning.wellFormed_of_isNodeType hmeans fun k hk =>
      Grammar.requiredTypes_ne_nil hdocument (mem_nodeTypes hc) hk
  · rw [hclauses]
    exact (map_eq_map_of_forall₂ htypes fun c t ⟨ns, hmeans, _⟩ => hmeans.constraintTexts_eq).symm

/-- A node type whose primary item is a child node without a name of its own. -/
def openPrimaryType : NodeType :=
  ⟨⟨Name.nodeTypeUri, "a"⟩, [], false, false, some .wildcard,
    [⟨⟨Name.nodeTypeUri, "b"⟩, ⟨Name.nodeTypeUri, "a"⟩, .name, [.name ⟨Name.nodeTypeUri, "c"⟩],
      [⟨"nt:d", .name, .name ⟨Name.nodeTypeUri, "d"⟩⟩], {}⟩],
    [⟨.wildcard, ⟨Name.nodeTypeUri, "a"⟩, [.base], none, { primary := true }⟩]⟩

def openPrimaryOutline : Outlined "[nt:a]\n- nt:b (Name) = nt:c < nt:d\n+ * !" where
  outline :=
    ⟨[.nodeType ⟨⟨.text "nt:a" false, ⟨1, 2⟩⟩, [], false, false,
      [.property ⟨.named ⟨.text "nt:b" false, ⟨2, 3⟩⟩, .name, [⟨.text "nt:c" false, ⟨2, 17⟩⟩], [],
        [⟨.text "nt:d" false, ⟨2, 24⟩⟩]⟩,
       .child ⟨.wildcard, none, none, [(⟨.symbol '!', ⟨3, 5⟩⟩, .attribute .isPrimary)]⟩]⟩],
     .complete⟩
  eq := by decide +kernel

theorem wellFormed_of_readWith_open :
    (readWith "" .error none "[nt:a]\n- nt:b (Name) = nt:c < nt:d\n+ * !").outcome =
      .ok ⟨[openPrimaryType], .builtin⟩ ∧
    openPrimaryType.WellFormed ∧ openPrimaryType.constraintTexts = [["nt:d"]] := by
  have h : (readWith "" .error none "[nt:a]\n- nt:b (Name) = nt:c < nt:d\n+ * !").outcome =
      .ok ⟨[openPrimaryType], .builtin⟩ :=
    readWith_of_outline openPrimaryOutline rfl
  obtain ⟨htypes, htexts⟩ := wellFormed_of_readWith h
  rw [typeClauses, openPrimaryOutline.eq] at htexts
  exact ⟨h, htypes _ (List.mem_singleton_self _), (List.cons.inj htexts).1⟩

end Definitions

end Cnd
