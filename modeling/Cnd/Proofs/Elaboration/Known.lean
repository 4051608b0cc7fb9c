import Cnd.Proofs.Elaboration.Meaning
import Cnd.Proofs.Mentions
import Cnd.Proofs.Value.RoundTrip

/-!
Definitions whose parts are all known to a table.

The names, values and constraints of a node type are known to the table in which a clause means it
(`known_of_isNodeType`), and so they are to every larger table (`NodeType.Known.mono`). That table is
one of those between the first and the last one of a text (`Means.types`, `Means.table`).
-/

namespace Cnd

open Namespaces

/-! ## Parts -/

theorem Namespaces.Knows.mono {ns ns' : Namespaces} (he : ns.ExtendedBy ns') {n : Name}
    (h : ns.Knows n) : ns'.Knows n := by
  obtain ⟨pfx, hu⟩ := h.bound
  exact ⟨h.legal, pfx, he pfx n.uri hu⟩

theorem PathSegment.Known.mono {ns ns' : Namespaces} (he : ns.ExtendedBy ns') {g : PathSegment}
    (h : g.Known ns) : g.Known ns' := by
  cases g with
  | current | parent => trivial
  | item n index =>
    cases index with
    | none => exact Knows.mono he h
    | some i => exact ⟨h.1.mono he, h.2⟩

theorem Value.Denoted.mono {ns ns' : Namespaces} (he : ns.ExtendedBy ns') {v : Value}
    (h : v.Denoted ns) : v.Denoted ns' := by
  cases v with
  | name n => exact Knows.mono he h
  | path p => exact ⟨fun g hg => (h.segments g hg).mono he, h.rooted⟩
  | string | undefined | boolean | binary | long | double | date | reference => exact h

/-- A larger table reads a literal as the same value. -/
theorem Value.read_mono {ns ns' : Namespaces} (he : ns.ExtendedBy ns') {type : PropertyType}
    {literal : String} {v : Value} (h : read ns type literal = .ok v) :
    read ns' type literal = .ok v := by
  cases type with
  | name =>
    rw [read_name] at h ⊢
    split at h
    · rename_i n hn
      rw [(mentions_resolve literal).mono he hn]
      exact h
    · simp at h
  | path =>
    rw [read_path] at h ⊢
    split at h
    · rename_i p hp
      rw [(ItemPath.mentions_parse literal).mono he hp]
      exact h
    · simp at h
  | string | undefined | boolean | binary | long | double | date | reference => exact h

/-- What is written for a value by a table is read as the value by a larger one. -/
theorem Value.convert_write_extended {ns ns' : Namespaces} (hi : Indexed ns) (he : ns.ExtendedBy ns')
    {v : Value} (h : v.Denoted ns) : convert ns' v.type (v.write ns) = .ok v :=
  convert_eq_ok.2 (read_mono he (read_write hi h))

/-! ## Names in values and constraints -/

theorem ItemPath.Known.knows {ns : Namespaces} {p : ItemPath} (h : p.Known ns) :
    ∀ n ∈ p.names, ns.Knows n := by
  intro n hn
  obtain ⟨g, hg, hn⟩ := List.mem_flatMap.1 hn
  have hknown := h.segments g hg
  cases g with
  | current | parent => simp [PathSegment.names] at hn
  | item m index =>
    obtain rfl := List.mem_singleton.1 hn
    cases index with
    | none => exact hknown
    | some i => exact hknown.1

theorem Value.Denoted.knows {ns : Namespaces} {v : Value} (h : v.Denoted ns) :
    ∀ n ∈ v.names, ns.Knows n := by
  intro n hn
  cases v with
  | name m => exact List.mem_singleton.1 hn ▸ h
  | path p => exact ItemPath.Known.knows h n hn
  | string | undefined | boolean | binary | long | double | date | reference => simp [names] at hn

/-- The types of properties whose constraints ask for this. -/
def Requirement.types : Requirement → List PropertyType
  | .pattern _ => [.string, .undefined]
  | .long _ => [.long]
  | .double _ => [.double]
  | .date _ => [.date]
  | .length _ => [.binary]
  | .boolean _ => [.boolean]
  | .name _ => [.name]
  | .path _ _ => [.path]
  | .nodeType _ => [.reference]

namespace Constraint

variable {ns : Namespaces} {type : PropertyType} {text : String}

theorem mem_types_of_readRequirement {r : Requirement}
    (h : readRequirement ns type text = .ok r) : type ∈ r.types := by
  cases type with
  | string | undefined =>
    simp only [readRequirement, readPattern] at h
    split at h
    · rw [← Except.ok.inj h]
      simp [Requirement.types]
    · simp at h
  | binary | long | double | boolean | date | name | reference =>
    obtain ⟨x, -, rfl⟩ := map_eq_ok.1 h
    exact List.mem_singleton_self _
  | path =>
    obtain ⟨p, -, rfl⟩ := readPath_eq_ok.1 h
    exact List.mem_singleton_self _

theorem knows_of_readRequirement {r : Requirement} (h : readRequirement ns type text = .ok r) :
    ∀ n ∈ r.names, ns.Knows n := by
  intro n hn
  have htype := mem_types_of_readRequirement h
  cases r with
  | name m =>
    obtain rfl := List.mem_singleton.1 htype
    obtain ⟨m', hm, he⟩ := map_eq_ok.1 h
    obtain rfl := Requirement.name.inj he
    exact List.mem_singleton.1 hn ▸ knows_of_resolve (readName_eq_ok.1 hm)
  | nodeType m =>
    obtain rfl := List.mem_singleton.1 htype
    obtain ⟨m', hm, he⟩ := map_eq_ok.1 h
    obtain rfl := Requirement.nodeType.inj he
    exact List.mem_singleton.1 hn ▸ knows_of_resolve (readName_eq_ok.1 hm)
  | path p deep =>
    obtain rfl := List.mem_singleton.1 htype
    obtain ⟨p', hp, he⟩ := readPath_eq_ok.1 h
    obtain ⟨rfl, -⟩ := Requirement.path.inj he
    exact (ItemPath.known_of_parse hp).knows n hn
  | pattern | long | double | date | length | boolean => simp [Requirement.names] at hn

end Constraint

/-! ## Definitions -/

/-- The names of members: names that are known, and the wildcard. -/
def Namespaces.KnowsItem (ns : Namespaces) (n : Name) : Prop := n = .wildcard ∨ ns.Knows n

theorem Namespaces.KnowsItem.mono {ns ns' : Namespaces} (he : ns.ExtendedBy ns') {n : Name}
    (h : ns.KnowsItem n) : ns'.KnowsItem n := h.imp_right (·.mono he)

structure PropertyDefinition.Known (ns : Namespaces) (owner : Name) (p : PropertyDefinition) :
    Prop where
  name : ns.KnowsItem p.name
  declaringType : p.declaringType = owner
  defaults : ∀ v ∈ p.defaults, v.type = p.type ∧ v.Denoted ns
  constraints : ∀ c ∈ p.constraints, Constraint.read ns p.type c.definition = .ok c

structure ChildDefinition.Known (ns : Namespaces) (owner : Name) (c : ChildDefinition) : Prop where
  name : ns.KnowsItem c.name
  declaringType : c.declaringType = owner
  /-- The type that all types extend need not be known: no text asks for it by its name. -/
  requiredTypes : ∀ n ∈ c.requiredTypes, n = .base ∨ ns.Knows n
  defaultType : ∀ n ∈ c.defaultType, ns.Knows n

/-- A node type all parts of which are known, its members being its own. -/
structure NodeType.Known (ns : Namespaces) (t : NodeType) : Prop where
  name : ns.Knows t.name
  supertypes : ∀ n ∈ t.supertypes, ns.Knows n
  primaryItem : ∀ n ∈ t.primaryItem, ns.KnowsItem n
  properties : ∀ p ∈ t.properties, p.Known ns t.name
  children : ∀ c ∈ t.children, c.Known ns t.name

theorem PropertyDefinition.Known.mono {ns ns' : Namespaces} (he : ns.ExtendedBy ns') {owner : Name}
    {p : PropertyDefinition} (h : p.Known ns owner) : p.Known ns' owner where
  name := h.name.mono he
  declaringType := h.declaringType
  defaults v hv := ⟨(h.defaults v hv).1, (h.defaults v hv).2.mono he⟩
  constraints c hc := (Constraint.mentions_read p.type c.definition).mono he (h.constraints c hc)

theorem ChildDefinition.Known.mono {ns ns' : Namespaces} (he : ns.ExtendedBy ns') {owner : Name}
    {c : ChildDefinition} (h : c.Known ns owner) : c.Known ns' owner where
  name := h.name.mono he
  declaringType := h.declaringType
  requiredTypes n hn := (h.requiredTypes n hn).imp_right (·.mono he)
  defaultType n hn := (h.defaultType n hn).mono he

theorem NodeType.Known.mono {ns ns' : Namespaces} (he : ns.ExtendedBy ns') {t : NodeType}
    (h : t.Known ns) : t.Known ns' where
  name := h.name.mono he
  supertypes n hn := (h.supertypes n hn).mono he
  primaryItem n hn := (h.primaryItem n hn).mono he
  properties p hp := (h.properties p hp).mono he
  children c hc := (h.children c hc).mono he

theorem Namespaces.legalLocal_base : LegalLocal Name.base.localName.toList where
  ne_nil := by decide
  ne_dot := by decide
  ne_dots := by decide
  legal c hc := by
    have hall : Name.base.localName.toList.all (!isIllegalInLocal ·) = true := by decide
    simpa using List.all_eq_true.1 hall c hc

/-- The type that all types extend is known where the built-in prefixes are. -/
theorem Namespaces.knows_base {ns : Namespaces}
    (h : ∀ b ∈ builtinBindings, ns.uri? b.1 = some b.2) : ns.Knows .base where
  legal := legalLocal_base
  bound := ⟨"nt", h ("nt", Name.nodeTypeUri) (by decide)⟩

/-! ## Meanings -/

namespace Meaning

theorem knowsItem_of_isItemName {ns : Namespaces} {i : ItemName} {n : Name}
    (h : IsItemName ns i n) : ns.KnowsItem n := by
  cases i with
  | wildcard => exact .inl h
  | named t => exact .inr (knows_of_resolve h)

theorem knows_of_isNames {ns : Namespaces} {ts : List Token} {names : List Name}
    (h : List.Forall₂ (IsName ns) ts names) : ∀ n ∈ names, ns.Knows n := by
  intro n hn
  obtain ⟨t, -, ht⟩ := exists_of_forall₂ h hn
  exact knows_of_resolve ht

/-- Required types are known where they are written; where none are, the type that all types extend
is required. -/
theorem AreRequired.cases {ns : Namespaces} {required : Option (List Token)} {names : List Name}
    (h : AreRequired ns required names) :
    required = none ∧ names = [.base] ∨ ∀ n ∈ names, ns.Knows n := by
  cases required with
  | none => exact .inl ⟨rfl, h⟩
  | some ts => exact .inr (knows_of_isNames h)

/-- A constraint of a property is read from its own text. -/
theorem IsProperty.read_definition {ns : Namespaces} {owner : Name} {c : PropertyClause}
    {p : PropertyDefinition} (h : IsProperty ns owner c p) {k : Constraint} (hk : k ∈ p.constraints) :
    Constraint.read ns p.type k.definition = .ok k := by
  obtain ⟨t, -, ht⟩ := exists_of_forall₂ h.constraints hk
  rw [Constraint.definition_of_read ht, h.type]
  exact ht

theorem known_of_isProperty {ns : Namespaces} {owner : Name} {c : PropertyClause}
    {p : PropertyDefinition} (h : IsProperty ns owner c p) : p.Known ns owner where
  name := knowsItem_of_isItemName h.name
  declaringType := h.declaringType
  defaults v hv := by
    obtain ⟨t, -, ht⟩ := exists_of_forall₂ h.defaults hv
    rw [h.type]
    exact Value.denoted_of_read (Value.convert_eq_ok.1 ht)
  constraints _ hk := h.read_definition hk

theorem known_of_isChild {ns : Namespaces} {owner : Name} {c : ChildClause} {d : ChildDefinition}
    (h : IsChild ns owner c d) : d.Known ns owner where
  name := knowsItem_of_isItemName h.name
  declaringType := h.declaringType
  requiredTypes n hn := by
    rcases h.requiredTypes.cases with ⟨-, hbase⟩ | hknown
    · rw [hbase, List.mem_singleton] at hn
      exact .inl hn
    · exact .inr (hknown n hn)
  defaultType n hn := by
    have hd := h.defaultType
    rw [Option.mem_def.1 hn] at hd
    cases hc : c.defaultType with
    | none =>
      rw [hc] at hd
      simp [IsDefaultType] at hd
    | some t =>
      rw [hc] at hd
      obtain ⟨name, hname, ht⟩ := hd
      rw [Option.some.inj hname]
      exact knows_of_resolve ht

/-- What a clause means in a table is known to the table. -/
theorem known_of_isNodeType {ns : Namespaces} {c : TypeClause} {t : NodeType}
    (h : IsNodeType ns c t) : t.Known ns where
  name := knows_of_resolve h.name
  supertypes := knows_of_isNames h.supertypes
  primaryItem n hn := by
    obtain ⟨m, -, -, hm⟩ := (h.primaryItem n).1 hn
    exact knowsItem_of_isItemName hm
  properties p hp := by
    obtain ⟨c, -, hc⟩ := exists_of_forall₂ h.properties hp
    exact known_of_isProperty hc
  children d hd := by
    obtain ⟨c, -, hc⟩ := exists_of_forall₂ h.children hd
    exact known_of_isChild hc

/-- What declarations keep holds between the first table and the last one, and between that in which
a clause means its node type and the last one. -/
theorem Means.types {policy : ConflictPolicy} (Keeps : Namespaces → Namespaces → Prop)
    (hrefl : ∀ ns, Keeps ns ns) (htrans : ∀ a b c, Keeps a b → Keeps b c → Keeps a c)
    (hdeclare : ∀ {ns ns' : Namespaces} {pfx uri : String} {change : Change},
      ns.declare policy pfx uri = .ok (ns', change) → Keeps ns ns')
    {ns last : Namespaces} {cs : List Clause} {ts : List NodeType} (h : Means policy ns cs ts last) :
    Keeps ns last ∧
      List.Forall₂ (fun c t => ∃ ns', IsNodeType ns' c t ∧ Keeps ns' last)
        (cs.filterMap (·.nodeType?)) ts := by
  induction h with
  | none => exact ⟨hrefl _, .nil⟩
  | binding hd _ ih => exact ⟨htrans _ _ _ (hdeclare hd) ih.1, ih.2⟩
  | nodeType hc _ ih => exact ⟨ih.1, .cons ⟨_, hc, ih.1⟩ ih.2⟩

/-- The same of the node types alone. -/
theorem Means.table {policy : ConflictPolicy} (Keeps : Namespaces → Namespaces → Prop)
    (hrefl : ∀ ns, Keeps ns ns) (htrans : ∀ a b c, Keeps a b → Keeps b c → Keeps a c)
    (hdeclare : ∀ {ns ns' : Namespaces} {pfx uri : String} {change : Change},
      ns.declare policy pfx uri = .ok (ns', change) → Keeps ns ns')
    {ns last : Namespaces} {cs : List Clause} {ts : List NodeType} (h : Means policy ns cs ts last) :
    Keeps ns last ∧ ∀ t ∈ ts, ∃ ns', t.Known ns' ∧ Keeps ns' last := by
  obtain ⟨hlast, htypes⟩ := h.types Keeps hrefl htrans hdeclare
  refine ⟨hlast, fun t ht => ?_⟩
  obtain ⟨c, -, ns', hc, hkeeps⟩ := exists_of_forall₂ htypes ht
  exact ⟨ns', known_of_isNodeType hc, hkeeps⟩

theorem Means.indexed {policy : ConflictPolicy} {ns last : Namespaces} {cs : List Clause}
    {ts : List NodeType} (h : Means policy ns cs ts last) (hi : Indexed ns) : Indexed last :=
  (h.table (fun a b => Indexed a → Indexed b) (fun _ h => h) (fun _ _ _ hab hbc h => hbc (hab h))
    fun hd h => h.declare hd).1 hi

end Meaning

end Cnd
