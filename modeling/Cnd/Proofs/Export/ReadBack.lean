import Cnd.Proofs.Elaboration.Known
import Cnd.Proofs.Export.Decode
import Cnd.Proofs.Export.Table
import Cnd.Proofs.Reading.Exact

/-!
The payload of one source determines its definitions.

`definitions?` reads a payload by the table of its own pairs. A record is read as the definition
that it was made of, if all parts of that are known to the table that rendered it
(`TypeRecord.definition?_ofDefinition`). For the definitions of a text that is the table of the
payload, unless a prefix was overridden (`definitions?_ofSources`).
-/

namespace Cnd.Export

open Namespaces

/-! ## Reading -/

/-- A name, or the asterisk of the wildcard. -/
def readName (ns : Namespaces) (s : String) : Option Name :=
  if s = "*" then some .wildcard else (ns.resolve s).toOption

def PropertyRecord.definition? (ns : Namespaces) (owner : Name) (p : PropertyRecord) :
    Option PropertyDefinition := do
  let name ← readName ns p.name
  let type ← PropertyType.ofText? p.requiredType
  let defaults ← p.defaults.mapM fun s => (Value.convert ns type s).toOption
  let constraints ← p.constraints.mapM fun s => (Constraint.read ns type s).toOption
  return ⟨name, owner, type, defaults, constraints, p.attributes⟩

def ChildRecord.definition? (ns : Namespaces) (owner : Name) (c : ChildRecord) :
    Option ChildDefinition := do
  let name ← readName ns c.name
  let requiredTypes ← c.requiredTypes.mapM (readName ns)
  let defaultType ← c.defaultType.mapM (readName ns)
  return ⟨name, owner, requiredTypes, defaultType, c.attributes⟩

/-- The node type of a record; its name is the declaring type of its members. -/
def TypeRecord.definition? (ns : Namespaces) (t : TypeRecord) : Option NodeType := do
  let name ← readName ns t.name
  let supertypes ← t.supertypes.mapM (readName ns)
  let primaryItem ← t.primaryItem.mapM (readName ns)
  let properties ← t.properties.mapM (PropertyRecord.definition? ns name)
  let children ← t.children.mapM (ChildRecord.definition? ns name)
  return ⟨name, supertypes, t.orderable, t.mixin, primaryItem, properties, children⟩

def pairs? : Data → Option (List (Data × Data))
  | .map entries => some entries
  | _ => none

/-- The node types of a payload, read by the table of its pairs. -/
def definitions? (payload : Data) : Option (List NodeType) := do
  let pairs ← pairs? (← payload.member? "namespaces")
  let ns ← (Namespaces.ofPairs false pairs).toOption
  let types ← items? (← payload.member? "node_types")
  types.mapM fun item => do (← TypeRecord.ofData? item).definition? ns

/-! ## Records -/

section
variable {ns ns' : Namespaces} (hi : Indexed ns) (he : ns.ExtendedBy ns')

include hi he

theorem readName_render {n : Name} (h : ns.Knows n) : readName ns' (ns.render n) = some n := by
  have hresolve := (mentions_resolve (ns.render n)).mono he (resolve_render hi h)
  have hstar : ns.render n ≠ "*" := fun hs => by
    rw [hs, show ns'.resolve "*" = .error (.illegalChar '*' "*") from rfl] at hresolve
    simp at hresolve
  rw [readName, if_neg hstar, hresolve]
  rfl

theorem readName_renderItem {n : Name} (h : ns.KnowsItem n) :
    readName ns' (ns.render n) = some n := by
  cases h with
  | inl h =>
    rw [h]
    rfl
  | inr h => exact readName_render hi he h

theorem mapM_readName {names : List Name} (h : ∀ n ∈ names, ns.Knows n) :
    (names.map ns.render).mapM (readName ns') = some names :=
  mapM_map_eq_some fun n hn => readName_render hi he (h n hn)

theorem readName_option {n : Option Name} (h : ∀ x ∈ n, ns.KnowsItem x) :
    (n.map ns.render).mapM (readName ns') = some n := by
  cases n with
  | none => rfl
  | some n =>
    rw [Option.map_some, Option.mapM_some, readName_renderItem hi he (h n rfl)]
    rfl

theorem PropertyRecord.definition?_ofDefinition {owner : Name} {p : PropertyDefinition}
    (h : p.Known ns owner) : (ofDefinition ns p).definition? ns' owner = some p := by
  have hname := readName_renderItem hi he h.name
  have htype : PropertyType.ofText? p.type.text = some p.type := by
    cases p.type <;> rfl
  have hdefaults : (p.defaults.map (Value.write ns)).mapM
      (fun s => (Value.convert ns' p.type s).toOption) = some p.defaults := by
    refine mapM_map_eq_some fun v hv => ?_
    obtain ⟨hv, hdenoted⟩ := h.defaults v hv
    rw [← hv, Value.convert_write_extended hi he hdenoted]
    rfl
  have hconstraints : (p.constraints.map (·.definition)).mapM
      (fun s => (Constraint.read ns' p.type s).toOption) = some p.constraints := by
    refine mapM_map_eq_some fun c hc => ?_
    rw [(Constraint.mentions_read p.type c.definition).mono he (h.constraints c hc)]
    rfl
  simp only [definition?, ofDefinition, hname, htype, hdefaults, hconstraints, Option.bind_eq_bind,
    Option.bind_some, ← h.declaringType]
  rfl

theorem ChildRecord.definition?_ofDefinition (hbase : ns.Knows .base) {owner : Name}
    {c : ChildDefinition} (h : c.Known ns owner) :
    (ofDefinition ns c).definition? ns' owner = some c := by
  have hname := readName_renderItem hi he h.name
  have hrequired := mapM_readName hi he fun n hn => (h.requiredTypes n hn).elim (· ▸ hbase) id
  have hdefault := readName_option hi he fun n hn => .inr (h.defaultType n hn)
  simp only [definition?, ofDefinition, hname, hrequired, hdefault, Option.bind_eq_bind,
    Option.bind_some, ← h.declaringType]
  rfl

/-- A record is read as the node type it was made of. -/
theorem TypeRecord.definition?_ofDefinition (hbase : ns.Knows .base) {t : NodeType}
    (h : t.Known ns) : (ofDefinition ns t).definition? ns' = some t := by
  have hname := readName_render hi he h.name
  have hsupertypes := mapM_readName hi he h.supertypes
  have hprimary := readName_option hi he h.primaryItem
  have hproperties : (t.properties.map (PropertyRecord.ofDefinition ns)).mapM
      (PropertyRecord.definition? ns' t.name) = some t.properties :=
    mapM_map_eq_some fun p hp => PropertyRecord.definition?_ofDefinition hi he (h.properties p hp)
  have hchildren : (t.children.map (ChildRecord.ofDefinition ns)).mapM
      (ChildRecord.definition? ns' t.name) = some t.children :=
    mapM_map_eq_some fun c hc => ChildRecord.definition?_ofDefinition hi he hbase (h.children c hc)
  simp only [definition?, ofDefinition, hname, hsupertypes, hprimary, hproperties, hchildren,
    Option.bind_eq_bind, Option.bind_some]
  rfl

end

/-! ## Payloads -/

/-- A payload is read through its records. -/
theorem definitions?_toData (p : Payload) {ns : Namespaces}
    (h : Namespaces.ofPairs false p.namespaces.pairs = .ok ns) :
    definitions? p.toData = p.types.mapM (TypeRecord.definition? ns) := by
  have hnamespaces : p.toData.member? "namespaces" = some p.namespaces.toData := by
    rw [Payload.toData, member?_members]
    rfl
  have htypes : p.toData.member? "node_types" = some (.list (p.types.map TypeRecord.toData)) := by
    rw [Payload.toData, member?_members]
    rfl
  have hpairs : pairs? p.namespaces.toData = some p.namespaces.pairs := rfl
  simp only [definitions?, hnamespaces, htypes, hpairs, h, items?_list, Except.toOption,
    Option.bind_eq_bind, Option.bind_some, List.mapM_map, Function.comp_def,
    TypeRecord.ofData?_toData]

/-- What a text means is known to the table at its end, unless a prefix may be overridden. -/
theorem known_of_readWith {source : String} {policy : ConflictPolicy} {seed : Option Namespaces}
    {text : String} {d : Definitions} (hpolicy : policy ≠ .override)
    (h : (Definitions.readWith source policy seed text).outcome = .ok d) :
    (seed.getD .builtin).ExtendedBy d.namespaces ∧ ∀ t ∈ d.types, t.Known d.namespaces := by
  obtain ⟨tokens, clauses, -, -, hm⟩ := Definitions.means_of_readWith h
  obtain ⟨hseed, htypes⟩ :=
    hm.table ExtendedBy .refl (fun _ _ _ => .trans) (extendedBy_declare hpolicy)
  refine ⟨hseed, fun t ht => ?_⟩
  obtain ⟨ns, hknown, hlast⟩ := htypes t ht
  exact hknown.mono hlast

/-- The table of one source is the table of its payload, and of the pairs in that. -/
theorem table_of_one {d : Definitions} (hi : Indexed d.namespaces) (name : String) :
    let merged := (mergeAll .empty [(name, d)]).1
    Indexed merged ∧ d.namespaces.ExtendedBy merged ∧
      ∃ ns, Namespaces.ofPairs false merged.pairs = .ok ns ∧ merged.ExtendedBy ns := by
  intro merged
  have hmerged : Indexed merged := indexed_mergeAll .empty fun s hs => by
    rw [List.mem_singleton.1 hs]
    exact hi
  refine ⟨hmerged, fun pfx uri hu => ?_, ?_⟩
  · rw [uri?_mergeAll]
    simp only [List.findSome?_cons, hu]
    rfl
  · obtain ⟨ns, hns, hbindings⟩ := ofPairs_bindings hmerged
    refine ⟨ns, hns, fun pfx uri hu => ?_⟩
    rw [uri?, hbindings]
    exact hu

/-- **The export of one source loses nothing.** A text that is read from a table in use with the
built-in prefixes, no prefix being overridden, is exported as a payload from which its definitions
are read back. -/
theorem definitions?_ofSources {source : String} {policy : ConflictPolicy} {seed : Option Namespaces}
    {text : String} {d : Definitions} (hseed : Reachable (seed.getD .builtin))
    (hbuiltin : ∀ b ∈ builtinBindings, (seed.getD .builtin).uri? b.1 = some b.2)
    (hpolicy : policy ≠ .override)
    (h : (Definitions.readWith source policy seed text).outcome = .ok d)
    (name generatedAt : String) :
    definitions? (Payload.ofSources generatedAt [(name, d)]).1.toData = some d.types := by
  obtain ⟨hkept, hknown⟩ := known_of_readWith hpolicy h
  obtain ⟨tokens, clauses, -, -, hm⟩ := Definitions.means_of_readWith h
  obtain ⟨hmerged, hextends, ns, hns, hrebuilt⟩ := table_of_one (hm.indexed hseed.indexed) name
  generalize hmerge : (mergeAll .empty [(name, d)]).1 = merged at hmerged hextends hns hrebuilt
  have hpayload : (Payload.ofSources generatedAt [(name, d)]).1 =
      ⟨[name], generatedAt, merged, d.types.map (TypeRecord.ofDefinition merged)⟩ := by
    simp [Payload.ofSources, hmerge]
  rw [hpayload, definitions?_toData _ hns]
  have hbase : merged.Knows .base := ((knows_base hbuiltin).mono hkept).mono hextends
  exact mapM_map_eq_some fun t ht =>
    TypeRecord.definition?_ofDefinition hmerged hrebuilt hbase ((hknown t ht).mono hextends)

/-- The node type of a text with a constraint, a default path and a residual child node. -/
def residualType : NodeType :=
  ⟨⟨"http://e/", "t"⟩, [], false, false, some .wildcard,
    [⟨⟨"http://e/", "p"⟩, ⟨"http://e/", "t"⟩, .path,
      [.path ⟨false, [.item ⟨"http://e/", "a"⟩ (some 2)]⟩],
      [⟨"ex:a/*", .path, .path ⟨false, [.item ⟨"http://e/", "a"⟩ none]⟩ true⟩], {}⟩],
    [⟨.wildcard, ⟨"http://e/", "t"⟩, [.base], none, { primary := true }⟩]⟩

def residualOutline : Definitions.Outlined
    "<ex='http://e/'>\n[ex:t]\n- ex:p (Path) = 'ex:a[2]' < 'ex:a/*'\n+ * !" where
  outline :=
    ⟨[.binding ⟨⟨.symbol '<', ⟨1, 1⟩⟩, "ex", "http://e/"⟩,
      .nodeType ⟨⟨.text "ex:t" false, ⟨2, 2⟩⟩, [], false, false,
        [.property ⟨.named ⟨.text "ex:p" false, ⟨3, 3⟩⟩, .path,
          [⟨.text "ex:a[2]" true, ⟨3, 17⟩⟩], [], [⟨.text "ex:a/*" true, ⟨3, 29⟩⟩]⟩,
         .child ⟨.wildcard, none, none, [(⟨.symbol '!', ⟨4, 5⟩⟩, .attribute .isPrimary)]⟩]⟩],
     .complete⟩
  eq := by decide +kernel

theorem definitions?_ofSources_residual :
    (Definitions.readWith "" .ignore none
      "<ex='http://e/'>\n[ex:t]\n- ex:p (Path) = 'ex:a[2]' < 'ex:a/*'\n+ * !").outcome =
        .ok ⟨[residualType], Namespaces.builtin.bind "ex" "http://e/"⟩ ∧
    definitions? (Payload.ofSources "now"
      [("e.cnd", ⟨[residualType], Namespaces.builtin.bind "ex" "http://e/"⟩)]).1.toData =
        some [residualType] := by
  have h : (Definitions.readWith "" .ignore none
      "<ex='http://e/'>\n[ex:t]\n- ex:p (Path) = 'ex:a[2]' < 'ex:a/*'\n+ * !").outcome =
        .ok ⟨[residualType], Namespaces.builtin.bind "ex" "http://e/"⟩ :=
    Definitions.readWith_of_outline residualOutline rfl
  have hseed : Reachable ((none : Option Namespaces).getD .builtin) := reachable_builtin
  exact ⟨h, definitions?_ofSources hseed (by decide) (by decide) h "e.cnd" "now"⟩

end Cnd.Export
