import Cnd.Proofs.Export.Decode
import Cnd.Proofs.Reading.WellFormed
import Cnd.Proofs.Schema.Accepts
import Cnd.Schema.Documents

/-!
Every payload of readings meets the schema of exported definitions.

A record has its members in the order in which its schema lists them, so the two are compared name by
name (`Describes`). All of a record is accepted whatever the table that it was rendered with; only
that some required type is listed depends on what was read (`NodeType.WellFormed`).
-/

namespace Cnd

open Export (Payload PropertyRecord ChildRecord TypeRecord textOrNull texts)

namespace Schema

/-! ## Records and their schemas -/

/-- Members of the names that schemas are listed for, each accepted by its schema. -/
def Describes (known : List (String × Schema)) (ms : List (String × Data)) : Prop :=
  List.Forall₂ (fun k m => k.1 = m.1 ∧ k.2.Accepts m.2) known ms

namespace Describes

variable {known : List (String × Schema)} {ms : List (String × Data)}

theorem names_eq (h : Describes known ms) : known.map (·.1) = ms.map (·.1) :=
  map_eq_map_of_forall₂ h fun _ _ h => h.1

theorem accepts_members (h : Describes known ms) (hd : (known.map (·.1)).Nodup) :
    (members known).Accepts (Export.members ms) := by
  rw [Schema.accepts_members]
  intro k hk x hx
  rw [Export.member?_members] at hx
  obtain ⟨before, behind, rfl, -⟩ := List.lookup_eq_some_iff.1 hx
  have hmem : (k.1, x) ∈ before ++ (k.1, x) :: behind := by simp
  obtain ⟨k', hk', hname, haccepts⟩ := exists_of_forall₂ h hmem
  rwa [← List.inj_on_of_nodup_map hd hk' hk hname]

theorem accepts_required (h : Describes known ms) {names : List String}
    (hn : ∀ n ∈ names, n ∈ known.map (·.1)) : (required names).Accepts (Export.members ms) := by
  rw [Schema.accepts_required]
  intro _ _ n hmem
  have hin := hn n hmem
  rw [h.names_eq] at hin
  obtain ⟨m, hm, rfl⟩ := List.mem_map.1 hin
  rw [Export.member?_members, List.lookup_isSome_iff]
  exact ⟨m, hm, beq_self_eq_true m.1⟩

theorem accepts_closed (h : Describes known ms) :
    (closed (known.map (·.1))).Accepts (Export.members ms) := by
  rw [Schema.accepts_closed]
  intro entries hentries e he
  obtain rfl := Data.map.inj hentries
  obtain ⟨m, hm, rfl⟩ := List.mem_map.1 he
  rw [isKnown, h.names_eq, List.contains_iff_mem]
  exact List.mem_map_of_mem hm

theorem accepts_object (ms : List (String × Data)) :
    (kind [.object]).Accepts (Export.members ms) :=
  accepts_kind.2 ⟨.object, List.mem_singleton_self _, rfl⟩

/-- A record is accepted if it has the members of its schema. -/
theorem accepts_record (h : Describes known ms) (hd : (known.map (·.1)).Nodup)
    {names : List String} (hn : ∀ n ∈ names, n ∈ known.map (·.1)) :
    (record names known).Accepts (Export.members ms) :=
  accepts_all.2 ⟨accepts_object ms, h.accepts_required hn, h.accepts_closed, h.accepts_members hd⟩

end Describes

theorem accepts_text (s : String) : text.Accepts (.text s) :=
  accepts_kind.2 ⟨.string, List.mem_singleton_self _, rfl⟩

theorem accepts_flag (b : Bool) : flag.Accepts (.bool b) :=
  accepts_kind.2 ⟨.boolean, List.mem_singleton_self _, rfl⟩

theorem accepts_textOrNull (s : Option String) : Schema.textOrNull.Accepts (Export.textOrNull s) := by
  cases s with
  | none => exact accepts_kind.2 ⟨.null, by decide, rfl⟩
  | some s => exact accepts_kind.2 ⟨.string, by decide, rfl⟩

theorem accepts_array (xs : List Data) : (kind [.array]).Accepts (.list xs) :=
  accepts_kind.2 ⟨.array, List.mem_singleton_self _, rfl⟩

theorem accepts_itemsOf {s : Schema} {xs : List Data} (h : ∀ x ∈ xs, s.Accepts x) :
    (items s).Accepts (.list xs) := by
  rw [accepts_items]
  intro ys hys
  obtain rfl := Data.list.inj hys
  exact h

theorem accepts_arrayOf {s : Schema} {xs : List Data} (h : ∀ x ∈ xs, s.Accepts x) :
    (arrayOf s).Accepts (.list xs) := accepts_all.2 ⟨accepts_array xs, accepts_itemsOf h⟩

theorem accepts_each_text {xs : List String} : ∀ x ∈ xs.map Data.text, text.Accepts x := by
  intro x hx
  obtain ⟨s, -, rfl⟩ := List.mem_map.1 hx
  exact accepts_text s

theorem accepts_texts (xs : List String) : (arrayOf text).Accepts (texts xs) :=
  accepts_arrayOf accepts_each_text

theorem accepts_someTexts {xs : List String} (h : xs ≠ []) :
    (all [kind [.array], items text, nonEmpty]).Accepts (texts xs) := by
  refine accepts_all.2
    ⟨accepts_array _, accepts_itemsOf accepts_each_text, accepts_nonEmpty.2 fun he => ?_⟩
  exact h (List.map_eq_nil_iff.1 (Data.list.inj he))

theorem accepts_requiredType (t : PropertyType) :
    (oneOf (PropertyType.all.map (·.text))).Accepts (.text t.text) :=
  accepts_oneOf.2 ⟨t.text, List.mem_map_of_mem (by cases t <;> decide), rfl⟩

theorem accepts_versionAction (v : VersionAction) : versionAction.Accepts (.text v.text) :=
  accepts_oneOf.2 ⟨v.text, List.mem_map_of_mem (by cases v <;> decide), rfl⟩

/-! ## Records of definitions -/

section
variable (ns : Namespaces)

theorem accepts_property (p : PropertyDefinition) :
    property.Accepts (PropertyRecord.ofDefinition ns p).toData := by
  refine Describes.accepts_record ?_ (by decide) (by decide)
  exact .cons ⟨rfl, accepts_text _⟩ <| .cons ⟨rfl, accepts_requiredType _⟩ <|
    .cons ⟨rfl, accepts_texts _⟩ <| .cons ⟨rfl, accepts_texts _⟩ <|
    .cons ⟨rfl, accepts_flag _⟩ <| .cons ⟨rfl, accepts_flag _⟩ <| .cons ⟨rfl, accepts_flag _⟩ <|
    .cons ⟨rfl, accepts_flag _⟩ <| .cons ⟨rfl, accepts_flag _⟩ <|
    .cons ⟨rfl, accepts_versionAction _⟩ .nil

theorem accepts_childNode {c : ChildDefinition} (h : c.requiredTypes ≠ []) :
    childNode.Accepts (ChildRecord.ofDefinition ns c).toData := by
  have hsome : (c.requiredTypes.map ns.render) ≠ [] := fun he => h (List.map_eq_nil_iff.1 he)
  refine Describes.accepts_record ?_ (by decide) (by decide)
  exact .cons ⟨rfl, accepts_text _⟩ <| .cons ⟨rfl, accepts_someTexts hsome⟩ <|
    .cons ⟨rfl, accepts_textOrNull _⟩ <| .cons ⟨rfl, accepts_flag _⟩ <|
    .cons ⟨rfl, accepts_flag _⟩ <| .cons ⟨rfl, accepts_flag _⟩ <| .cons ⟨rfl, accepts_flag _⟩ <|
    .cons ⟨rfl, accepts_flag _⟩ <| .cons ⟨rfl, accepts_versionAction _⟩ .nil

theorem accepts_nodeType {t : NodeType} (h : ∀ c ∈ t.children, c.requiredTypes ≠ []) :
    nodeType.Accepts (TypeRecord.ofDefinition ns t).toData := by
  have hproperties : (arrayOf property).Accepts
      (.list ((t.properties.map (PropertyRecord.ofDefinition ns)).map PropertyRecord.toData)) := by
    simp only [List.map_map]
    refine accepts_arrayOf fun x hx => ?_
    obtain ⟨p, -, rfl⟩ := List.mem_map.1 hx
    exact accepts_property ns p
  have hchildren : (arrayOf childNode).Accepts
      (.list ((t.children.map (ChildRecord.ofDefinition ns)).map ChildRecord.toData)) := by
    simp only [List.map_map]
    refine accepts_arrayOf fun x hx => ?_
    obtain ⟨c, hc, rfl⟩ := List.mem_map.1 hx
    exact accepts_childNode ns (h c hc)
  refine Describes.accepts_record ?_ (by decide) (by decide)
  exact .cons ⟨rfl, accepts_text _⟩ <| .cons ⟨rfl, accepts_texts _⟩ <|
    .cons ⟨rfl, accepts_flag _⟩ <| .cons ⟨rfl, accepts_flag _⟩ <|
    .cons ⟨rfl, accepts_textOrNull _⟩ <| .cons ⟨rfl, hproperties⟩ <| .cons ⟨rfl, hchildren⟩ .nil

end

/-! ## Payloads -/

theorem accepts_table (ns : Namespaces) :
    (all [kind [.object], others [] text]).Accepts ns.toData := by
  refine accepts_all.2 ⟨accepts_kind.2 ⟨.object, List.mem_singleton_self _, rfl⟩,
    accepts_others.2 ?_⟩
  intro entries hentries e he _
  obtain rfl := Data.map.inj hentries
  obtain ⟨b, -, rfl⟩ := List.mem_map.1 he
  exact accepts_text b.2

theorem accepts_metadata (p : Payload) :
    (all [kind [.object], members [("sources", arrayOf text), ("generated_at", text)]]).Accepts
      (Export.members [("sources", texts p.sources), ("generated_at", .text p.generatedAt)]) := by
  have hmembers : Describes [("sources", arrayOf text), ("generated_at", text)]
      [("sources", texts p.sources), ("generated_at", .text p.generatedAt)] :=
    .cons ⟨rfl, accepts_texts _⟩ <| .cons ⟨rfl, accepts_text _⟩ .nil
  exact accepts_all.2 ⟨Describes.accepts_object _, hmembers.accepts_members (by decide)⟩

theorem accepts_definitions {p : Payload} (h : ∀ t ∈ p.types, nodeType.Accepts t.toData) :
    definitions.Accepts p.toData := by
  have hmembers : Describes
      [("schema_version", text),
       ("metadata", all [kind [.object],
          members [("sources", arrayOf text), ("generated_at", text)]]),
       ("namespaces", all [kind [.object], others [] text]),
       ("node_types", arrayOf nodeType)]
      [("schema_version", .text Export.schemaVersion),
       ("metadata", Export.members
          [("sources", texts p.sources), ("generated_at", .text p.generatedAt)]),
       ("namespaces", p.namespaces.toData),
       ("node_types", .list (p.types.map TypeRecord.toData))] :=
    .cons ⟨rfl, accepts_text _⟩ <| .cons ⟨rfl, accepts_metadata p⟩ <|
      .cons ⟨rfl, accepts_table _⟩ <|
      .cons ⟨rfl, accepts_arrayOf (List.forall_mem_map.2 h)⟩ .nil
  exact accepts_all.2 ⟨Describes.accepts_object _, hmembers.accepts_required (by decide),
    hmembers.accepts_members (by decide)⟩

end Schema

/-- **Every payload is valid.** A payload of readings, of any texts, from any tables and under any
policies, has no issue with the schema of exported definitions. -/
theorem Export.check_ofSources {sources : List (String × Definitions)}
    (h : ∀ s ∈ sources, ∃ source policy seed text,
      (Definitions.readWith source policy seed text).outcome = .ok s.2) (generatedAt : String) :
    (Schema.ofName? "definitions").map (·.check (Payload.ofSources generatedAt sources).1.toData) =
      some [] := by
  have haccepts : Schema.definitions.Accepts (Payload.ofSources generatedAt sources).1.toData := by
    refine Schema.accepts_definitions fun r hr => ?_
    obtain ⟨s, hs, hr⟩ := List.mem_flatMap.1 hr
    obtain ⟨t, ht, rfl⟩ := List.mem_map.1 hr
    obtain ⟨source, policy, seed, text, hread⟩ := h s hs
    have hwellFormed := (Definitions.wellFormed_of_readWith hread).1 t ht
    exact Schema.accepts_nodeType _ fun c hc => (hwellFormed.children c hc).someRequired
  have hname : Schema.ofName? "definitions" = some Schema.definitions := rfl
  rw [hname, Option.map_some, Schema.check_eq_nil_iff.2 haccepts]

/-- A node type with a property and a child node whose required types are left out. -/
def validType : NodeType where
  name := ⟨Name.nodeTypeUri, "a"⟩
  supertypes := []
  orderable := false
  mixin := false
  primaryItem := none
  properties := [⟨⟨Name.nodeTypeUri, "b"⟩, ⟨Name.nodeTypeUri, "a"⟩, .name,
    [.name ⟨Name.nodeTypeUri, "c"⟩], [], {}⟩]
  children := [⟨⟨Name.nodeTypeUri, "d"⟩, ⟨Name.nodeTypeUri, "a"⟩, [.base],
    some ⟨Name.nodeTypeUri, "e"⟩, { mandatory := true }⟩]

def validOutline : Definitions.Outlined "[nt:a]\n- nt:b (Name) = nt:c\n+ nt:d = nt:e man" where
  outline :=
    ⟨[.nodeType ⟨⟨.text "nt:a" false, ⟨1, 2⟩⟩, [], false, false,
      [.property ⟨.named ⟨.text "nt:b" false, ⟨2, 3⟩⟩, .name, [⟨.text "nt:c" false, ⟨2, 17⟩⟩], [],
        []⟩,
       .child ⟨.named ⟨.text "nt:d" false, ⟨3, 3⟩⟩, none, some ⟨.text "nt:e" false, ⟨3, 10⟩⟩,
        [(⟨.text "man" false, ⟨3, 15⟩⟩, .attribute .isMandatory)]⟩]⟩], .complete⟩
  eq := by decide +kernel

theorem Export.check_ofSources_members :
    (Definitions.readWith "" .error none
      "[nt:a]\n- nt:b (Name) = nt:c\n+ nt:d = nt:e man").outcome = .ok ⟨[validType], .builtin⟩ ∧
    (Schema.ofName? "definitions").map (·.check
      (Payload.ofSources "now" [("a.cnd", ⟨[validType], .builtin⟩)]).1.toData) = some [] := by
  have h : (Definitions.readWith "" .error none
      "[nt:a]\n- nt:b (Name) = nt:c\n+ nt:d = nt:e man").outcome = .ok ⟨[validType], .builtin⟩ :=
    Definitions.readWith_of_outline validOutline rfl
  refine ⟨h, check_ofSources (fun s hs => ?_) "now"⟩
  obtain rfl := List.mem_singleton.1 hs
  exact ⟨_, _, _, _, h⟩

end Cnd
