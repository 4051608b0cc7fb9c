import Cnd.Proofs.Export.Merged
import Cnd.Proofs.Export.Save
import Cnd.Proofs.Yaml.Tree

/-!
A payload that is saved as YAML is loaded again as it was, apart from its next-line characters in single
quotes (`load_save_yaml`).

The keys of a payload are names of members and prefixes, so each stands on one line; and its values are
nested six deep at most, so no line begins anywhere near the width of a line (`regular_ofSources`).
-/

namespace Cnd

namespace Yaml

open Namespaces (isPrefixPart isPrefixText)

/-! ## Keys -/

set_option maxRecDepth 4000 in
/-- Letters and numbers of all scripts are written as they are. -/
theorem isInk_of_isAlphanumeric {c : Char} (h : Text.isAlphanumeric c = true) : IsInk c := by
  have hruns : ∀ r ∈ Text.alphanumericRanges,
      0x20 < r.1 ∧ r.2 ≤ 0x7E ∨ 0xA0 ≤ r.1 ∧ r.2 < 0x2028 ∨ 0x2029 < r.1 ∧ r.2 < 0xFEFF ∨
        0xFEFF < r.1 ∧ r.2 ≤ 0xFFFD ∨ 0x10000 ≤ r.1 ∧ r.2 < 0x10FFFF := by decide
  obtain ⟨r, hr, hn⟩ := Text.Ranges.exists_of_contains h
  rw [List.mem_range'_1] at hn
  have hrun := hruns r hr
  have hne : ∀ d : Char, c.toNat ≠ d.toNat → c ≠ d := fun d hd heq => hd (heq ▸ rfl)
  refine ⟨?_, ?_, hne ' ' (by simp; omega)⟩
  · simp only [Write.isPrintable, Bool.or_eq_true, Bool.and_eq_true, decide_eq_true_eq, beq_iff_eq,
      bne_iff_ne]
    omega
  · have hbreaks : c ≠ '\n' ∧ c ≠ '\x85' ∧ c ≠ '\u2028' ∧ c ≠ '\u2029' :=
      ⟨hne _ (by simp; omega), hne _ (by simp; omega), hne _ (by simp; omega), hne _ (by simp; omega)⟩
    simp [Write.isBreak, hbreaks]

theorem isInk_of_isPrefixPart {c : Char} (h : isPrefixPart c = true) : IsInk c := by
  simp only [isPrefixPart, Bool.or_eq_true, beq_iff_eq] at h
  rcases h with ((h | rfl) | rfl) | rfl
  · exact isInk_of_isAlphanumeric h
  all_goals exact ⟨rfl, rfl, by decide⟩

/-- A prefix stands on one line. -/
theorem inLine_prefix {pfx : String} (h : pfx ≠ "" → isPrefixText pfx.toList = true) :
    Scalar.InLine pfx.toList := fun c hc => by
  by_cases hempty : pfx = ""
  · simp [hempty] at hc
  · exact .inr (isInk_of_isPrefixPart (Namespaces.isPrefixPart_of_mem (h hempty) hc))

end Yaml

namespace Export

open Yaml (Regular)

/-! ## Payloads as documents -/

/-- The names of the members of the records in a payload. -/
def memberNames : List String :=
  ["schema_version", "metadata", "namespaces", "node_types", "sources", "generated_at", "name",
   "supertypes", "orderable", "mixin", "primary_item", "properties", "child_nodes", "required_type",
   "default_values", "value_constraints", "autocreated", "mandatory", "protected", "multiple", "primary",
   "on_parent_version", "required_primary_types", "default_primary_type", "same_name_siblings"]

theorem inLine_memberName {name : String} (h : name ∈ memberNames) : Yaml.Scalar.InLine name.toList := by
  have hink : ∀ name ∈ memberNames, (name.toList.all fun c => decide (Yaml.IsInk c)) = true := by
    decide
  exact fun c hc => .inr (Yaml.isInk_of_all (hink name h) hc)

variable {n : Nat}

theorem regular_record {ms : List (String × Data)} (hn : (ms.map (·.1)).Nodup)
    (hnames : ms.map (·.1) ⊆ memberNames) (hv : ∀ m ∈ ms, Regular n m.2) :
    Regular (n + 1) (members ms) :=
  .map n ms hn (fun _ hm => inLine_memberName (hnames (List.mem_map_of_mem hm))) hv

theorem regular_texts (xs : List String) : Regular (n + 1) (texts xs) :=
  .list n _ (List.forall_mem_map.2 fun s _ => .text n s)

theorem regular_textOrNull (s : Option String) : Regular n (textOrNull s) := by
  cases s
  · exact .null n
  · exact .text n _

theorem PropertyRecord.regular_toData (p : PropertyRecord) : Regular (n + 2) p.toData := by
  refine regular_record (by simp) (by simp [memberNames]) ?_
  simp only [List.forall_mem_cons]
  exact ⟨.text _ _, .text _ _, regular_texts _, regular_texts _, .bool _ _, .bool _ _, .bool _ _,
    .bool _ _, .bool _ _, .text _ _, by simp⟩

theorem ChildRecord.regular_toData (c : ChildRecord) : Regular (n + 2) c.toData := by
  refine regular_record (by simp) (by simp [memberNames]) ?_
  simp only [List.forall_mem_cons]
  exact ⟨.text _ _, regular_texts _, regular_textOrNull _, .bool _ _, .bool _ _, .bool _ _, .bool _ _,
    .bool _ _, .text _ _, by simp⟩

theorem TypeRecord.regular_toData (t : TypeRecord) : Regular (n + 4) t.toData := by
  have hproperties : Regular (n + 3) (.list (t.properties.map PropertyRecord.toData)) :=
    .list _ _ (List.forall_mem_map.2 fun p _ => p.regular_toData)
  have hchildren : Regular (n + 3) (.list (t.children.map ChildRecord.toData)) :=
    .list _ _ (List.forall_mem_map.2 fun c _ => c.regular_toData)
  refine regular_record (by simp) (by simp [memberNames]) ?_
  simp only [List.forall_mem_cons]
  exact ⟨.text _ _, regular_texts _, .bool _ _, .bool _ _, regular_textOrNull _, hproperties, hchildren,
    by simp⟩

/-- A table in use has prefixes of one line. -/
theorem regular_table {ns : Namespaces} (h : Namespaces.Indexed ns) : Regular (n + 1) ns.toData := by
  have hmap : Regular (n + 1) (.map (Data.named (ns.bindings.map fun b => (b.1, .text b.2)))) := by
    refine .map n _ (by simpa [Function.comp_def] using h.distinct) ?_
      (List.forall_mem_map.2 fun b _ => .text n b.2)
    exact List.forall_mem_map.2 fun b hb => Yaml.inLine_prefix fun hne => (h.wellFormed b hb hne).1
  rwa [Data.named, List.map_map] at hmap

/-- A payload of readings is a mapping of texts, truth values and nulls that are nested six deep. -/
theorem regular_ofSources {sources : List (String × Definitions)} (h : ∀ s ∈ sources, IsReading s.2)
    (generatedAt : String) : ∃ ms, ms ≠ [] ∧
      (Payload.ofSources generatedAt sources).1.toData = .map (Data.named ms) ∧
      Regular 6 (.map (Data.named ms)) := by
  have hmetadata : Regular 5 (members [("sources", texts (sources.map (·.1))),
      ("generated_at", .text generatedAt)]) := by
    refine regular_record (by simp) (by simp [memberNames]) ?_
    simp only [List.forall_mem_cons]
    exact ⟨regular_texts _, .text _ _, by simp⟩
  have htable : Regular 5 (mergeAll .empty sources).1.toData :=
    regular_table (indexed_mergeAll .empty fun s hs => (h s hs).indexed)
  refine ⟨_, List.cons_ne_nil _ _, rfl, regular_record (by simp) (by simp [memberNames]) ?_⟩
  simp only [List.forall_mem_cons]
  exact ⟨.text _ _, hmetadata, htable,
    .list _ _ (List.forall_mem_map.2 fun t _ => t.regular_toData), by simp⟩

/-! ## Files -/

/-- What is written as YAML is decoded as it was: it has no carriage returns. -/
theorem loadYaml_write {ms : List (String × Data)} (hne : ms ≠ []) (h : Regular (n + 1) (.map (Data.named ms)))
    (hwidth : 2 * n + 2 < Yaml.Write.width) :
    loadYaml (Yaml.write (.map (Data.named ms))).toUTF8 = .ok (Yaml.readBack (.map (Data.named ms))) := by
  have hbreaks : '\r' ∉ (Yaml.write (.map (Data.named ms))).toList := by
    rw [Yaml.write, String.toList_ofList]
    intro hmem
    rcases List.mem_append.1 hmem with hmem | hmem
    · exact (Yaml.isTextChar_of_isPrintable ((Yaml.written_document hne h).2 _ hmem)).2 rfl
    · simp at hmem
  rw [loadYaml, Text.ofBytes_toUTF8, Text.unifyLineBreaks_eq_self hbreaks]
  simp only [Yaml.read_document hne h hwidth]

/-- **A payload that is saved as YAML is loaded again as it was exactly if all its texts survive.** A text
that has a next-line character and stands in single quotes does not: the character is loaded as a blank or
a line feed, or is lost before other line breaks. All else is loaded as it was, in the same order. -/
theorem load_save_yaml {tree : FileTree} {path : String} (hyaml : isYaml path = true)
    (hw : tree.isWritable path = true) {sources : List (String × Definitions)}
    (h : ∀ s ∈ sources, IsReading s.2) (generatedAt : String) :
    let d := (Payload.ofSources generatedAt sources).1.toData
    ∃ tree', save tree path d = ([.saved path], .ok tree') ∧
      load tree' path = ([], .ok (Yaml.readBack d)) ∧
      (Yaml.readBack d = d ↔ ∀ s ∈ Yaml.textsIn d, Yaml.Survives s) := by
  intro d
  obtain ⟨ms, hne, hd, hregular⟩ := regular_ofSources h generatedAt
  rw [FileTree.isWritable] at hw
  obtain ⟨_, hw⟩ := exists_of_isOk hw
  obtain ⟨t₁, hparents, hwritten⟩ := bind_eq_ok.1 hw
  obtain ⟨tree', hwrite⟩ := FileTree.writeText_any hwritten (Yaml.write d).toUTF8
  refine ⟨tree', ?_, ?_, Yaml.readBack_eq_self_iff d⟩
  · rw [save, hparents]
    simp only [fileText, hyaml, if_true, hwrite]
  · have hread : loadFile tree' path = .ok (Yaml.readBack d) := by
      rw [loadFile, FileTree.readText_writeText hwrite]
      simp only [hyaml, if_true, d, hd]
      exact loadYaml_write hne hregular (by decide)
    rw [load, hread]

def nextLineOutline : Definitions.Outlined "<ex='http://a\x85b/'>" where
  outline := ⟨[.binding ⟨⟨.symbol '<', ⟨1, 1⟩⟩, "ex", "http://a\x85b/"⟩], .complete⟩
  eq := by decide +kernel

/-- A URI in single quotes is loaded with a blank in place of its next-line character. -/
theorem load_save_yaml_nextLine :
    let read : Definitions := ⟨[], Namespaces.builtin.bind "ex" "http://a\x85b/"⟩
    isYaml "defs.yaml" = true ∧ FileTree.empty.isWritable "defs.yaml" = true ∧
    (Definitions.readWith "" .error none "<ex='http://a\x85b/'>").outcome = .ok read ∧
    let d := (Payload.ofSources "now" [("a.cnd", read)]).1.toData
    ∃ tree', save .empty "defs.yaml" d = ([.saved "defs.yaml"], .ok tree') ∧
      load tree' "defs.yaml" = ([], .ok (Yaml.readBack d)) ∧ Yaml.readBack d ≠ d ∧
      Yaml.readText "http://a\x85b/" = "http://a b/" := by
  intro read
  have hyaml : isYaml "defs.yaml" = true := by decide
  have hw : FileTree.empty.isWritable "defs.yaml" = true :=
    FileTree.IsEntryName.isWritable ⟨by decide, by decide, by decide, by decide⟩ rfl
  have hread : (Definitions.readWith "" .error none "<ex='http://a\x85b/'>").outcome = .ok read :=
    Definitions.readWith_of_outline nextLineOutline rfl
  have hreadings : ∀ s ∈ [("a.cnd", read)], IsReading s.2 := fun s hs => by
    rw [List.mem_singleton.1 hs]
    exact ⟨"", .error, none, _, Namespaces.reachable_builtin, hread⟩
  obtain ⟨tree', hsave, hload, hiff⟩ := load_save_yaml hyaml hw hreadings "now"
  refine ⟨hyaml, hw, hread, tree', hsave, hload, fun hsame => ?_, by decide⟩
  have hsurvives := hiff.1 hsame "http://a\x85b/" (by decide)
  exact absurd (hsurvives (by decide)) (by decide)

end Export

end Cnd
