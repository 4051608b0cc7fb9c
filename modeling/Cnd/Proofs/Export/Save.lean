import Cnd.Export.File
import Cnd.Proofs.Export.Table
import Cnd.Proofs.FileTree.Name
import Cnd.Proofs.Json.ReadBack
import Cnd.Proofs.Text.Utf8

/-!
A payload that is saved as JSON is loaded again as it was (`load_save`).

A payload is a plain value: no record has a name twice, and neither has the merged table
(`plain_ofSources`). Its document is made of ASCII characters without carriage returns, so nothing
is lost where the file is decoded and its line breaks are made one kind (`loadJson_write`).
-/

namespace Cnd

/-- Whether the directories above a path can be made and then a file can be written there. -/
def FileTree.isWritable (t : FileTree) (path : String) : Bool :=
  (t.makeParents path >>= fun t => t.writeText path .empty).isOk

namespace Export

open Json (Plain)

/-! ## Payloads as plain values -/

theorem plain_members {ms : List (String × Data)} (hn : (ms.map (·.1)).Nodup)
    (hv : ∀ m ∈ ms, Plain m.2) : Plain (members ms) :=
  .map ms hn hv

theorem plain_texts (xs : List String) : Plain (texts xs) :=
  .list _ (List.forall_mem_map.2 fun s _ => .text s)

theorem plain_textOrNull (s : Option String) : Plain (textOrNull s) := by
  cases s
  · exact .null
  · exact .text _

theorem PropertyRecord.plain_toData (p : PropertyRecord) : Plain p.toData := by
  refine plain_members (by simp) ?_
  simp only [List.forall_mem_cons]
  exact ⟨.text _, .text _, plain_texts _, plain_texts _, .bool _, .bool _, .bool _, .bool _, .bool _,
    .text _, by simp⟩

theorem ChildRecord.plain_toData (c : ChildRecord) : Plain c.toData := by
  refine plain_members (by simp) ?_
  simp only [List.forall_mem_cons]
  exact ⟨.text _, plain_texts _, plain_textOrNull _, .bool _, .bool _, .bool _, .bool _, .bool _,
    .text _, by simp⟩

theorem TypeRecord.plain_toData (t : TypeRecord) : Plain t.toData := by
  have hproperties : Plain (.list (t.properties.map PropertyRecord.toData)) :=
    .list _ (List.forall_mem_map.2 fun p _ => p.plain_toData)
  have hchildren : Plain (.list (t.children.map ChildRecord.toData)) :=
    .list _ (List.forall_mem_map.2 fun c _ => c.plain_toData)
  refine plain_members (by simp) ?_
  simp only [List.forall_mem_cons]
  exact ⟨.text _, plain_texts _, .bool _, .bool _, plain_textOrNull _, hproperties, hchildren, by simp⟩

theorem nodup_mergeTable {source : String} {merged : Namespaces} {l : List (String × String)}
    (h : (merged.bindings.map (·.1)).Nodup) :
    ((mergeTable source merged l).1.bindings.map (·.1)).Nodup := by
  induction l generalizing merged with
  | nil => exact h
  | cons b l ih =>
    obtain ⟨pfx, uri⟩ := b
    have hbinding : ((mergeBinding source merged pfx uri).1.bindings.map (·.1)).Nodup := by
      unfold mergeBinding
      split
      · rename_i hnew
        exact Namespaces.nodup_keys_append h hnew
      · exact h
    exact ih hbinding

theorem nodup_mergeAll {merged : Namespaces} {sources : List (String × Definitions)}
    (h : (merged.bindings.map (·.1)).Nodup) :
    ((mergeAll merged sources).1.bindings.map (·.1)).Nodup := by
  induction sources generalizing merged with
  | nil => exact h
  | cons s sources ih => exact ih (nodup_mergeTable h)

theorem plain_ofSources (generatedAt : String) (sources : List (String × Definitions)) :
    Plain (Payload.ofSources generatedAt sources).1.toData := by
  have hmetadata : Plain (members [("sources", texts (sources.map (·.1))),
      ("generated_at", .text generatedAt)]) := by
    refine plain_members (by simp) ?_
    simp only [List.forall_mem_cons]
    exact ⟨plain_texts _, .text _, by simp⟩
  have htable : Plain (mergeAll .empty sources).1.toData := by
    have hnodup : ((mergeAll .empty sources).1.bindings.map (·.1)).Nodup :=
      nodup_mergeAll List.nodup_nil
    have hplain : Plain (members ((mergeAll .empty sources).1.bindings.map fun b => (b.1, .text b.2))) :=
      plain_members (by simpa [Function.comp_def] using hnodup)
        (List.forall_mem_map.2 fun b _ => .text b.2)
    rw [members, List.map_map] at hplain
    exact hplain
  refine plain_members (by simp) ?_
  simp only [List.forall_mem_cons]
  exact ⟨.text _, hmetadata, htable,
    .list _ (List.forall_mem_map.2 fun t _ => t.plain_toData), by simp⟩

/-! ## Files -/

theorem loadJson_write {d : Data} (h : Plain d) : loadJson (Json.write d).toUTF8 = .ok d := by
  have hbreaks : Text.unifyLineBreaks (Json.write d).toList = (Json.write d).toList := by
    refine Text.unifyLineBreaks_eq_self fun hc => ?_
    exact absurd (Json.printed_writeAt h 0 '\r' hc) (by decide)
  rw [loadJson, Text.ofBytes_toUTF8, hbreaks]
  simp only [Json.read_write h]

end Export

theorem FileTree.writeText_any {t t' : FileTree} {path : String} {bytes : ByteArray}
    (h : t.writeText path bytes = .ok t') (other : ByteArray) :
    ∃ t'', t.writeText path other = .ok t'' := by
  unfold writeText at h ⊢
  split at h
  · simp at h
  rename_i hempty
  rw [if_neg hempty]
  split at h
  · simp at h
  split at h
  · simp at h
  rename_i hd
  split at h
  · simp at h
  rename_i hends
  simp only [if_neg hd, if_neg hends]
  exact ⟨_, rfl⟩

theorem FileTree.IsEntryName.isWritable {t : FileTree} {name : String} (h : IsEntryName name)
    (hd : t.isDirectory [name] = false) : t.isWritable name = true := by
  rw [FileTree.isWritable, h.makeParents]
  simp only [bind, Except.bind, h.writeText hd]
  rfl

namespace Export

/-- **A payload that is saved as JSON is loaded again as it was**, with all its texts and in the same
order, wherever a file can be written. -/
theorem load_save {tree : FileTree} {path : String} (hjson : isYaml path = false)
    (hw : tree.isWritable path = true) (generatedAt : String) (sources : List (String × Definitions)) :
    let d := (Payload.ofSources generatedAt sources).1.toData
    ∃ tree', save tree path d = ([.saved path], .ok tree') ∧ load tree' path = ([], .ok d) := by
  intro d
  rw [FileTree.isWritable] at hw
  obtain ⟨_, hw⟩ := exists_of_isOk hw
  obtain ⟨t₁, hparents, hwritten⟩ := bind_eq_ok.1 hw
  obtain ⟨tree', hwrite⟩ := FileTree.writeText_any hwritten (Json.write d).toUTF8
  refine ⟨tree', ?_, ?_⟩
  · rw [save, hparents]
    simp only [fileText, hjson, Bool.false_eq_true, if_false, hwrite]
  · have hread : loadFile tree' path = .ok d := by
      rw [loadFile, FileTree.readText_writeText hwrite]
      simp only [hjson, Bool.false_eq_true, if_false]
      exact loadJson_write (plain_ofSources generatedAt sources)
    rw [load, hread]

theorem load_save_escapes :
    isYaml "defs.json" = false ∧ FileTree.empty.isWritable "defs.json" = true ∧
    let d := (Payload.ofSources "now"
      [("\"a\\b\"\r\n\x01\x7f é 😀.cnd", ⟨[], .builtin⟩), ("", ⟨[], .empty⟩)]).1.toData
    ∃ tree', save .empty "defs.json" d = ([.saved "defs.json"], .ok tree') ∧
      load tree' "defs.json" = ([], .ok d) := by
  have hjson : isYaml "defs.json" = false := by decide
  have hw : FileTree.empty.isWritable "defs.json" = true :=
    FileTree.IsEntryName.isWritable ⟨by decide, by decide, by decide, by decide⟩ rfl
  exact ⟨hjson, hw, load_save hjson hw "now" _⟩

end Export

end Cnd
