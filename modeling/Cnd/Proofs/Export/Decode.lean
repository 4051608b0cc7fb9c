import Cnd.Export.Basic
import Cnd.Proofs.Data

/-!
Plain data read as records: the readers are inverse to `toData`, member by member.
-/

namespace Cnd

/-- A member of a mapping is found by its name. -/
theorem Export.member?_members (ms : List (String × Data)) (name : String) :
    (members ms).member? name = ms.lookup name :=
  Data.lookup_named ms name

/-- Items that are each read back are read back together. -/
theorem mapM_map_eq_some {α β : Type} {write : α → β} {read : β → Option α} {l : List α}
    (h : ∀ a ∈ l, read (write a) = some a) : (l.map write).mapM read = some l := by
  induction l with
  | nil => rfl
  | cons a l ih =>
    rw [List.map_cons, List.mapM_cons, h a List.mem_cons_self,
      ih fun b hb => h b (List.mem_cons_of_mem a hb)]
    rfl

namespace Export

def text? : Data → Option String
  | .text s => some s
  | _ => none

def flag? : Data → Option Bool
  | .bool b => some b
  | _ => none

def items? : Data → Option (List Data)
  | .list items => some items
  | _ => none

def texts? (d : Data) : Option (List String) := do (← items? d).mapM text?

/-- A text, or nothing for null. -/
def textOrNull? : Data → Option (Option String)
  | .text s => some (some s)
  | .null => some none
  | _ => none

def action? (d : Data) : Option VersionAction := do
  let s ← text? d
  VersionAction.all.find? (·.text == s)

@[simp] theorem text?_text (s : String) : text? (.text s) = some s := rfl

@[simp] theorem flag?_bool (b : Bool) : flag? (.bool b) = some b := rfl

@[simp] theorem items?_list (items : List Data) : items? (.list items) = some items := rfl

@[simp] theorem texts?_texts (xs : List String) : texts? (texts xs) = some xs :=
  mapM_map_eq_some fun _ _ => rfl

@[simp] theorem textOrNull?_textOrNull (s : Option String) : textOrNull? (textOrNull s) = some s := by
  cases s <;> rfl

@[simp] theorem action?_text (v : VersionAction) : action? (.text v.text) = some v := by
  cases v <;> rfl

/-! ## Records -/

def PropertyRecord.ofData? (d : Data) : Option PropertyRecord := do
  let name ← text? (← d.member? "name")
  let requiredType ← text? (← d.member? "required_type")
  let defaults ← texts? (← d.member? "default_values")
  let constraints ← texts? (← d.member? "value_constraints")
  let autocreated ← flag? (← d.member? "autocreated")
  let mandatory ← flag? (← d.member? "mandatory")
  let isProtected ← flag? (← d.member? "protected")
  let multiple ← flag? (← d.member? "multiple")
  let primary ← flag? (← d.member? "primary")
  let onParentVersion ← action? (← d.member? "on_parent_version")
  return ⟨name, requiredType, defaults, constraints,
    ⟨autocreated, mandatory, isProtected, multiple, primary, onParentVersion⟩⟩

def ChildRecord.ofData? (d : Data) : Option ChildRecord := do
  let name ← text? (← d.member? "name")
  let requiredTypes ← texts? (← d.member? "required_primary_types")
  let defaultType ← textOrNull? (← d.member? "default_primary_type")
  let autocreated ← flag? (← d.member? "autocreated")
  let mandatory ← flag? (← d.member? "mandatory")
  let isProtected ← flag? (← d.member? "protected")
  let primary ← flag? (← d.member? "primary")
  let multiple ← flag? (← d.member? "same_name_siblings")
  let onParentVersion ← action? (← d.member? "on_parent_version")
  return ⟨name, requiredTypes, defaultType,
    ⟨autocreated, mandatory, isProtected, multiple, primary, onParentVersion⟩⟩

def TypeRecord.ofData? (d : Data) : Option TypeRecord := do
  let name ← text? (← d.member? "name")
  let supertypes ← texts? (← d.member? "supertypes")
  let orderable ← flag? (← d.member? "orderable")
  let mixin ← flag? (← d.member? "mixin")
  let primaryItem ← textOrNull? (← d.member? "primary_item")
  let properties ← (← items? (← d.member? "properties")).mapM PropertyRecord.ofData?
  let children ← (← items? (← d.member? "child_nodes")).mapM ChildRecord.ofData?
  return ⟨name, supertypes, orderable, mixin, primaryItem, properties, children⟩

theorem PropertyRecord.ofData?_toData (p : PropertyRecord) : ofData? p.toData = some p := by
  simp [ofData?, toData, member?_members, List.lookup_cons]

theorem ChildRecord.ofData?_toData (c : ChildRecord) : ofData? c.toData = some c := by
  simp [ofData?, toData, member?_members, List.lookup_cons]

theorem TypeRecord.ofData?_toData (t : TypeRecord) : ofData? t.toData = some t := by
  have hproperties : (t.properties.map PropertyRecord.toData).mapM PropertyRecord.ofData? =
      some t.properties := mapM_map_eq_some fun p _ => p.ofData?_toData
  have hchildren : (t.children.map ChildRecord.toData).mapM ChildRecord.ofData? =
      some t.children := mapM_map_eq_some fun c _ => c.ofData?_toData
  simp [ofData?, toData, member?_members, List.lookup_cons, hproperties, hchildren]

end Export

end Cnd
