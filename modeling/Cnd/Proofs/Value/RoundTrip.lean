import Cnd.Proofs.Except
import Cnd.Proofs.ItemPath
import Cnd.Proofs.Namespaces.Reachable
import Cnd.Proofs.Value.Date
import Cnd.Proofs.Value.Number

/-!
Literals and values are inverse to each other, one type at a time.

What a literal denotes has a form that depends on its type (`denoted_of_read`), and every value of
that form is denoted by the literal that is written for it (`read_write`), so writing the value of a
literal and reading the text gives the value again (`convert_write`).
-/

namespace Cnd

open Namespaces

namespace Literal

theorem readBoolean_writeBoolean (b : Bool) : readBoolean (writeBoolean b) = .ok b := by
  cases b <;> rfl

theorem readReference_eq_ok {text s : String} (h : readReference text = .ok s) :
    s = text ∧ (Text.trim s.toList).isEmpty = false := by
  unfold readReference at h
  split at h
  · simp at h
  · rename_i hblank
    have hs := Except.ok.inj h
    rw [← hs]
    exact ⟨rfl, Bool.not_eq_true _ ▸ hblank⟩

end Literal

theorem fromUTF8?_toUTF8 (s : String) : String.fromUTF8? s.toUTF8 = some s := by
  rw [String.fromUTF8?, String.toUTF8_eq_toByteArray, dif_pos s.isValidUTF8]
  rfl

namespace Value

/-- The values that literals denote, names being known to a table. -/
def Denoted (ns : Namespaces) : Value → Prop
  | .string _ | .undefined _ | .boolean _ => True
  | .binary bytes => ∃ s : String, bytes = s.toUTF8
  | .long n => InLongRange n
  | .double x => x.Canonical
  | .date m => m.Writable
  | .name n => ns.Knows n
  | .path p => p.Known ns
  | .reference s => (Text.trim s.toList).isEmpty = false

theorem read_name (ns : Namespaces) (literal : String) :
    read ns .name literal =
      match ns.resolve literal with
      | .ok n => .ok (.name n)
      | .error e => .error (.name e) := rfl

theorem read_path (ns : Namespaces) (literal : String) :
    read ns .path literal =
      match ItemPath.parse ns literal with
      | .ok p => .ok (.path p)
      | .error e => .error (.path e) := rfl

/-- What a literal denotes has the form that goes with its type. -/
theorem denoted_of_read {ns : Namespaces} {type : PropertyType} {literal : String} {v : Value}
    (h : read ns type literal = .ok v) : v.type = type ∧ v.Denoted ns := by
  cases type with
  | string | undefined =>
    rw [← Except.ok.inj h]
    exact ⟨rfl, trivial⟩
  | reference =>
    obtain ⟨s, hs, rfl⟩ := map_eq_ok.1 h
    exact ⟨rfl, (Literal.readReference_eq_ok hs).2⟩
  | binary =>
    rw [← Except.ok.inj h]
    exact ⟨rfl, literal, rfl⟩
  | long =>
    obtain ⟨n, hn, rfl⟩ := map_eq_ok.1 h
    exact ⟨rfl, Literal.inLongRange_of_readLong hn⟩
  | double =>
    obtain ⟨x, hx, rfl⟩ := map_eq_ok.1 h
    exact ⟨rfl, Literal.canonical_of_readDouble hx⟩
  | boolean =>
    obtain ⟨b, -, rfl⟩ := map_eq_ok.1 h
    exact ⟨rfl, trivial⟩
  | date =>
    obtain ⟨m, hm, rfl⟩ := map_eq_ok.1 h
    exact ⟨rfl, Literal.writable_of_readDate hm⟩
  | name =>
    rw [read_name] at h
    split at h
    · rename_i n hn
      rw [← Except.ok.inj h]
      exact ⟨rfl, knows_of_resolve hn⟩
    · simp at h
  | path =>
    rw [read_path] at h
    split at h
    · rename_i p hp
      rw [← Except.ok.inj h]
      exact ⟨rfl, ItemPath.known_of_parse hp⟩
    · simp at h

/-- A value of such a form is what its literal denotes. -/
theorem read_write {ns : Namespaces} (hi : Indexed ns) {v : Value} (h : v.Denoted ns) :
    read ns v.type (v.write ns) = .ok v := by
  cases v with
  | string | undefined => rfl
  | reference s =>
    show (Literal.readReference s).map Value.reference = _
    rw [Literal.readReference, if_neg (by rw [h]; exact Bool.false_ne_true)]
    rfl
  | binary bytes =>
    obtain ⟨s, rfl⟩ := h
    simp only [type, write, fromUTF8?_toUTF8, Option.getD_some]
    rfl
  | long n =>
    show (Literal.readLong (Text.decimalInt n)).map Value.long = _
    rw [Literal.readLong_decimalInt h]
    rfl
  | double x =>
    show (Literal.readDouble (Literal.writeDouble x)).map Value.double = _
    rw [Literal.readDouble_writeDouble h]
    rfl
  | boolean b =>
    show (Literal.readBoolean (Literal.writeBoolean b)).map Value.boolean = _
    rw [Literal.readBoolean_writeBoolean]
    rfl
  | date m =>
    show (Literal.readDate m.literal).map Value.date = _
    rw [Literal.readDate_literal h]
    rfl
  | name n => simp only [type, write, read_name, resolve_render hi h]
  | path p => simp only [type, write, read_path, ItemPath.parse_render hi h]

theorem convert_eq_ok {ns : Namespaces} {type : PropertyType} {literal : String} {v : Value} :
    convert ns type literal = .ok v ↔ read ns type literal = .ok v := by
  unfold convert
  cases read ns type literal <;> simp

/-- **Writing a value and reading it back.** In every table in use, the text that is written for the
value of a literal is a literal of the same type, and of the same value. -/
theorem convert_write {ns : Namespaces} (hns : Reachable ns) {type : PropertyType}
    {literal : String} {v : Value} (h : convert ns type literal = .ok v) :
    convert ns type (v.write ns) = .ok v := by
  obtain ⟨htype, hdenoted⟩ := denoted_of_read (convert_eq_ok.1 h)
  rw [convert_eq_ok, ← htype]
  exact read_write hns.indexed hdenoted

/-- A path is written with the canonical prefix and ASCII digits, whatever the literal has. -/
theorem convert_write_path :
    let ns : Namespaces := ⟨[("a", "u"), ("b", "u")], [("u", "a")]⟩
    let p : ItemPath := ⟨true, [.item ⟨"u", "x"⟩ (some 2), .parent]⟩
    Reachable ns ∧ convert ns .path "/b:x[٢]/.." = .ok (.path p) ∧
      (Value.path p).write ns = "/a:x[2]/.." ∧ convert ns .path "/a:x[2]/.." = .ok (.path p) := by
  intro ns p
  have hns : Reachable ns :=
    ⟨[.make false [(.text "a", .text "u"), (.text "b", .text "u")]], by
      have hr : run [.make false [(.text "a", .text "u"), (.text "b", .text "u")]] = [ns] := by rfl
      simp [hr]⟩
  have hread : convert ns .path "/b:x[٢]/.." = .ok (.path p) := by rfl
  exact ⟨hns, hread, rfl, convert_write hns hread⟩

end Value

end Cnd
