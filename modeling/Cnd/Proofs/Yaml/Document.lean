import Cnd.Proofs.Yaml.Fault
import Cnd.Yaml.Document

/-!
When a text has data: what is recorded of it comes from its tree (`Document.ofText_eq_ok`), and if it
has none, its tokens or its values are at fault (`Document.ofText_eq_error_iff`).
-/

namespace Cnd.Yaml

theorem Node.toData_eq_ok {n : Node} {d : Data} (h : n.toData = .ok d) : n.meaning 0 = .ok d := by
  unfold toData at h
  split at h
  · rename_i heq
    rw [heq, Except.ok.inj h]
  · simp at h

theorem Node.toData_eq_error {n : Node} {f : ValueFault} (h : n.toData = .error f) :
    ∃ depth, n.meaning 0 = .error (depth, f) := by
  unfold toData at h
  split at h
  · simp at h
  · rename_i depth e heq
    obtain rfl := Except.error.inj h
    exact ⟨depth, heq⟩

namespace Document

variable {text : List Char} {document : Document}

/-- The data of a text is what its tree means; nothing and null are an empty mapping. -/
theorem ofText_eq_ok (h : ofText text = .ok document) :
    Node.ofText text = .ok none ∧ document = ⟨.map [], []⟩ ∨
      ∃ n d, Node.ofText text = .ok (some n) ∧ n.meaning 0 = .ok d ∧ document.places = n.places ∧
        (document.data = d ∨ document.data = .map []) := by
  obtain ⟨tree, htree, hdocument⟩ := map_eq_ok.1 h
  unfold readTree at htree
  split at htree
  · simp at htree
  · rename_i hnone
    obtain rfl := Except.ok.inj htree
    exact .inl ⟨hnone, hdocument.symm⟩
  · rename_i n hn
    split at htree
    · simp at htree
    · rename_i d hd
      obtain rfl := Except.ok.inj htree
      refine .inr ⟨n, d, hn, Node.toData_eq_ok hd, ?_⟩
      rw [← hdocument]
      cases d with
      | null => exact ⟨rfl, .inr rfl⟩
      | _ => exact ⟨rfl, .inl rfl⟩

theorem ofText_eq_error_iff {f : ReadFault} :
    ofText text = .error f ↔ (∃ e, Node.ofText text = .error e ∧ f = .text e) ∨
      ∃ n e, Node.ofText text = .ok (some n) ∧ n.toData = .error e ∧ f = .value e := by
  rw [ofText, map_eq_error, readTree]
  cases ht : Node.ofText text with
  | error e => simp [eq_comm]
  | ok root =>
    cases root with
    | none => simp
    | some n =>
      cases hd : n.toData with
      | error e => simp [hd, eq_comm]
      | ok d => simp [hd]

/-- The data of a text, and the value of each of its members, has no two equal keys. -/
theorem hasDistinctKeys (h : ofText text = .ok document) : document.data.HasDistinctKeys ∧
    ∀ name, ∀ v ∈ document.data.member? name, v.HasDistinctKeys := by
  have hempty : (Data.map []).HasDistinctKeys ∧
      ∀ name, ∀ v ∈ (Data.map []).member? name, v.HasDistinctKeys :=
    ⟨.nil, by simp [Data.member?, Data.lookup]⟩
  rcases ofText_eq_ok h with ⟨-, rfl⟩ | ⟨n, d, -, hmeaning, -, hdata | hdata⟩
  · exact hempty
  · rw [hdata]
    refine ⟨Node.hasDistinctKeys_of_meaning hmeaning, fun name v hv => ?_⟩
    cases d with
    | map es =>
      obtain ⟨e, he, rfl⟩ := Option.map_eq_some_iff.1 hv
      obtain ⟨x, -, hx⟩ := Node.meaning_of_mem hmeaning (List.mem_of_find?_eq_some he)
      exact Node.hasDistinctKeys_of_meaning hx
    | _ => simp [Data.member?] at hv
  · rw [hdata]
    exact hempty

end Document

end Cnd.Yaml
