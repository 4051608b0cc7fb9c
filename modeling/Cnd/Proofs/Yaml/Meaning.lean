import Cnd.Proofs.Data
import Cnd.Proofs.Except
import Cnd.Proofs.Yaml.Position
import Mathlib.Data.List.Nodup

/-!
What a tree looks like that means a given value, if all its keys are texts and no mapping has two of
one text: a mapping comes from a mapping with the same names in the same order, and a list from a
sequence. A sequence may also be one of pairs; its items are then no mappings.
-/

namespace Cnd.Yaml

namespace Meaning

theorem both_eq_ok {α β : Type} {a : Meaning α} {b : Meaning β} {p : α × β} :
    both a b = .ok p ↔ a = .ok p.1 ∧ b = .ok p.2 := by
  obtain ⟨x, y⟩ := p
  cases a <;> cases b <;> simp [both]

theorem all_eq_ok {α : Type} {l : List (Meaning α)} {xs : List α} :
    all l = .ok xs ↔ List.Forall₂ (fun a x => a = .ok x) l xs := by
  induction l generalizing xs with
  | nil => simp [all, eq_comm]
  | cons a l ih =>
    rw [all, map_eq_ok, List.forall₂_cons_left_iff]
    constructor
    · rintro ⟨⟨x, ys⟩, hboth, rfl⟩
      obtain ⟨hx, hys⟩ := both_eq_ok.1 hboth
      exact ⟨x, ys, hx, ih.1 hys, rfl⟩
    · rintro ⟨x, ys, hx, hys, rfl⟩
      exact ⟨(x, ys), both_eq_ok.2 ⟨hx, ih.2 hys⟩, rfl⟩

theorem ofValue_eq_ok {α : Type} {depth : Nat} {x : Except ValueFault α} {a : α} :
    ofValue depth x = .ok a ↔ x = .ok a := by
  cases x <;> simp [ofValue]

end Meaning

/-- A value that holds no members and no items. -/
def IsLeaf (d : Data) : Prop := (∀ es, d ≠ .map es) ∧ ∀ xs, d ≠ .list xs

theorem isLeaf_stamp {s : List Char} {d : Data} (h : Scalar.stamp s = .ok d) : IsLeaf d := by
  unfold Scalar.stamp at h
  split at h
  · simp at h
  · split at h
    · obtain rfl := Except.ok.inj h
      simp [IsLeaf]
    · simp at h
  · split at h
    · simp at h
    · split at h
      · obtain rfl := Except.ok.inj h
        simp [IsLeaf]
      · simp at h

theorem isLeaf_scalar {tag : Tag} {text : String} {d : Data} (h : Scalar.value tag text = .ok d) :
    IsLeaf d := by
  unfold Scalar.value at h
  split at h
  · obtain rfl := Except.ok.inj h
    simp [IsLeaf]
  iterate 3
    · obtain ⟨x, -, rfl⟩ := map_eq_ok.1 h
      simp [IsLeaf]
  · split at h
    · obtain rfl := Except.ok.inj h
      simp [IsLeaf]
    · simp at h
  · exact isLeaf_stamp h
  · obtain rfl := Except.ok.inj h
    simp [IsLeaf]
  · simp at h

namespace Node

variable {entries : List (Node × Node)} {depth : Nat}

/-- All keys are texts. -/
def TextKeys (entries : List (Node × Node)) : Prop :=
  ∀ e ∈ entries, ∃ t text mark, e.1 = .scalar t text mark ∧ t = .str

theorem key_text (depth : Nat) (text : String) (mark : Mark) :
    key depth (.scalar .str text mark) = .ok (.text text) := by
  rw [key.eq_def]
  simp [Node.tag, Tag.isCollection, meaning, Scalar.value, Meaning.ofValue]

theorem merged_eq_nil (h : TextKeys entries) (depth : Nat) : merged depth entries = some [] := by
  induction entries with
  | nil => rw [merged]
  | cons e entries ih =>
    obtain ⟨k, v⟩ := e
    obtain ⟨⟨_, text, mark, rfl, rfl⟩, hrest⟩ := List.forall_mem_cons.1 h
    rw [merged, if_neg (by simp [Node.tag]), ih hrest]

/-- An entry of a mapping whose value means that of a member, and whose key is its name. -/
def Means (depth : Nat) (e : Node × Node) (m : String × Data) : Prop :=
  e.1.keyText? = some m.1 ∧ e.2.meaning depth = .ok m.2

theorem all_own_eq_ok (h : TextKeys entries) {es : List (Data × Data)}
    (hes : Meaning.all (own depth entries) = .ok es) :
    ∃ ms, es = Data.named ms ∧ List.Forall₂ (Means depth) entries ms := by
  induction entries generalizing es with
  | nil =>
    rw [own, Meaning.all] at hes
    exact ⟨[], (Except.ok.inj hes).symm, .nil⟩
  | cons e entries ih =>
    obtain ⟨k, v⟩ := e
    obtain ⟨⟨_, text, mark, rfl, rfl⟩, hrest⟩ := List.forall_mem_cons.1 h
    rw [own, if_neg (by simp [Node.tag]), key_text, Meaning.all, map_eq_ok] at hes
    obtain ⟨⟨m, ms⟩, hboth, rfl⟩ := hes
    obtain ⟨hm, hms⟩ := Meaning.both_eq_ok.1 hboth
    obtain ⟨hkey, hvalue⟩ := Meaning.both_eq_ok.1 hm
    obtain ⟨rest, rfl, hmeans⟩ := ih hrest hms
    refine ⟨(text, m.2) :: rest, ?_, .cons ⟨rfl, hvalue⟩ hmeans⟩
    have hentry : m = (.text text, m.2) := Prod.ext (Except.ok.inj hkey).symm rfl
    exact congrArg (· :: Data.named rest) hentry

theorem Means.names_eq {ms : List (String × Data)} (h : List.Forall₂ (Means depth) entries ms) :
    entries.map (·.1.keyText?) = (ms.map (·.1)).map some := by
  induction h with
  | nil => rfl
  | cons hm _ ih => rw [List.map_cons, List.map_cons, List.map_cons, ih, hm.1]

theorem table_eq_ok (h : TextKeys entries) (hd : (entries.map (·.1.keyText?)).Nodup)
    {es : List (Data × Data)} (hes : table depth entries = .ok es) :
    ∃ ms, (ms.map (·.1)).Nodup ∧ es = Data.named ms ∧ List.Forall₂ (Means depth) entries ms := by
  rw [table, merged_eq_nil h] at hes
  simp only [List.nil_append] at hes
  obtain ⟨es', hall, rfl⟩ := map_eq_ok.1 hes
  obtain ⟨ms, rfl, hmeans⟩ := all_own_eq_ok h hall
  have hnodup : (ms.map (·.1)).Nodup := by
    rw [Means.names_eq hmeans] at hd
    exact List.Nodup.of_map _ hd
  exact ⟨ms, hnodup, Data.foldl_insert_named hnodup, hmeans⟩

variable {n : Node}

/-- A scalar, and a mapping that a scalar stands for, mean a leaf. -/
theorem isLeaf_ofValue {tag : Tag} {text : String} {d : Data}
    (h : Meaning.ofValue depth (Scalar.value tag text) = .ok d) : IsLeaf d :=
  isLeaf_scalar (Meaning.ofValue_eq_ok.1 h)

/-- Items of pairs mean leaves. -/
theorem isLeaf_pairings {items : List Node} {xs : List Data}
    (h : Meaning.all (pairings depth items) = .ok xs) :
    List.Forall₂ (fun _ d => IsLeaf d) items xs := by
  rw [Meaning.all_eq_ok] at h
  induction items generalizing xs with
  | nil =>
    rw [pairings, List.forall₂_nil_left_iff] at h
    rw [h]
    exact .nil
  | cons x items ih =>
    unfold pairings at h
    split at h
    · simp_all
    · rename_i heq
      obtain ⟨rfl, rfl⟩ := List.cons.inj heq
      obtain ⟨d, ds, hd, hds, rfl⟩ := List.forall₂_cons_left_iff.1 h
      obtain ⟨p, -, rfl⟩ := map_eq_ok.1 hd
      exact .cons (by simp [IsLeaf]) (ih hds)
    · rename_i heq
      obtain ⟨rfl, rfl⟩ := List.cons.inj heq
      obtain ⟨d, ds, hd, -, -⟩ := List.forall₂_cons_left_iff.1 h
      simp [Meaning.fail] at hd

theorem all_meanings_eq_ok {items : List Node} {xs : List Data}
    (h : Meaning.all (meanings depth items) = .ok xs) :
    List.Forall₂ (fun x d => x.meaning depth = .ok d) items xs := by
  rw [Meaning.all_eq_ok] at h
  induction items generalizing xs with
  | nil =>
    rw [meanings, List.forall₂_nil_left_iff] at h
    rw [h]
    exact .nil
  | cons x items ih =>
    rw [meanings] at h
    obtain ⟨d, ds, hd, hds, rfl⟩ := List.forall₂_cons_left_iff.1 h
    exact .cons hd (ih hds)

/-- A sequence means a list. Its items mean those of the list, or the list is one of pairs. -/
theorem meaning_sequence {tag : Tag} {items : List Node} {mark : Mark} {d : Data}
    (h : (sequence tag items mark).meaning depth = .ok d) :
    ∃ xs, d = .list xs ∧
      List.Forall₂ (fun x d => x.meaning (depth + 1) = .ok d ∨ IsLeaf d) items xs := by
  unfold meaning at h
  split at h
  · obtain ⟨xs, hxs, rfl⟩ := map_eq_ok.1 h
    exact ⟨xs, rfl, (all_meanings_eq_ok hxs).imp fun _ _ => .inl⟩
  iterate 2
    · obtain ⟨xs, hxs, rfl⟩ := map_eq_ok.1 h
      exact ⟨xs, rfl, (isLeaf_pairings hxs).imp fun _ _ => .inr⟩
  all_goals simp [Meaning.fail] at h

/-- A mapping means a mapping of the same names, or a leaf. -/
theorem meaning_mapping {tag : Tag} {mark : Mark} {d : Data} (hkeys : TextKeys entries)
    (hd : (entries.map (·.1.keyText?)).Nodup)
    (h : (mapping tag entries mark).meaning depth = .ok d) :
    IsLeaf d ∨ ∃ ms, (ms.map (·.1)).Nodup ∧ d = .map (Data.named ms) ∧
      List.Forall₂ (Means (depth + 1)) entries ms := by
  unfold meaning at h
  split at h
  · obtain ⟨es, hes, rfl⟩ := map_eq_ok.1 h
    obtain ⟨ms, hnodup, rfl, hmeans⟩ := table_eq_ok hkeys hd hes
    exact .inr ⟨ms, hnodup, rfl, hmeans⟩
  · obtain ⟨es, -, rfl⟩ := map_eq_ok.1 h
    exact .inl (by simp [IsLeaf])
  iterate 3
    · simp [Meaning.fail] at h
  · split at h
    · simp [Meaning.fail] at h
    · split at h
      · simp at h
      · exact .inl (isLeaf_ofValue h)

theorem meaning_scalar {tag : Tag} {text : String} {mark : Mark} {d : Data}
    (h : (scalar tag text mark).meaning depth = .ok d) : IsLeaf d := by
  unfold meaning at h
  split at h
  · simp [Meaning.fail] at h
  · exact isLeaf_ofValue h

/-! ## One step down -/

variable {n : Node} (hk : n.KeyedBy (· = .str))

include hk

/-- A node that means a mapping has, for each member, the node that means its value one step from
it. -/
theorem members_of_meaning {es : List (Data × Data)} (hn : n.meaning depth = .ok (.map es)) :
    ∃ ms, es = Data.named ms ∧ ∀ m ∈ ms, ∃ x, n.child? (.key (.text m.1)) = some x ∧
      x.KeyedBy (· = .str) ∧ x.meaning (depth + 1) = .ok m.2 := by
  cases hk with
  | scalar tag text mark => exact absurd rfl ((meaning_scalar hn).1 es)
  | sequence tag items mark _ =>
    obtain ⟨xs, hxs, -⟩ := meaning_sequence hn
    simp at hxs
  | mapping tag entries mark keys distinct values =>
    obtain hleaf | ⟨ms, -, hes, hmeans⟩ := meaning_mapping keys distinct hn
    · exact absurd rfl (hleaf.1 es)
    · refine ⟨ms, Data.map.inj hes, fun m hm => ?_⟩
      obtain ⟨e, he, hkey, hvalue⟩ := exists_of_forall₂ hmeans hm
      exact ⟨e.2, (child?_mapping distinct).2 ⟨m.1, e, rfl, he, hkey, rfl⟩, values e he, hvalue⟩

/-- A node that means a list has, for each item that is no leaf, the node that means it one step from
it. -/
theorem items_of_meaning {xs : List Data} (hn : n.meaning depth = .ok (.list xs)) {i : Nat} {d : Data}
    (hd : xs[i]? = some d) : ∃ x, n.child? (.index i) = some x ∧ x.KeyedBy (· = .str) ∧
      (x.meaning (depth + 1) = .ok d ∨ IsLeaf d) := by
  cases hk with
  | scalar tag text mark => exact absurd rfl ((meaning_scalar hn).2 xs)
  | sequence tag items mark all =>
    obtain ⟨xs', hxs, hitems⟩ := meaning_sequence hn
    obtain rfl := Data.list.inj hxs
    obtain ⟨x, hx, hmeans⟩ := getElem?_of_forall₂ hitems hd
    exact ⟨x, child?_sequence.2 ⟨i, rfl, hx⟩, all x (List.mem_of_getElem? hx), hmeans⟩
  | mapping tag entries mark keys distinct values =>
    obtain hleaf | ⟨ms, -, hes, -⟩ := meaning_mapping keys distinct hn
    · exact absurd rfl (hleaf.2 xs)
    · simp at hes

end Node

end Cnd.Yaml
