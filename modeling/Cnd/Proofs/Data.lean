import Cnd.Data
import Mathlib.Data.List.Basic

/-!
Mappings from texts: how their entries are put together and looked up.
-/

namespace Cnd

theorem not_mem_of_nodup_map {α β : Type} {f : α → β} {done rest : List α} {a : α}
    (h : ((done ++ a :: rest).map f).Nodup) : f a ∉ done.map f := by
  rw [List.map_append, List.nodup_append] at h
  exact fun hmem => h.2.2 (f a) hmem (f a) List.mem_cons_self rfl

namespace Data

/-- The entries of members with texts as their names. -/
def named (ms : List (String × Data)) : List (Data × Data) := ms.map fun m => (.text m.1, m.2)

theorem equal_text (a b : String) : equal (.text a) (.text b) = (a == b) := by simp [equal]

theorem insert_cons (k v : Data) (es : List (Data × Data)) (key value : Data) :
    insert ((k, v) :: es) key value =
      if k.equal key then (k, value) :: es else (k, v) :: insert es key value := rfl

theorem insert_named {done : List (String × Data)} {name : String}
    (h : name ∉ done.map (·.1)) (d : Data) :
    insert (named done) (.text name) d = named (done ++ [(name, d)]) := by
  induction done with
  | nil => rfl
  | cons m done ih =>
    obtain ⟨hne, hmem⟩ := not_or.1 (mt List.mem_cons.2 h)
    have hk : (text m.1).equal (.text name) = false := by
      rw [equal_text]
      exact beq_false_of_ne (Ne.symm hne)
    have hinsert := ih hmem
    simp only [named] at hinsert
    simp [named, insert_cons, hk, hinsert]

/-- Entries of different names are put together in their order. -/
theorem foldl_insert_named {ms : List (String × Data)} (h : (ms.map (·.1)).Nodup) :
    (named ms).foldl (fun t e => insert t e.1 e.2) [] = named ms := by
  have hall : ∀ (rest done : List (String × Data)), ((done ++ rest).map (·.1)).Nodup →
      (named rest).foldl (fun t e => insert t e.1 e.2) (named done) = named (done ++ rest) := by
    intro rest
    induction rest with
    | nil => intro done _; simp [named]
    | cons m rest ih =>
      intro done hd
      have hcons : named (m :: rest) = (.text m.1, m.2) :: named rest := rfl
      rw [hcons, List.foldl_cons, insert_named (not_mem_of_nodup_map hd), ih _ (by simpa using hd)]
      simp
  exact hall ms [] h

theorem lookup_named (ms : List (String × Data)) (name : String) :
    lookup (named ms) (.text name) = ms.lookup name := by
  induction ms with
  | nil => rfl
  | cons m ms ih =>
    obtain ⟨key, value⟩ := m
    simp only [lookup, named] at ih ⊢
    rw [List.map_cons, List.find?_cons, List.lookup_cons, equal_text, Bool.beq_comm]
    cases name == key with
    | true => rfl
    | false => exact ih

/-! ## Different keys -/

/-- No two keys of a mapping are equal. -/
def HasDistinctKeys : Data → Prop
  | .map es => es.Pairwise fun a b => a.1.equal b.1 = false
  | _ => True

theorem key_of_mem_insert {es : List (Data × Data)} {key value : Data} {e : Data × Data}
    (h : e ∈ insert es key value) : e.1 = key ∨ ∃ e' ∈ es, e.1 = e'.1 := by
  induction es with
  | nil => exact .inl (by rw [List.mem_singleton.1 h])
  | cons x es ih =>
    obtain ⟨k, v⟩ := x
    rw [insert_cons] at h
    split at h
    · refine .inr ?_
      rcases List.mem_cons.1 h with rfl | h
      · exact ⟨(k, v), List.mem_cons_self, rfl⟩
      · exact ⟨e, List.mem_cons_of_mem _ h, rfl⟩
    · rcases List.mem_cons.1 h with rfl | h
      · exact .inr ⟨(k, v), List.mem_cons_self, rfl⟩
      · exact (ih h).imp_right fun ⟨e', he', hk⟩ => ⟨e', List.mem_cons_of_mem _ he', hk⟩

theorem value_of_mem_insert {es : List (Data × Data)} {key value : Data} {e : Data × Data}
    (h : e ∈ insert es key value) : e.2 = value ∨ e ∈ es := by
  induction es with
  | nil => exact .inl (by rw [List.mem_singleton.1 h])
  | cons x es ih =>
    obtain ⟨k, v⟩ := x
    rw [insert_cons] at h
    split at h
    · rcases List.mem_cons.1 h with rfl | h
      · exact .inl rfl
      · exact .inr (List.mem_cons_of_mem _ h)
    · rcases List.mem_cons.1 h with rfl | h
      · exact .inr List.mem_cons_self
      · exact (ih h).imp_right (List.mem_cons_of_mem _)

/-- An entry that is put into a mapping takes the place of one with an equal key. -/
theorem hasDistinctKeys_insert {es : List (Data × Data)} (h : (map es).HasDistinctKeys)
    (key value : Data) : (map (insert es key value)).HasDistinctKeys := by
  simp only [HasDistinctKeys] at h ⊢
  induction es with
  | nil => exact List.pairwise_singleton _ _
  | cons x es ih =>
    obtain ⟨k, v⟩ := x
    obtain ⟨hk, hes⟩ := List.pairwise_cons.1 h
    rw [insert_cons]
    split
    · exact List.pairwise_cons.2 ⟨hk, hes⟩
    · rename_i hne
      refine List.pairwise_cons.2 ⟨fun e he => ?_, ih hes⟩
      rcases key_of_mem_insert he with hkey | ⟨e', he', hkey⟩
      · rw [hkey]
        simpa using hne
      · rw [hkey]
        exact hk e' he'

/-- Entries that are put together one by one have different keys, and no values but their own. -/
theorem foldl_insert {es : List (Data × Data)} (h : (map es).HasDistinctKeys)
    (xs : List (Data × Data)) :
    (map (xs.foldl (fun t x => insert t x.1 x.2) es)).HasDistinctKeys ∧
      ∀ e ∈ xs.foldl (fun t x => insert t x.1 x.2) es, e ∈ es ∨ ∃ x ∈ xs, e.2 = x.2 := by
  induction xs generalizing es with
  | nil => exact ⟨h, fun e he => .inl he⟩
  | cons x xs ih =>
    rw [List.foldl_cons]
    obtain ⟨hdistinct, hvalues⟩ := ih (hasDistinctKeys_insert h x.1 x.2)
    refine ⟨hdistinct, fun e he => ?_⟩
    rcases hvalues e he with he | ⟨y, hy, hvalue⟩
    · rcases value_of_mem_insert he with hvalue | he
      · exact .inr ⟨x, List.mem_cons_self, hvalue⟩
      · exact .inl he
    · exact .inr ⟨y, List.mem_cons_of_mem x hy, hvalue⟩

end Data

end Cnd
