import Cnd.Proofs.Text.DigitOrder
import Cnd.Schema.Documents

/-!
The order of the issues of a value.

Issues are sorted by the texts of their paths, so those of the items of an array come in the order of
the texts of the indices: the item of the smaller index comes first just if that index is not above
the leading digits of the other one (`check_order`). Indices of one length, such as those of ten items
or fewer, are in the order of the array.
-/

namespace Cnd

namespace Text

@[simp] theorem listLe_nil (b : List String) : listLe [] b = true := rfl

@[simp] theorem listLe_cons_nil (x : String) (a : List String) : listLe (x :: a) [] = false := rfl

theorem listLe_cons (x y : String) (a b : List String) :
    listLe (x :: a) (y :: b) = true ↔ x < y ∨ x = y ∧ listLe a b = true := by
  rw [listLe]
  by_cases h : x = y
  · simp [h]
  · simp [h]

theorem listLe_total (a b : List String) : (listLe a b || listLe b a) = true := by
  induction a generalizing b with
  | nil => simp
  | cons x a ih =>
    cases b with
    | nil => simp
    | cons y b =>
      have hrest := Bool.or_eq_true_iff.1 (ih b)
      rw [Bool.or_eq_true, listLe_cons, listLe_cons]
      rcases lt_trichotomy x y with h | rfl | h
      · exact .inl (.inl h)
      · exact hrest.imp (fun h => .inr ⟨rfl, h⟩) fun h => .inr ⟨rfl, h⟩
      · exact .inr (.inl h)

theorem listLe_trans {a b c : List String} (hab : listLe a b = true) (hbc : listLe b c = true) :
    listLe a c = true := by
  induction a generalizing b c with
  | nil => rfl
  | cons x a ih =>
    cases b with
    | nil => simp at hab
    | cons y b =>
      cases c with
      | nil => simp at hbc
      | cons z c =>
        rw [listLe_cons] at *
        rcases hab with hxy | ⟨rfl, hab⟩
        · rcases hbc with hyz | ⟨rfl, -⟩
          · exact .inl (lt_trans hxy hyz)
          · exact .inl hxy
        · exact hbc.imp_right fun h => ⟨h.1, ih hab h.2⟩

theorem lt_of_listLe {a b : List String} (h : listLe a b = true) (hne : a ≠ b) : a < b := by
  induction a generalizing b with
  | nil =>
    cases b with
    | nil => exact absurd rfl hne
    | cons y b => exact List.nil_lt_cons y b
  | cons x a ih =>
    cases b with
    | nil => simp at h
    | cons y b =>
      rw [listLe_cons] at h
      rw [List.cons_lt_cons_iff]
      rcases h with hlt | ⟨hxy, hle⟩
      · exact .inl hlt
      · exact .inr ⟨hxy, ih hle fun hab => hne (by rw [hxy, hab])⟩

/-- Lists that differ first in one text are ordered as those texts are. -/
theorem listLe_append_cons {a b : String} (h : a ≠ b) (front u v : List String) :
    listLe (front ++ a :: u) (front ++ b :: v) = true ↔ a < b := by
  induction front with
  | nil => simp [listLe_cons, h]
  | cons x front ih => simpa [listLe_cons] using ih

end Text

theorem pairwise_check (s : Schema) (d : Data) :
    (s.check d).Pairwise fun x y => x.le y = true :=
  List.pairwise_mergeSort (fun _ y _ => Text.listLe_trans (b := y.pathTexts))
    (fun x y => Text.listLe_total x.pathTexts y.pathTexts) (s.issues d)

/-- The issue is one of the item of an index, or of a value in it, of the array that steps lead to. -/
def SchemaIssue.IsUnder (array : List PathStep) (index : Nat) (x : SchemaIssue) : Prop :=
  ∃ rest, x.path = array ++ .index index :: rest

theorem Text.decimal_injective {i j : Nat} (h : decimal i = decimal j) : i = j := by
  rw [decimal, decimal, String.ofList_inj] at h
  rw [← digitsValue_toDigits i, h, digitsValue_toDigits]

theorem SchemaIssue.IsUnder.le_iff {array : List PathStep} {i j : Nat} {x y : SchemaIssue}
    (hx : x.IsUnder array i) (hy : y.IsUnder array j) (h : i ≠ j) :
    x.le y = true ↔ Text.decimal i < Text.decimal j := by
  obtain ⟨u, hx⟩ := hx
  obtain ⟨v, hy⟩ := hy
  rw [le, pathTexts, pathTexts, hx, hy, List.map_append, List.map_append, List.map_cons,
    List.map_cons]
  exact Text.listLe_append_cons (fun he => h (Text.decimal_injective he)) _ _ _

/-- **The issues of the items of an array come in the order of the texts of their indices.** All
issues are given. Of two that are under items of one array, the one under the item in front comes
first just if the index of that item is not above the leading digits, as many as it has itself, of the
other index. -/
theorem Schema.check_order (s : Schema) (d : Data) :
    (s.check d).Perm (s.issues d) ∧
    ∀ {p q : Nat} {x y : SchemaIssue} {array : List PathStep} {i j : Nat},
      (s.check d)[p]? = some x → (s.check d)[q]? = some y →
      x.IsUnder array i → y.IsUnder array j → i < j →
      (p < q ↔ i ≤ j / 10 ^ (Text.digitCount j - Text.digitCount i)) := by
  refine ⟨List.mergeSort_perm _ _, fun {p q x y array i j} hp hq hx hy h => ?_⟩
  have hne : i ≠ j := Nat.ne_of_lt h
  obtain ⟨hpl, rfl⟩ := List.getElem?_eq_some_iff.1 hp
  obtain ⟨hql, rfl⟩ := List.getElem?_eq_some_iff.1 hq
  have hsorted := List.pairwise_iff_getElem.1 (pairwise_check s d)
  rw [← Text.decimal_lt_decimal_iff h]
  constructor
  · intro hlt
    exact (hx.le_iff hy hne).1 (hsorted p q hpl hql hlt)
  · intro hlt
    by_contra hge
    rcases Nat.lt_or_eq_of_le (Nat.le_of_not_lt hge) with hgt | rfl
    · have := (hy.le_iff hx hne.symm).1 (hsorted q p hql hpl hgt)
      exact absurd hlt (lt_asymm this)
    · -- An issue is under one item of an array only.
      obtain ⟨u, hu⟩ := hx
      obtain ⟨v, hv⟩ := hy
      rw [hu] at hv
      simp only [List.append_cancel_left_eq, List.cons.injEq, PathStep.index.injEq] at hv
      exact hne hv.1

/-- Definitions with eleven node types, none of which is one. -/
def elevenTypes : Data :=
  .map [(.text "schema_version", .text "1"), (.text "metadata", .map []),
    (.text "namespaces", .map []), (.text "node_types", .list (List.replicate 11 .null))]

/-- The issue of the item of index two comes behind that of the item of index ten. -/
theorem Schema.check_order_eleven :
    ∃ (p q : Nat) (x y : SchemaIssue), (definitions.check elevenTypes)[p]? = some x ∧
      (definitions.check elevenTypes)[q]? = some y ∧
      x.IsUnder [.key (.text "node_types")] 2 ∧ y.IsUnder [.key (.text "node_types")] 10 ∧
      ¬2 ≤ 10 / 10 ^ (Text.digitCount 10 - Text.digitCount 2) ∧ ¬p < q := by
  obtain ⟨hperm, horder⟩ := check_order definitions elevenTypes
  have hpaths : ∀ i, i = 2 ∨ i = 10 →
      [.key (.text "node_types"), .index i] ∈ (definitions.issues elevenTypes).map (·.path) := by
    rintro i (rfl | rfl)
    · exact List.mem_of_getElem? (i := 2) (by with_unfolding_all rfl)
    · exact List.mem_of_getElem? (i := 10) (by with_unfolding_all rfl)
  have hissue : ∀ i, i = 2 ∨ i = 10 → ∃ x ∈ definitions.issues elevenTypes,
      x.path = [.key (.text "node_types"), .index i] := fun i hi => List.mem_map.1 (hpaths i hi)
  obtain ⟨x, hx, hxpath⟩ := hissue 2 (.inl rfl)
  obtain ⟨y, hy, hypath⟩ := hissue 10 (.inr rfl)
  obtain ⟨p, hp⟩ := List.mem_iff_getElem?.1 (hperm.mem_iff.2 hx)
  obtain ⟨q, hq⟩ := List.mem_iff_getElem?.1 (hperm.mem_iff.2 hy)
  have hxu : x.IsUnder [.key (.text "node_types")] 2 := ⟨[], hxpath⟩
  have hyu : y.IsUnder [.key (.text "node_types")] 10 := ⟨[], hypath⟩
  have hlead : ¬2 ≤ 10 / 10 ^ (Text.digitCount 10 - Text.digitCount 2) := by decide
  exact ⟨p, q, x, y, hp, hq, hxu, hyu, hlead, fun hlt =>
    hlead ((horder hp hq hxu hyu (by decide)).1 hlt)⟩

end Cnd
