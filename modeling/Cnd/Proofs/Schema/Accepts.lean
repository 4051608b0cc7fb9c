import Cnd.Schema.Basic
import Mathlib.Data.List.Basic

/-!
When a value meets a schema: it has no issue with any of the rules. There is one lemma for each rule,
that says which values those are.
-/

namespace Cnd.Schema

/-- A value without an issue. -/
def Accepts (s : Schema) (d : Data) : Prop := s.issues d = []

attribute [local simp] Accepts issues memberIssues allIssues

theorem check_eq_nil_iff {s : Schema} {d : Data} : s.check d = [] ↔ s.Accepts d := by
  rw [check, ← List.length_eq_zero_iff, List.length_mergeSort, List.length_eq_zero_iff, Accepts]

/-- A rule with one issue, unless a condition is met. -/
theorem unless_eq_nil_iff {p : Prop} [Decidable p] {i : SchemaIssue} :
    (if p then [] else [i]) = [] ↔ p := by
  split <;> simp_all

theorem accepts_kind {kinds : List DataKind} {d : Data} :
    (kind kinds).Accepts d ↔ ∃ k ∈ kinds, k.holds d = true := by
  rw [Accepts, issues, kindIssues, unless_eq_nil_iff, List.any_eq_true]

theorem accepts_required {names : List String} {d : Data} :
    (required names).Accepts d ↔
      ∀ entries, d = .map entries → ∀ n ∈ names, (d.member? n).isSome = true := by
  rw [Accepts, issues]
  cases d with
  | map entries =>
    simp [requiredIssues, Data.member?, List.filter_eq_nil_iff, Option.isSome_iff_ne_none]
  | _ => simp [requiredIssues]

theorem accepts_closed {known : List String} {d : Data} :
    (closed known).Accepts d ↔
      ∀ entries, d = .map entries → ∀ e ∈ entries, isKnown known e.1 = true := by
  rw [Accepts, issues]
  cases d with
  | map entries =>
    simp only [closedIssues, unless_eq_nil_iff, unknownKeys, List.isEmpty_iff,
      List.filter_eq_nil_iff, List.forall_mem_map, Bool.not_eq_true, Bool.not_eq_false',
      Data.map.injEq, forall_eq']
  | _ => simp [closedIssues]

theorem accepts_members {known : List (String × Schema)} {d : Data} :
    (members known).Accepts d ↔ ∀ m ∈ known, ∀ x ∈ d.member? m.1, m.2.Accepts x := by
  simp only [Accepts, issues]
  induction known with
  | nil => simp
  | cons m known ih =>
    rw [memberIssues, List.append_eq_nil_iff, ih, List.forall_mem_cons]
    cases d.member? m.1 <;> simp

theorem accepts_others {known : List String} {s : Schema} {d : Data} :
    (others known s).Accepts d ↔
      ∀ entries, d = .map entries → ∀ e ∈ entries, isKnown known e.1 = false → s.Accepts e.2 := by
  cases d with
  | map entries => simp
  | _ => simp

theorem accepts_keys {s : Schema} {d : Data} :
    (keys s).Accepts d ↔ ∀ entries, d = .map entries → ∀ e ∈ entries, s.Accepts e.1 := by
  cases d with
  | map entries => simp
  | _ => simp

theorem accepts_items {s : Schema} {d : Data} :
    (items s).Accepts d ↔ ∀ xs, d = .list xs → ∀ x ∈ xs, s.Accepts x := by
  cases d with
  | list xs =>
    simp only [Accepts, issues, List.flatMap_eq_nil_iff, List.map_eq_nil_iff, Data.list.injEq,
      forall_eq']
    constructor
    · intro h x hx
      obtain ⟨i, hi, rfl⟩ := List.mem_iff_getElem.1 hx
      exact h (xs[i], i) (List.mem_zipIdx_iff_getElem?.2 (List.getElem?_eq_getElem hi))
    · intro h x hx
      exact h x.1 (List.fst_mem_of_mem_zipIdx hx)
  | _ => simp

theorem accepts_nonEmpty {d : Data} : nonEmpty.Accepts d ↔ d ≠ .list [] := by
  cases d with
  | list xs => cases xs <;> simp [nonEmptyIssues]
  | _ => simp [nonEmptyIssues]

theorem accepts_oneOf {texts : List String} {d : Data} :
    (oneOf texts).Accepts d ↔ ∃ s ∈ texts, d = .text s := by
  rw [Accepts, issues, oneOfIssues, unless_eq_nil_iff]
  cases d <;> simp [isKnown]

theorem accepts_form {f : TextForm} {d : Data} :
    (form f).Accepts d ↔ ∀ s, d = .text s → f.accepts s.toList = true := by
  rw [Accepts, issues]
  cases d with
  | text s => simp only [formIssues, unless_eq_nil_iff, Data.text.injEq, forall_eq']
  | _ => simp [formIssues]

theorem accepts_all {rules : List Schema} {d : Data} :
    (all rules).Accepts d ↔ rules.Forall (·.Accepts d) := by
  rw [List.forall_iff_forall_mem]
  simp only [Accepts, issues]
  induction rules with
  | nil => simp
  | cons r rules ih => rw [allIssues, List.append_eq_nil_iff, ih, List.forall_mem_cons]

end Cnd.Schema
