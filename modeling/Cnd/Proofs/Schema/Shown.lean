import Cnd.Proofs.Schema.Accepts
import Cnd.Schema.Documents

/-!
Which values the issues with a value show. Not all integers can be shown; there is one lemma for each
rule that says when all issues with it can be put in words.
-/

namespace Cnd

theorem Data.entriesWritable_eq (es : List (Data × Data)) :
    entriesWritable es = es.all fun e => e.1.isWritable && e.2.isWritable := by
  induction es with
  | nil => rfl
  | cons e es ih => rw [entriesWritable, ih, List.all_cons]

theorem Data.isWritable_map {es : List (Data × Data)} :
    (map es).isWritable = true ↔ ∀ e ∈ es, e.1.isWritable = true ∧ e.2.isWritable = true := by
  show entriesWritable es = true ↔ _
  simp [entriesWritable_eq]

namespace SchemaIssue

theorem isWritable_iff {i : SchemaIssue} :
    i.isWritable = true ↔ (∀ d ∈ i.shown, d.isWritable = true) ∧
      ∀ s ∈ i.path, s.isWritable = true := by
  simp [isWritable]

theorem isWritable_under {steps : List PathStep} {i : SchemaIssue} :
    (i.under steps).isWritable = true ↔
      (∀ s ∈ steps, s.isWritable = true) ∧ i.isWritable = true := by
  rw [isWritable_iff, isWritable_iff, under, List.forall_mem_append]
  tauto

theorem isWritable_here {message : String} {shown : List Data} :
    (here message shown).isWritable = true ↔ ∀ d ∈ shown, d.isWritable = true := by
  simp [isWritable_iff, here]

end SchemaIssue

namespace Schema

/-- All issues with a value can be put in words. -/
def Writes (s : Schema) (d : Data) : Prop := ∀ i ∈ s.issues d, i.isWritable = true

theorem Accepts.writes {s : Schema} {d : Data} (h : s.Accepts d) : s.Writes d := by
  rw [Accepts] at h
  simp [Writes, h]

theorem writes_kind {kinds : List DataKind} {d : Data} :
    (kind kinds).Writes d ↔ (kind kinds).Accepts d ∨ d.isWritable = true := by
  rw [Writes, Accepts, issues, kindIssues]
  split
  · simp
  · simp [SchemaIssue.isWritable_here]

theorem writes_required (names : List String) (d : Data) : (required names).Writes d := by
  rw [Writes, issues]
  unfold requiredIssues
  split
  · exact List.forall_mem_map.2 fun n _ => SchemaIssue.isWritable_here.2 (by simp)
  · simp

theorem writes_closed {known : List String} {es : List (Data × Data)} :
    (closed known).Writes (.map es) ↔
      ∀ e ∈ es, isKnown known e.1 = false → e.1.isWritable = true := by
  have hextras : (∀ d ∈ unknownKeys known es, d.isWritable = true) ↔
      ∀ e ∈ es, isKnown known e.1 = false → e.1.isWritable = true := by
    simp only [unknownKeys, List.mem_filter, List.mem_map, Bool.not_eq_true']
    constructor
    · exact fun h e he hk => h e.1 ⟨⟨e, he, rfl⟩, hk⟩
    · rintro h d ⟨⟨e, he, rfl⟩, hk⟩
      exact h e he hk
  rw [← hextras, Writes, issues, closedIssues]
  by_cases hnone : unknownKeys known es = []
  · simp [hnone]
  · simp [hnone, SchemaIssue.isWritable_here]

theorem writes_members {known : List (String × Schema)} {d : Data} :
    (members known).Writes d ↔ ∀ m ∈ known, ∀ x ∈ d.member? m.1, m.2.Writes x := by
  simp only [Writes, issues]
  induction known with
  | nil => simp [memberIssues]
  | cons m known ih =>
    rw [memberIssues, List.forall_mem_append, ih, List.forall_mem_cons]
    refine and_congr_left fun _ => ?_
    cases d.member? m.1 with
    | none => simp
    | some x => simp [SchemaIssue.isWritable_under, PathStep.isWritable, Data.isWritable]

theorem writes_keys {s : Schema} {es : List (Data × Data)} :
    (keys s).Writes (.map es) ↔ ∀ e ∈ es, s.Writes e.1 := by
  simp only [Writes, issues, List.mem_flatMap]
  exact ⟨fun h e he i hi => h i ⟨e, he, hi⟩, fun h i ⟨e, he, hi⟩ => h e he i hi⟩

theorem isKnown_nil (k : Data) : isKnown [] k = false := by
  cases k <;> rfl

/-- A value that is at odds with the rule for the members of other names is shown behind its key. -/
theorem writes_others {s : Schema} {es : List (Data × Data)} :
    (others [] s).Writes (.map es) ↔ ∀ e ∈ es, ∀ i ∈ s.issues e.2,
      (∀ step ∈ PathStep.ofKey e.1, step.isWritable = true) ∧ i.isWritable = true := by
  simp only [Writes, issues, isKnown_nil, Bool.not_false, List.filter_true, List.mem_flatMap,
    List.mem_map]
  constructor
  · exact fun h e he i hi => SchemaIssue.isWritable_under.1 (h _ ⟨e, he, i, hi, rfl⟩)
  · rintro h _ ⟨e, he, i, hi, rfl⟩
    exact SchemaIssue.isWritable_under.2 (h e he i hi)

theorem writes_form (f : TextForm) (d : Data) : (form f).Writes d := by
  rw [Writes, issues]
  unfold formIssues
  split
  · split <;> simp [SchemaIssue.isWritable_here]
  · simp

theorem writes_all {rules : List Schema} {d : Data} :
    (all rules).Writes d ↔ rules.Forall (·.Writes d) := by
  rw [List.forall_iff_forall_mem]
  simp only [Writes, issues]
  induction rules with
  | nil => simp [allIssues]
  | cons r rules ih => rw [allIssues, List.forall_mem_append, ih, List.forall_mem_cons]

end Schema

end Cnd
