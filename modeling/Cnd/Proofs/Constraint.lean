import Cnd.ParseError
import Cnd.Proofs.Except

/-!
Which constraints cannot be read at all.

Almost all that can be wrong with the text of a constraint is an error of that text. The exception
is a number that a pattern cannot count with: it is passed on as it is, and only a property of
texts or of no type has its constraints read as patterns (`read_overflow_iff`).
-/

namespace Cnd

/-- Whether a fault comes from a pattern. -/
def ConstraintFault.isPattern : ConstraintFault → Bool
  | .pattern _ _ => true
  | _ => false

namespace Constraint

/-- The text of a constraint is read as a pattern, and has a number that is too large. -/
def Overflows (type : PropertyType) (text : String) (o : Pattern.Overflow) : Prop :=
  (type = .string ∨ type = .undefined) ∧ Pattern.read text.toList = .error (.overflow o)

theorem literalBound_error {α : Type} {read : String → Except LiteralFault α} {text : String}
    {f : ConstraintFault} (h : literalBound read text = .error f) : f.isPattern = false := by
  unfold literalBound at h
  split at h
  · simp at h
  · rw [← Except.error.inj h]
    rfl

theorem lengthBound_error {text : String} {f : ConstraintFault}
    (h : lengthBound text = .error f) : f.isPattern = false := by
  unfold lengthBound at h
  split at h
  · rw [← Except.error.inj h]
    rfl
  · split at h
    · rw [← Except.error.inj h]
      rfl
    · simp at h

theorem readBound_error {α : Type} {read : String → Except ConstraintFault α} {part : String}
    {f : ConstraintFault} (hread : ∀ s f, read s = .error f → f.isPattern = false)
    (h : readBound read part = .error f) : f.isPattern = false := by
  unfold readBound at h
  split at h
  · simp at h
  · cases hr : read part with
    | ok a => simp [hr, Except.map] at h
    | error e =>
      rw [hr] at h
      rw [← Except.error.inj h]
      exact hread part e hr

theorem readInterval_error {α : Type} {read : String → Except ConstraintFault α}
    {c : Interval.Comparison α} {text : String} {f : ConstraintFault}
    (hread : ∀ s f, read s = .error f → f.isPattern = false)
    (h : readInterval read c text = .error f) : f.isPattern = false := by
  unfold readInterval at h
  split at h
  · rw [← Except.error.inj h]
    rfl
  rename_i parts _
  cases hl : readBound read parts.lower with
  | error e =>
    rw [hl] at h
    rw [← Except.error.inj h]
    exact readBound_error hread hl
  | ok lower =>
    cases hu : readBound read parts.upper with
    | error e =>
      rw [hl, hu] at h
      rw [← Except.error.inj h]
      exact readBound_error hread hu
    | ok upper =>
      simp only [hl, hu, bind, Except.bind] at h
      split at h
      · rw [← Except.error.inj h]
        rfl
      · split at h
        · rw [← Except.error.inj h]
          rfl
        · simp at h
      · simp at h

theorem readName_error {ns : Namespaces} {text : String} {f : ConstraintFault}
    (h : readName ns text = .error f) : f.isPattern = false := by
  unfold readName at h
  split at h
  · simp at h
  · rw [← Except.error.inj h]
    rfl

theorem readPath_error {ns : Namespaces} {text : String} {f : ConstraintFault}
    (h : readPath ns text = .error f) : f.isPattern = false := by
  simp only [readPath] at h
  split at h
  · simp at h
  · rw [← Except.error.inj h]
    rfl

theorem readRequirement_error {ns : Namespaces} {type : PropertyType} {text : String}
    {f : ConstraintFault} (h : readRequirement ns type text = .error f)
    (hp : f.isPattern = true) : (type = .string ∨ type = .undefined) ∧
      readPattern text = .error f := by
  cases type with
  | string => exact ⟨.inl rfl, h⟩
  | undefined => exact ⟨.inr rfl, h⟩
  | long | double | date =>
    have := readInterval_error (fun _ _ => literalBound_error) (map_eq_error.1 h)
    simp [this] at hp
  | binary =>
    have := readInterval_error (fun _ _ => lengthBound_error) (map_eq_error.1 h)
    simp [this] at hp
  | boolean =>
    have := literalBound_error (map_eq_error.1 h)
    simp [this] at hp
  | name | reference =>
    have := readName_error (map_eq_error.1 h)
    simp [this] at hp
  | path =>
    have := readPath_error h
    simp [this] at hp

theorem isPattern_of_overflow {e : ConstraintError} {o : Pattern.Overflow}
    (h : e.overflow? = some o) : ∃ text, e.fault = .pattern text (.overflow o) := by
  unfold ConstraintError.overflow? at h
  split at h
  · rename_i text o' hf
    rw [Option.some.inj h] at hf
    exact ⟨text, hf⟩
  · simp at h

/-- A constraint is passed on just if it is a pattern that overflows. -/
theorem read_overflow_iff (ns : Namespaces) {type : PropertyType} {text : String}
    {o : Pattern.Overflow} :
    (∃ e, read ns type text = .error e ∧ e.overflow? = some o) ↔ Overflows type text o := by
  unfold read
  constructor
  · rintro ⟨e, he, ho⟩
    obtain ⟨t, hf⟩ := isPattern_of_overflow ho
    split at he
    · simp at he
    · rename_i fault hr
      rw [← Except.error.inj he] at hf
      simp only at hf
      rw [hf] at hr
      obtain ⟨htype, hp⟩ := readRequirement_error hr rfl
      refine ⟨htype, ?_⟩
      unfold readPattern at hp
      split at hp
      · simp at hp
      · rename_i fault' hfault
        rw [hfault, (ConstraintFault.pattern.inj (Except.error.inj hp)).2]
  · rintro ⟨htype, hp⟩
    have hr : readRequirement ns type text = .error (.pattern text (.overflow o)) := by
      have : readPattern text = .error (.pattern text (.overflow o)) := by simp [readPattern, hp]
      rcases htype with rfl | rfl <;> exact this
    rw [hr]
    exact ⟨_, rfl, rfl⟩

theorem read_only_errors_iff {ns : Namespaces} {type : PropertyType} {text : String} :
    ((∃ c, read ns type text = .ok c) ∨
      ∃ e, read ns type text = .error e ∧ e.overflow? = none) ↔
      ∀ o, ¬ Overflows type text o := by
  simp only [← read_overflow_iff ns]
  cases read ns type text with
  | ok c => simp
  | error e => simp [Option.eq_none_iff_forall_ne_some]

end Constraint

end Cnd
