import Cnd.Lint.Files
import Cnd.Proofs.Elaboration.Failure
import Cnd.Proofs.FileTree

/-!
What reading and linting can end with.

A text is read, or has an error; a list of files has a report on each of them. Two things break
this, and nothing else: the pattern of a constraint may have a number that is too large, and a path
may hold a null character. `only_errors_iff` says exactly when.
-/

namespace Cnd

namespace Definitions

/-- A text in which a constraint is passed on, and what is in front of it means something. -/
def PassesOn (policy : ConflictPolicy) (ns : Namespaces) (text : String) (f : Failure) : Prop :=
  Meaning.PassesOn policy ns (Outline.ofTokens (Token.scan text.toList).tokens).begun f

theorem not_isParse_of_cut {f : Failure} {ms front : List MemberClause}
    (h : Meaning.Cut f ms front) : ¬ f.IsParse := by
  induction h with
  | here _ h =>
    obtain ⟨o, -, rfl⟩ := h
    rintro ⟨e, he⟩
    simp at he
  | later _ ih => exact ih

theorem PassesOn.not_isParse {policy : ConflictPolicy} {ns : Namespaces} {text : String}
    {f : Failure} (h : PassesOn policy ns text f) : ¬ f.IsParse := by
  obtain ⟨_, _, _, _, _, -, -, front, _, hcut, -⟩ := h
  exact not_isParse_of_cut hcut

theorem read_eq_error {source : String} {policy : ConflictPolicy} {ns : Namespaces}
    {text : String} {f : Failure} (hf : ¬ f.IsParse) :
    (read source policy ns text).outcome = .error f ↔ PassesOn policy ns text f := by
  have houtline : (Elaboration.outline (some source) policy (Token.scan text.toList).fault
      (.ofTokens (Token.scan text.toList).tokens) ns).outcome = .error f ↔
      PassesOn policy ns text f := Meaning.outline_eq_error hf
  rw [← houtline]
  simp only [read]
  split
  · rename_i e he
    simp [he]
  · rename_i types ns' hd
    simp [hd]

/-- Reading a text ends with another failure than an error of the text just where it passes one on. -/
theorem readWith_error_iff (source : String) {policy : ConflictPolicy} {seed : Option Namespaces}
    {text : String} {f : Failure} :
    ((readWith source policy seed text).outcome = .error f ∧ ¬ f.IsParse) ↔
      PassesOn policy (seed.getD .builtin) text f := by
  have hread : ¬ f.IsParse → ((readWith source policy seed text).outcome = .error f ↔
      PassesOn policy (seed.getD .builtin) text f) := by
    intro hf
    cases seed with
    | some ns => exact read_eq_error hf
    | none => exact read_eq_error hf
  constructor
  · rintro ⟨h, hf⟩
    exact (hread hf).1 h
  · intro h
    exact ⟨(hread h.not_isParse).2 h, h.not_isParse⟩

theorem readWith_only_errors_iff {source : String} {policy : ConflictPolicy}
    {seed : Option Namespaces} {text : String} :
    ((∃ d, (readWith source policy seed text).outcome = .ok d) ∨
      ∃ e, (readWith source policy seed text).outcome = .error (.parse e)) ↔
      ∀ f, ¬ PassesOn policy (seed.getD .builtin) text f := by
  simp only [← readWith_error_iff source]
  cases (readWith source policy seed text).outcome with
  | ok d => simp
  | error f => simp [Failure.IsParse]

/-- A file that cannot be read without an error of the file: its path holds a null character, or
its text passes on a failure. -/
def FilePassesOn (tree : FileTree) (policy : ConflictPolicy) (ns : Namespaces) (p : FilePath)
    (f : Failure) : Prop :=
  ('\x00' ∈ p.text.toList ∧ f = .nullInPath) ∨
    ∃ text, tree.readChars p = .ok text ∧ PassesOn policy ns (String.ofList text) f

theorem unreadable_eq (p : FilePath) (e : TextFileError) :
    (unreadable p e = .nullInPath ∧ ∃ shown, e = .file ⟨.nullChar, shown⟩) ∨
      ((unreadable p e).IsParse ∧ ∀ shown, e ≠ .file ⟨.nullChar, shown⟩) := by
  unfold unreadable
  split
  · exact .inl ⟨rfl, _, rfl⟩
  · rename_i h
    exact .inr ⟨⟨_, rfl⟩, h⟩

theorem load_error_iff {tree : FileTree} {policy : ConflictPolicy} {seed : Option Namespaces}
    {p : FilePath} {f : Failure} :
    ((load tree policy seed p).outcome = .error f ∧ ¬ f.IsParse) ↔
      FilePassesOn tree policy (seed.getD .builtin) p f := by
  rw [FilePassesOn, ← FileTree.readChars_nullChar_iff (t := tree)]
  unfold load
  cases hr : tree.readChars p with
  | ok text =>
    simp only [readWith_error_iff, reduceCtorEq, exists_false, false_and, false_or,
      Except.ok.injEq, exists_eq_left']
  | error e =>
    simp only [Except.error.injEq, reduceCtorEq, false_and, exists_false, or_false]
    rcases unreadable_eq p e with ⟨hu, hnull⟩ | ⟨hu, hother⟩
    · rw [hu]
      constructor
      · rintro ⟨rfl, -⟩
        exact ⟨hnull, rfl⟩
      · rintro ⟨-, rfl⟩
        refine ⟨rfl, ?_⟩
        rintro ⟨e, he⟩
        simp at he
    · constructor
      · rintro ⟨rfl, hf⟩
        exact absurd hu hf
      · rintro ⟨⟨shown, he⟩, -⟩
        exact absurd he (hother shown)

theorem tryLoad_outcome {tree : FileTree} {policy : ConflictPolicy} {seed : Option Namespaces}
    {p : FilePath} :
    (tryLoad tree policy seed p).outcome = (load tree policy seed p).outcome := by
  simp only [tryLoad]
  split <;> rfl

end Definitions

namespace Lint

open Definitions (FilePassesOn)

theorem file_of_lintFile {tree : FileTree} {policy : ConflictPolicy} {seed : Option Namespaces}
    {p : FilePath} {r : FileReport} (h : (lintFile tree policy seed p).outcome = .ok r) :
    r.file = p := by
  simp only [lintFile] at h
  split at h
  · rw [← Except.ok.inj h]
    rfl
  · rw [← Except.ok.inj h]
  · simp at h

theorem lintFile_error_iff {tree : FileTree} {policy : ConflictPolicy} {seed : Option Namespaces}
    {p : FilePath} {f : Failure} :
    (lintFile tree policy seed p).outcome = .error f ↔
      FilePassesOn tree policy (seed.getD .builtin) p f := by
  rw [← Definitions.load_error_iff, ← Definitions.tryLoad_outcome]
  simp only [lintFile]
  split
  · rename_i hd
    simp [hd]
  · rename_i e he
    simp only [he, reduceCtorEq, Except.error.injEq, false_iff, not_and, not_not]
    rintro rfl
    exact ⟨e, rfl⟩
  · rename_i g hother hg
    simp only [hg, Except.error.injEq, iff_self_and]
    rintro rfl ⟨e, rfl⟩
    exact hother e rfl

/-- Files are reported on one by one and in order, unless one of them cannot be. -/
theorem lintFiles_eq_ok {tree : FileTree} {policy : ConflictPolicy} {seed : Option Namespaces}
    {paths : List FilePath} {reports : List FileReport} :
    (lintFiles tree policy seed paths).outcome = .ok reports ↔
      List.Forall₂ (fun p r => (lintFile tree policy seed p).outcome = .ok r) paths reports := by
  induction paths generalizing reports with
  | nil => simp [lintFiles, eq_comm]
  | cons p paths ih =>
    simp only [lintFiles, List.forall₂_cons_left_iff]
    cases hp : (lintFile tree policy seed p).outcome with
    | error f => simp
    | ok r =>
      simp only [map_eq_ok, ih, Except.ok.injEq]
      constructor
      · rintro ⟨rs, hrs, rfl⟩
        exact ⟨r, rs, rfl, hrs, rfl⟩
      · rintro ⟨r, rs, rfl, hrs, rfl⟩
        exact ⟨rs, hrs, rfl⟩

theorem files_of_lintFiles {tree : FileTree} {policy : ConflictPolicy} {seed : Option Namespaces}
    {paths : List FilePath} {reports : List FileReport}
    (h : (lintFiles tree policy seed paths).outcome = .ok reports) :
    reports.map (·.file) = paths := by
  have hall := lintFiles_eq_ok.1 h
  induction hall with
  | nil => rfl
  | cons hr hrest ih => rw [List.map_cons, file_of_lintFile hr, ih (lintFiles_eq_ok.2 hrest)]

theorem lintFiles_isOk_iff {tree : FileTree} {policy : ConflictPolicy} {seed : Option Namespaces}
    {paths : List FilePath} : (∃ reports, (lintFiles tree policy seed paths).outcome = .ok reports) ↔
      ∀ p ∈ paths, ∃ r, (lintFile tree policy seed p).outcome = .ok r := by
  simp only [lintFiles_eq_ok]
  induction paths with
  | nil => simp
  | cons p paths ih =>
    simp only [List.forall₂_cons_left_iff, List.mem_cons, forall_eq_or_imp, ← ih]
    constructor
    · rintro ⟨_, r, rs, hr, hrs, rfl⟩
      exact ⟨⟨r, hr⟩, rs, hrs⟩
    · rintro ⟨⟨r, hr⟩, rs, hrs⟩
      exact ⟨r :: rs, r, rs, hr, hrs, rfl⟩

theorem lintFiles_only_errors_iff {tree : FileTree} {policy : ConflictPolicy}
    {seed : Option Namespaces} {paths : List FilePath} :
    (∃ reports, (lintFiles tree policy seed paths).outcome = .ok reports ∧
      reports.map (·.file) = paths) ↔
      ∀ p ∈ paths, ∀ f, ¬ FilePassesOn tree policy (seed.getD .builtin) p f := by
  have hfiles : (∃ reports, (lintFiles tree policy seed paths).outcome = .ok reports ∧
      reports.map (·.file) = paths) ↔
      ∃ reports, (lintFiles tree policy seed paths).outcome = .ok reports :=
    ⟨fun ⟨rs, h, _⟩ => ⟨rs, h⟩, fun ⟨rs, h⟩ => ⟨rs, h, files_of_lintFiles h⟩⟩
  rw [hfiles, lintFiles_isOk_iff]
  simp only [← lintFile_error_iff]
  refine forall₂_congr fun p _ => ?_
  cases (lintFile tree policy seed p).outcome with
  | ok r => simp
  | error f => simp

end Lint

end Cnd
