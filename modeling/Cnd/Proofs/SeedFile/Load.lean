import Cnd.CommandLine.Run
import Cnd.Proofs.FileTree.Name
import Cnd.Proofs.SeedFile.Table
import Cnd.Proofs.Yaml.Document
import Cnd.Proofs.Yaml.Steps
import Mathlib

/-!
What becomes of a seed file that is there. It gives a table, or an error that says what is wrong with
the file, or an error that is passed on as it is. The last is so just if the text has something in it
that its readers do not foresee (`Unforeseen`), and then a run of the linter ends without a status
(`load_isPassedOn_iff`).
-/

namespace Cnd

namespace Yaml

theorem ReadFault.isYaml_text {e : SyntaxFault} : (ReadFault.text e).isYaml = false ↔ e ≠ .malformed := by
  cases e <;> simp [isYaml]

theorem ReadFault.isYaml_value {e : ValueFault} : (ReadFault.value e).isYaml = false ↔ e ≠ .misplaced := by
  cases e <;> simp [isYaml]

end Yaml

namespace SeedFile

open Yaml

/-- A text with something in it that its readers do not foresee. -/
inductive Unforeseen (text : List Char) : Prop
  /-- A character or a version is called by a number that is too large. -/
  | number {e : SyntaxFault} (h : Node.ofText text = .error e) (he : e ≠ .malformed)
  /-- A node is said to be a truth value, a number or a date, and is none. -/
  | value {n x : Node} {e : ValueFault} (h : Node.ofText text = .ok (some n))
      (he : n.toData = .error e) (hx : x.IsPart n) (hfault : x.Faulty e)
      (htag : x.tag.isChecked = true)
  /-- An integer that has too many digits to be shown would have to be shown. -/
  | shown {document : Document} (h : Document.ofText text = .ok document)
      (hlong : holdsLongNumber document.data = true)

/-- The bytes of a text with something unforeseen in it. -/
def HoldsUnforeseen (bytes : ByteArray) : Prop :=
  ∃ text, Text.ofBytes bytes = .ok text ∧ Unforeseen text

theorem unforeseen_iff {text : List Char} :
    Unforeseen text ↔ (∃ f, Document.ofText text = .error f ∧ f.isYaml = false) ∨
      ∃ document, Document.ofText text = .ok document ∧ holdsLongNumber document.data = true := by
  simp only [Document.ofText_eq_error_iff]
  constructor
  · rintro (⟨ht, he⟩ | ⟨ht, hd, -, hfault, htag⟩ | ⟨hd, hlong⟩)
    · exact .inl ⟨_, .inl ⟨_, ht, rfl⟩, ReadFault.isYaml_text.2 he⟩
    · exact .inl ⟨_, .inr ⟨_, _, ht, hd, rfl⟩, ReadFault.isYaml_value.2 (hfault.isChecked_iff.2 htag)⟩
    · exact .inr ⟨_, hd, hlong⟩
  · rintro (⟨f, ⟨e, ht, rfl⟩ | ⟨n, e, ht, hd, rfl⟩, hf⟩ | ⟨document, hd, hlong⟩)
    · exact .number ht (ReadFault.isYaml_text.1 hf)
    · have he := ReadFault.isYaml_value.1 hf
      obtain ⟨depth, hmeaning⟩ := Node.toData_eq_error hd
      obtain ⟨x, hx, hfault⟩ := Node.hasFault_of_meaning hmeaning he
      exact .value ht hd hx hfault (hfault.isChecked_iff.1 he)
    · exact .shown hd hlong

/-! ## Loading -/

variable {places : SourceMap} {file : Option FilePath} {base : Option Namespaces}

/-- Declarations that fail do so with a fault that is not passed on. -/
theorem declareAll_eq_error {ns : Namespaces} {es : List (Data × Data)} {f : Fault}
    (h : (declareAll places file ns es).2 = .error f) : f.isPassedOn = false := by
  induction es generalizing ns with
  | nil => simp [declareAll] at h
  | cons e es ih =>
    obtain ⟨pfx, uri⟩ := e
    rw [declareAll] at h
    split at h
    · rw [← Except.error.inj h]
      rfl
    · exact ih h

/-- The fault of data is passed on just if a number cannot be shown. -/
theorem table_isPassedOn_iff {d : Data} :
    (∃ f, (table places file base d).2 = .error f ∧ f.isPassedOn = true) ↔
      holdsLongNumber d = true := by
  by_cases ha : Schema.seedFile.Accepts d
  · have hshort : holdsLongNumber d = false := writes_seedFile.1 ha.writes
    rw [table_of_accepts ha, hshort]
    simp only [Bool.false_eq_true, iff_false]
    rintro ⟨f, hf, hpassed⟩
    rw [declareAll_eq_error hf] at hpassed
    simp at hpassed
  · have hnot : ∃ f, (table places file base d).2 = .error f ∧ f.isPassedOn = holdsLongNumber d :=
      table_of_not_accepts ha
    obtain ⟨f, hf, hpassed⟩ := hnot
    rw [← hpassed, hf]
    simp

variable {loader : Loader} {tree : FileTree} {p : FilePath} {bytes : ByteArray}

theorem load_eq_error_iff {e : LoadError} : (load loader tree base p).2 = .error e ↔
    (∃ f, (loader.load tree p).2.2 = .error f ∧ e = .file f) ∨
    ∃ d f, (loader.load tree p).2.2 = .ok d ∧
      (table d.places (some p) base d.data).2 = .error f ∧ e = .content f := by
  unfold load
  obtain ⟨loader', events, loaded⟩ := loader.load tree p
  cases loaded with
  | error f => simp [eq_comm]
  | ok d =>
    dsimp only
    cases htable : (table d.places (some p) base d.data).2 with
    | error f => simp [htable, eq_comm]
    | ok ns => simp [htable]

/-- What a loader has of a file that is there: what it has kept of it, or what it reads now. -/
theorem load_of_file (hfile : tree.find? p = .ok (some (.file bytes))) :
    (loader.load tree p).2.2 =
      match loader.kept? p with
      | some d => .ok d
      | none => Loader.readFile tree p := by
  unfold Loader.load
  rw [hfile]
  dsimp only
  cases loader.kept? p with
  | some d => rfl
  | none => cases Loader.readFile tree p <;> rfl

theorem readFile_of_read (hread : tree.read p = .ok bytes) :
    Loader.readFile tree p =
      match Text.ofBytes bytes with
      | .error f => .error (.unreadable p (.encoding f))
      | .ok text =>
        match Document.ofText text with
        | .ok d => .ok d
        | .error f => .error (if f.isYaml then .malformed p f else .value f) := by
  rw [Loader.readFile, FileTree.readChars, hread]
  dsimp only
  cases Text.ofBytes bytes <;> rfl

/-- An error of loading a file that is read now is passed on, if a reader does not foresee it; what is
loaded may still hold a number that cannot be shown. -/
theorem holdsUnforeseen_iff (hread : tree.read p = .ok bytes) :
    HoldsUnforeseen bytes ↔
      (∃ f, Loader.readFile tree p = .error f ∧ f.isPassedOn = true) ∨
      ∃ d, Loader.readFile tree p = .ok d ∧ holdsLongNumber d.data = true := by
  rw [readFile_of_read hread, HoldsUnforeseen]
  cases Text.ofBytes bytes with
  | error f => simp [Yaml.LoadError.isPassedOn]
  | ok text =>
    simp only [Except.ok.injEq, exists_eq_left', unforeseen_iff]
    cases Document.ofText text with
    | error f => cases hf : f.isYaml <;> simp [hf, Yaml.LoadError.isPassedOn]
    | ok d => simp

/-- What a loader has of a file leads to an error that is passed on. -/
def PassesOn (loader : Loader) (p : FilePath) (bytes : ByteArray) : Prop :=
  match loader.kept? p with
  | some d => holdsLongNumber d.data = true
  | none => HoldsUnforeseen bytes

theorem passesOn_iff (hfile : tree.find? p = .ok (some (.file bytes)))
    (hread : tree.read p = .ok bytes) :
    (∃ e, (load loader tree base p).2 = .error e ∧ e.isPassedOn = true) ↔
      PassesOn loader p bytes := by
  have hloaded : PassesOn loader p bytes ↔
      (∃ f, (loader.load tree p).2.2 = .error f ∧ f.isPassedOn = true) ∨
      ∃ d, (loader.load tree p).2.2 = .ok d ∧ holdsLongNumber d.data = true := by
    rw [load_of_file hfile, PassesOn]
    cases loader.kept? p with
    | some d => simp
    | none => exact holdsUnforeseen_iff hread
  rw [hloaded]
  constructor
  · rintro ⟨e, he, hpassed⟩
    rcases load_eq_error_iff.1 he with ⟨f, hf, rfl⟩ | ⟨d, f, hd, hf, rfl⟩
    · exact .inl ⟨f, hf, hpassed⟩
    · exact .inr ⟨d, hd, table_isPassedOn_iff.1 ⟨f, hf, hpassed⟩⟩
  · rintro (⟨f, hf, hpassed⟩ | ⟨d, hd, hlong⟩)
    · exact ⟨.file f, load_eq_error_iff.2 (.inl ⟨f, hf, rfl⟩), hpassed⟩
    · obtain ⟨f, hf, hpassed⟩ := table_isPassedOn_iff.2 hlong
      exact ⟨.content f, load_eq_error_iff.2 (.inr ⟨d, f, hd, hf, rfl⟩), hpassed⟩

/-! ## Runs -/

open CommandLine

/-- Linting refuses nothing and reads no seed file. -/
theorem status_lint (s : Log.Streams) (settings : Settings) (now : String) (a : Arguments)
    (tree : FileTree) (seed : Option Namespaces) :
    (lint s settings now a tree seed).status ≠ .ok refused ∧
      ∀ e, (lint s settings now a tree seed).status ≠ .error (.seed e) := by
  unfold lint
  dsimp only
  -- no path that can be searched, no files, or files that are linted
  split
  · simp
  · simp [failed, refused]
  · split
    · simp
    · split
      · simp only [Outcome.after]
        unfold exportAll
        split
        · simp [success, succeeded, refused]
        · dsimp only
          split
          · simp
          · simp [Outcome.after, success, succeeded, refused]
      · simp [failed, refused]

theorem kept?_new (caching : Bool) (p : FilePath) : (Loader.new caching).kept? p = none := by
  cases caching <;> rfl

/-- How a run with a seed file ends: without a status, if an error of the file is passed on, and
refused, if there is another error. -/
theorem status_run {env : Environment} {args : List String} {a : Arguments} {path : String}
    (hargs : Request.ofArguments args = .lint a)
    (hpath : a.namespaces.filter (!·.isEmpty) = some path) (now : String) :
    let result := (load (.new (Settings.readLenient env).1.cacheEnabled) tree none (.ofString path)).2
    ((run env now args tree).status = .ok refused ↔
      ∃ e, result = .error e ∧ e.isPassedOn = false) ∧
    ∀ e, (run env now args tree).status = .error (.seed e) ↔
      result = .error e ∧ e.isPassedOn = true := by
  intro result
  simp only [run, hargs, seedAndLint, hpath, result]
  cases (load (.new (Settings.readLenient env).1.cacheEnabled) tree none (.ofString path)).2 with
  | ok ns =>
    obtain ⟨hrefused, hseed⟩ := status_lint (streams (Settings.readLenient env).1 a.format)
      (Settings.readLenient env).1 now a tree (some ns)
    simp [Outcome.after, hrefused, hseed]
  | error e => cases he : e.isPassedOn <;> simp [he]

/-- A text with a date of a month that is none. -/
def monthText : String := "namespaces: 2024-13-01\n"

def monthTree : FileTree := ⟨[(["s.yaml"], .file monthText.toUTF8)]⟩

def monthFile : FilePath := ⟨"", ["s.yaml"]⟩

def monthNode : Node :=
  .mapping .map [(.scalar .str "namespaces" ⟨0, 0⟩, .scalar .timestamp "2024-13-01" ⟨0, 12⟩)] ⟨0, 0⟩

def monthTokens : List Yaml.Token :=
  [⟨.mappingStart, ⟨0, 0⟩, ⟨0, 0⟩⟩, ⟨.key, ⟨0, 0⟩, ⟨0, 0⟩⟩,
   ⟨.scalar "namespaces" true, ⟨0, 0⟩, ⟨0, 10⟩⟩, ⟨.value, ⟨0, 10⟩, ⟨0, 11⟩⟩,
   ⟨.scalar "2024-13-01" true, ⟨0, 12⟩, ⟨1, 0⟩⟩, ⟨.blockEnd, ⟨1, 0⟩, ⟨1, 0⟩⟩,
   ⟨.textEnd, ⟨1, 0⟩, ⟨1, 0⟩⟩]

theorem ofText_month : Node.ofText monthText.toList = .ok (some monthNode) := by
  have htokens : Tokens.ofText monthText.toList = ⟨monthTokens, none⟩ :=
    Tokens.ofText_of_complete (by decide) rfl (by decide) (by decide)
      (by decide)
  rw [Node.ofText, htokens]
  rfl

theorem holdsUnforeseen_month : HoldsUnforeseen monthText.toUTF8 := by
  have hbytes : Text.ofBytes monthText.toUTF8 = .ok monthText.toList := by
    rw [Text.ofBytes_toUTF8, Text.unifyLineBreaks_eq_self (by decide)]
  have hdata : monthNode.toData = .error (.field .month) := by cbv
  have hvalue : Scalar.value .timestamp "2024-13-01" = .error (.field .month) := by cbv
  have hpart : Node.IsPart (.scalar .timestamp "2024-13-01" ⟨0, 12⟩) monthNode :=
    .single (.value (List.mem_singleton.2 rfl))
  exact ⟨_, hbytes, .value ofText_month hdata hpart (.scalar hvalue) rfl⟩

theorem isEntryName_month : FileTree.IsEntryName "s.yaml" :=
  ⟨by decide, by decide, by decide, by decide⟩

theorem find_month : monthTree.find? monthFile = .ok (some (.file monthText.toUTF8)) :=
  isEntryName_month.find? rfl

theorem read_month : monthTree.read monthFile = .ok monthText.toUTF8 := isEntryName_month.read rfl

end SeedFile

end Cnd
