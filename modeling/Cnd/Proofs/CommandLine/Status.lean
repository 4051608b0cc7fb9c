import Cnd.Proofs.CommandLine.Output
import Cnd.Proofs.Elaboration.Known
import Cnd.Proofs.Lint.Found
import Cnd.Proofs.Reading.Failure

/-!
The status of a run, and what it exports.

A run that ends with a status has a bad seed file, or finds files and reads each of them or an error in
it (`lintFile_cases`). Its status says which (`lint_cases`), and what is exported are the records of all
definitions, where the status is that of success (`status_and_export`). Suspicions and warnings about
paths are in none of this.
-/

namespace Cnd

namespace Lint

variable {tree : FileTree} {policy : ConflictPolicy} {seed : Option Namespaces} {p : FilePath}
  {files : List FilePath} {reports : List FileReport}

/-! ## Files that are read, and files with an error -/

/-- A file is read: its definitions are those of the node types in its text, in their order. -/
def Reads (tree : FileTree) (policy : ConflictPolicy) (seed : Option Namespaces) (p : FilePath)
    (d : Definitions) : Prop :=
  (Definitions.load tree policy seed p).outcome = .ok d ∧
    ∃ text, tree.readChars p = .ok text ∧
      List.Forall₂ (fun c t => ∃ ns, Meaning.IsNodeType ns c t)
        (Definitions.typeClauses (String.ofList text)) d.types

/-- A file cannot be read, or has an error in its text. -/
def HasError (tree : FileTree) (policy : ConflictPolicy) (seed : Option Namespaces) (p : FilePath) :
    Prop :=
  ∃ e, (Definitions.load tree policy seed p).outcome = .error (.parse e)

theorem reads_of_load {d : Definitions} (h : (Definitions.load tree policy seed p).outcome = .ok d) :
    Reads tree policy seed p d := by
  refine ⟨h, ?_⟩
  unfold Definitions.load at h
  split at h
  · simp at h
  rename_i text htext
  obtain ⟨tokens, clauses, -, hclauses, hmeans⟩ := Definitions.means_of_readWith h
  refine ⟨text, htext, ?_⟩
  rw [hclauses]
  obtain ⟨-, htypes⟩ := hmeans.types (fun _ _ => True) (fun _ => trivial) (fun _ _ _ _ _ => trivial)
    fun _ => trivial
  exact htypes.imp fun _ _ ⟨ns, hmeans, _⟩ => ⟨ns, hmeans⟩

theorem Reads.not_hasError {d : Definitions} (h : Reads tree policy seed p d) :
    ¬HasError tree policy seed p := by
  rintro ⟨e, he⟩
  rw [h.1] at he
  simp at he

/-- The report on a file is that on its definitions, or says its error. -/
theorem lintFile_cases {r : FileReport} (h : (lintFile tree policy seed p).outcome = .ok r) :
    (∃ d, Reads tree policy seed p d ∧ r = reportOn p d) ∨
      HasError tree policy seed p ∧ r.isOk = false := by
  rw [HasError, ← Definitions.tryLoad_outcome]
  simp only [lintFile] at h
  split at h
  · rename_i d hd
    rw [Definitions.tryLoad_outcome] at hd
    exact .inl ⟨d, reads_of_load hd, (Except.ok.inj h).symm⟩
  · rename_i e he
    obtain rfl := Except.ok.inj h
    exact .inr ⟨⟨e, he⟩, rfl⟩
  · simp at h

/-- All reports are without an error just if all files are read. -/
theorem all_isOk_iff (h : (lintFiles tree policy seed files).outcome = .ok reports) :
    reports.all (·.isOk) = true ↔ ∀ p ∈ files, ¬HasError tree policy seed p := by
  have hall := lintFiles_eq_ok.1 h
  clear h
  induction hall with
  | nil => simp
  | @cons p r files reports hr _ ih =>
    rw [List.all_cons, Bool.and_eq_true, List.forall_mem_cons]
    refine and_congr ?_ ih
    rcases lintFile_cases hr with ⟨d, hd, rfl⟩ | ⟨herror, hr⟩
    · simp [reportOn, FileReport.isOk, hd.not_hasError]
    · simp [hr, herror]

end Lint

namespace CommandLine

open Lint (Reads HasError FileReport)

variable {settings : Settings} {now : String} {a : Arguments} {tree : FileTree}
  {seed : Option Namespaces} {status : Nat}

/-- Without errors the sources of an export are all files, in their order. -/
theorem sourcesOf_of_lintFiles {policy : ConflictPolicy} {files : List FilePath}
    {reports : List FileReport}
    (h : (Lint.lintFiles tree policy seed files).outcome = .ok reports)
    (hok : reports.all (·.isOk) = true) :
    ∃ ds, List.Forall₂ (Reads tree policy seed) files ds ∧
      sourcesOf reports = (files.map (·.text)).zip ds := by
  have hall := Lint.lintFiles_eq_ok.1 h
  clear h
  induction hall with
  | nil => exact ⟨[], .nil, rfl⟩
  | @cons p r files reports hr _ ih =>
    rw [List.all_cons, Bool.and_eq_true] at hok
    obtain ⟨ds, hds, hsources⟩ := ih hok.2
    rcases Lint.lintFile_cases hr with ⟨d, hd, rfl⟩ | ⟨-, hr⟩
    · exact ⟨d :: ds, .cons hd hds, congrArg _ hsources⟩
    · rw [hr] at hok
      simp at hok

/-! ## What a run is given -/

/-- The arguments are accepted, ask for no help and leave no value of an option empty. -/
structure Accepts (args : List String) (a : Arguments) : Prop where
  request : Request.ofArguments args = .lint a
  namespaces : ∀ path ∈ a.namespaces, path ≠ ""
  exportTo : ∀ path ∈ a.exportTo, path ≠ ""

/-- A seed file is given, and it is no configuration. -/
def HasBadSeed (settings : Settings) (a : Arguments) (tree : FileTree) : Prop :=
  ∃ path ∈ a.namespaces, ∃ e,
    (SeedFile.load (.new settings.cacheEnabled) tree none (.ofString path)).2 = .error e ∧
      e.isPassedOn = false

theorem filter_of_forall {value : Option String} (h : ∀ s ∈ value, s ≠ "") :
    value.filter (!·.isEmpty) = value := by
  cases value with
  | none => rfl
  | some s => simp [Option.filter, h s rfl]

/-! ## What becomes of it -/

/-- A file holds definitions: it was written, and its text is that of their payload, which has the records
of all of them, source by source and in the order of each. -/
def HoldsExport (tree : FileTree) (now path : String) (files : List FilePath) (ds : List Definitions)
    (after : FileTree) : Prop :=
  let payload := (Export.Payload.ofSources now ((files.map (·.text)).zip ds)).1
  payload.sources = files.map (·.text) ∧
    payload.types =
      ds.flatMap (fun d => d.types.map (Export.TypeRecord.ofDefinition payload.namespaces)) ∧
    (Export.save tree path payload.toData).2 = .ok after ∧
    after.readText path = .ok (Export.fileText path payload.toData).toUTF8

theorem types_ofSources (generatedAt : String) (sources : List (String × Definitions)) :
    let payload := (Export.Payload.ofSources generatedAt sources).1
    payload.types = (sources.map (·.2)).flatMap fun d =>
      d.types.map (Export.TypeRecord.ofDefinition payload.namespaces) := by
  intro payload
  rw [List.flatMap_map]
  rfl

theorem readText_save {path : String} {d : Data} {after : FileTree}
    (h : (Export.save tree path d).2 = .ok after) :
    after.readText path = .ok (Export.fileText path d).toUTF8 := by
  unfold Export.save at h
  split at h
  · simp at h
  split at h
  · split at h <;> simp at h
  rename_i hwrite
  obtain rfl := Except.ok.inj h
  exact FileTree.readText_writeText hwrite

/-- An export that ends with a status succeeds, and writes just the file that is asked for. -/
theorem exportAll_cases {s : Log.Streams} {reports : List FileReport} {files : List FilePath}
    {ds : List Definitions} (hexport : ∀ path ∈ a.exportTo, path ≠ "")
    (hlength : files.length = ds.length)
    (hsources : sourcesOf reports = (files.map (·.text)).zip ds)
    (h : (exportAll s now a tree reports).status = .ok status) :
    status = succeeded ∧ (a.exportTo = none → (exportAll s now a tree reports).tree = tree) ∧
      ∀ path ∈ a.exportTo,
        HoldsExport tree now path files ds (exportAll s now a tree reports).tree := by
  unfold exportAll at h ⊢
  rw [filter_of_forall hexport, hsources] at h ⊢
  cases hto : a.exportTo with
  | none =>
    rw [hto] at h
    exact ⟨(Except.ok.inj h).symm, fun _ => rfl, by simp⟩
  | some path =>
    simp only [hto] at h ⊢
    cases hsave : (Export.save tree path
        (Export.Payload.ofSources now ((files.map (·.text)).zip ds)).1.toData).2 with
    | error e =>
      rw [hsave] at h
      simp at h
    | ok after =>
      rw [hsave] at h
      refine ⟨(Except.ok.inj h).symm, by simp, fun path' hpath => ?_⟩
      obtain rfl := Option.some.inj hpath
      have htypes := types_ofSources now ((files.map (·.text)).zip ds)
      rw [List.map_snd_zip (by simp [hlength])] at htypes
      exact ⟨List.map_fst_zip (by simp [hlength]), htypes, hsave, readText_save hsave⟩

/-- Linting that ends with a status finds files, and fails or exports what they hold. -/
theorem lint_cases {s : Log.Streams} (hexport : ∀ path ∈ a.exportTo, path ≠ "")
    (h : (lint s settings now a tree seed).status = .ok status) :
    let after := (lint s settings now a tree seed).tree
    ∃ files, (Lint.find tree ((if a.paths.isEmpty then ["."] else a.paths).map .ofString)).2 =
        .ok files ∧
      ((status = failed ∧ (files = [] ∨ ∃ p ∈ files, HasError tree settings.conflict seed p) ∧
          after = tree) ∨
        status = succeeded ∧ files ≠ [] ∧
          ∃ ds, List.Forall₂ (Reads tree settings.conflict seed) files ds ∧
            (a.exportTo = none → after = tree) ∧
            ∀ path ∈ a.exportTo, HoldsExport tree now path files ds after) := by
  intro after
  simp only [after]
  unfold lint at h ⊢
  dsimp only at h ⊢
  split at h
  · simp at h
  · rename_i hfound
    exact ⟨[], hfound, .inl ⟨(Except.ok.inj h).symm, .inl rfl, rfl⟩⟩
  · rename_i files hsome hfound
    refine ⟨files, hfound, ?_⟩
    split at h
    · simp at h
    · rename_i reports hreports
      split at h
      · rename_i hok
        obtain ⟨ds, hds, hsources⟩ := sourcesOf_of_lintFiles hreports hok
        obtain ⟨hstatus, hnone, hwritten⟩ := exportAll_cases hexport hds.length_eq hsources h
        rw [if_pos hok]
        exact .inr ⟨hstatus, hsome, ds, hds, hnone, hwritten⟩
      · rename_i hok
        rw [if_neg hok]
        rw [Lint.all_isOk_iff hreports, not_forall₂] at hok
        obtain ⟨p, hp, herror⟩ := hok
        exact .inl ⟨(Except.ok.inj h).symm, .inr ⟨p, hp, not_not.1 herror⟩, rfl⟩

/-- A run that ends with a status is refused for a bad seed file, or has a table to start from. -/
theorem seedAndLint_cases (hseed : ∀ path ∈ a.namespaces, path ≠ "")
    (h : (seedAndLint settings now a tree).status = .ok status) :
    (status = refused ∧ HasBadSeed settings a tree ∧ (seedAndLint settings now a tree).tree = tree) ∨
      ¬HasBadSeed settings a tree ∧
        ∃ seeding seed, readSeed settings a tree = (seeding, .ok seed) := by
  unfold seedAndLint at h ⊢
  unfold readSeed HasBadSeed
  rw [filter_of_forall hseed] at h ⊢
  cases hto : a.namespaces with
  | none => exact .inr ⟨by simp, _, _, rfl⟩
  | some path =>
    simp only [hto] at h ⊢
    cases hload : (SeedFile.load (.new settings.cacheEnabled) tree none (.ofString path)).2 with
    | ok ns => exact .inr ⟨by simp [hload], _, _, rfl⟩
    | error e =>
      rw [hload] at h
      dsimp only at h ⊢
      split at h
      · simp at h
      rename_i hpassed
      rw [Bool.not_eq_true] at hpassed
      rw [if_neg (by simp [hpassed])]
      exact .inl ⟨(Except.ok.inj h).symm, ⟨path, rfl, e, hload, hpassed⟩, rfl⟩

/-- **The status and the export of a run.** A run that ends with a status is refused just if a seed file
is given that is no configuration. Otherwise it has failed just if no files are found or one of them has
an error, and else has succeeded. The tree is changed only where an export is asked for and the run has
succeeded; the file then holds the records of all definitions of all files, in the order of the paths and
of each text. -/
theorem status_and_export {env : Environment} {args : List String} (ha : Accepts args a) (now : String)
    (h : (run env now args tree).status = .ok status) :
    let settings := (Settings.readLenient env).1
    let after := (run env now args tree).tree
    (status = refused ↔ HasBadSeed settings a tree) ∧
    ((status = succeeded ∧ ∃ path, a.exportTo = some path) ∨ after = tree) ∧
    (status ≠ refused → ∃ seed files, (readSeed settings a tree).2 = .ok seed ∧
      (Lint.find tree ((if a.paths.isEmpty then ["."] else a.paths).map .ofString)).2 = .ok files ∧
      files.Pairwise (fun p q => p.sortKey < q.sortKey) ∧
      (status = failed ↔ files = [] ∨ ∃ p ∈ files, HasError tree settings.conflict seed p) ∧
      (status ≠ failed → status = succeeded ∧
        ∃ ds, List.Forall₂ (Reads tree settings.conflict seed) files ds ∧
          ∀ path, a.exportTo = some path → HoldsExport tree now path files ds after)) := by
  intro settings after
  have hrun : run env now args tree = seedAndLint settings now a tree := by
    simp only [run, ha.request, settings]
  simp only [after]
  rw [hrun] at h ⊢
  rcases seedAndLint_cases ha.namespaces h with ⟨rfl, hbad, htree⟩ | ⟨hgood, seeding, seed, hseed⟩
  · exact ⟨by simp [hbad], .inr htree, fun hne => absurd rfl hne⟩
  rw [seedAndLint_eq hseed] at h ⊢
  obtain ⟨files, hfound, hcases⟩ := lint_cases ha.exportTo h
  have hsorted := Lint.pairwise_found hfound
  rcases hcases with ⟨rfl, hfiles, htree⟩ | ⟨rfl, hsome, ds, hds, hnone, hwritten⟩
  · refine ⟨by simp [hgood, failed, refused], .inr htree, fun _ => ?_⟩
    exact ⟨seed, files, by rw [hseed], hfound, hsorted, by simp [hfiles], fun hne => absurd rfl hne⟩
  · have hread : ∀ p ∈ files, ¬HasError tree settings.conflict seed p := by
      intro p hp
      obtain ⟨d, -, hd⟩ := exists_of_forall₂ hds.flip hp
      exact Reads.not_hasError hd
    refine ⟨by simp [hgood, succeeded, refused], ?_, fun _ => ⟨seed, files, by rw [hseed], hfound,
      hsorted, ?_, fun _ => ⟨rfl, ds, hds, hwritten⟩⟩⟩
    · cases hto : a.exportTo with
      | none => exact .inr (hnone hto)
      | some path => exact .inl ⟨rfl, path, rfl⟩
    · have hno : ¬∃ p ∈ files, HasError tree settings.conflict seed p := by
        rintro ⟨p, hp, herror⟩
        exact hread p hp herror
      simp [hsome, hno, succeeded, failed]

/-! ## A run with a suspicion -/

/-- A node type that is its own supertype, which is suspicious. -/
def suspectType : NodeType := ⟨⟨"", "a"⟩, [⟨"", "a"⟩], false, false, none, [], []⟩

def suspectTree : FileTree := ⟨[(["a.cnd"], .file "[a] > a".toUTF8)]⟩

theorem readChars_suspect : suspectTree.readChars movingFile = .ok "[a] > a".toList :=
  isEntryName_moving.readChars rfl (by decide)

def suspectOutline : Definitions.Outlined "[a] > a" where
  outline :=
    ⟨[.nodeType ⟨⟨.text "a" false, ⟨1, 2⟩⟩, [⟨.text "a" false, ⟨1, 7⟩⟩], false, false, []⟩],
      .complete⟩
  eq := by decide +kernel

theorem load_suspect (policy : ConflictPolicy) :
    (Definitions.load suspectTree policy none movingFile).outcome = .ok ⟨[suspectType], .builtin⟩ := by
  have hread : (Definitions.readWith movingFile.text policy none "[a] > a").outcome =
      .ok ⟨[suspectType], .builtin⟩ :=
    Definitions.readWith_of_outline suspectOutline rfl
  simp only [Definitions.load, readChars_suspect, String.ofList_toList, hread]

theorem find_suspect : (Lint.find suspectTree (["a.cnd"].map .ofString)).2 = .ok [movingFile] := by
  have hentry : suspectTree.find? movingFile = .ok (some (.file "[a] > a".toUTF8)) :=
    isEntryName_moving.find? rfl
  rw [List.map_singleton, ofString_movingFile, Lint.find_file hentry (by decide)]

theorem exists_save_suspect (d : Data) :
    ∃ after, (Export.save suspectTree "o.json" d).2 = .ok after := by
  have hname : FileTree.IsEntryName "o.json" := ⟨by decide, by decide, by decide, by decide⟩
  have hwrite : ∀ bytes, suspectTree.writeText "o.json" bytes =
      .ok (suspectTree.put ["o.json"] (.file bytes)) := fun _ => hname.writeText rfl
  simp only [Export.save, hname.makeParents, hwrite]
  exact ⟨_, rfl⟩

/-- The file is suspicious, the run succeeds, and its node type is exported. -/
theorem status_and_export_suspect :
    let args := ["--export", "o.json", "a.cnd"]
    Accepts args ⟨["a.cnd"], none, .human, some "o.json"⟩ ∧
    Lint.suspicions [suspectType] ≠ [] ∧
    (run [] "now" args suspectTree).status = .ok succeeded ∧
    HoldsExport suspectTree "now" "o.json" [movingFile] [⟨[suspectType], .builtin⟩]
      (run [] "now" args suspectTree).tree := by
  intro args
  have ha : Accepts args ⟨["a.cnd"], none, .human, some "o.json"⟩ :=
    ⟨by decide, by simp, by simp⟩
  have hlint : (Lint.lintFiles suspectTree (Settings.readLenient []).1.conflict none
      [movingFile]).outcome = .ok [Lint.reportOn movingFile ⟨[suspectType], .builtin⟩] := by
    rw [Lint.lintFiles_eq_ok]
    refine .cons ?_ .nil
    simp only [Lint.lintFile, Definitions.tryLoad_outcome, load_suspect]
  have hstatus : (run [] "now" args suspectTree).status = .ok succeeded := by
    obtain ⟨after, hsave⟩ := exists_save_suspect
      (Export.Payload.ofSources "now" [("a.cnd", ⟨[suspectType], .builtin⟩)]).1.toData
    have hsources : sourcesOf [Lint.reportOn movingFile ⟨[suspectType], .builtin⟩] =
        [("a.cnd", ⟨[suspectType], .builtin⟩)] := by
      simp [sourcesOf, Lint.reportOn, text_movingFile]
    have hok : [Lint.reportOn movingFile ⟨[suspectType], .builtin⟩].all (·.isOk) = true := by
      simp [Lint.reportOn, FileReport.isOk]
    have hto : (some "o.json").filter (!·.isEmpty) = some "o.json" := filter_of_forall ha.exportTo
    simp only [run, ha.request, seedAndLint, Option.filter_none, lint, find_suspect, List.isEmpty_cons,
      Bool.false_eq_true, if_false, hlint, exportAll, hto, hok, if_true]
    simp only [hsources, hsave, Outcome.after, success]
  refine ⟨ha, by decide, hstatus, ?_⟩
  obtain ⟨-, -, hfiles⟩ := status_and_export ha "now" hstatus
  obtain ⟨seed, files, hseed, hfound, -, -, hread⟩ := hfiles (by decide)
  obtain ⟨-, ds, hds, hexport⟩ := hread (by decide)
  obtain rfl : none = seed := Except.ok.inj hseed
  obtain rfl : [movingFile] = files := Except.ok.inj (find_suspect.symm.trans hfound)
  obtain ⟨d, _, ⟨hd, -⟩, hnil, rfl⟩ := List.forall₂_cons_left_iff.1 hds
  obtain rfl := List.forall₂_nil_left_iff.1 hnil
  rw [load_suspect] at hd
  obtain rfl := Except.ok.inj hd
  exact hexport _ rfl

end CommandLine

end Cnd
