import Cnd.CommandLine.Run
import Cnd.Proofs.FileTree.Name
import Cnd.Proofs.Lint.Found
import Cnd.Proofs.Reading.Exact

/-!
What a run of the linter writes to standard output.

The output of a run is that of its pieces, one after the other (`outputOf_append`), and events have
output just if some of them are logged there (`outputOf_logged_eq_empty_iff`). In a format for other
programs linting writes the report with the lines of the log in front of it and behind it
(`output_lint`), so the report is alone just if there are no such lines (`output_run_eq_iff`).
-/

namespace Cnd

namespace Log.Streams

theorem not_toOutput_of_toError {s : Streams} {r : Record} (h : s.toError r = true) :
    s.toOutput r = false := by
  simp only [toError, toOutput, Bool.and_eq_true, decide_eq_true_eq, Bool.and_eq_false_iff,
    decide_eq_false_iff_not] at h ⊢
  exact .inr (Int.not_lt.2 h.2)

end Log.Streams

namespace CommandLine

open Lint (FileReport)

/-! ## Pieces -/

/-- What goes to standard output of some pieces. -/
def outputOf (pieces : List Piece) : String :=
  String.join ((pieces.filter (·.isError == false)).map (·.text))

theorem output_eq (o : Outcome) : o.output = outputOf o.pieces := rfl

theorem outputOf_nil : outputOf [] = "" := rfl

theorem outputOf_append (a b : List Piece) : outputOf (a ++ b) = outputOf a ++ outputOf b := by
  simp [outputOf, String.join_append]

theorem outputOf_printed (text : String) : outputOf [printed text] = text := by
  simp [outputOf, printed]

theorem outputOf_errorLines {α : Type} (f : α → String) (xs : List α) :
    outputOf (xs.map fun x => errorLine (f x)) = "" := by
  have hall : (xs.map fun x => errorLine (f x)).filter (·.isError == false) = [] := by
    simp [List.filter_eq_nil_iff, errorLine]
  rw [outputOf, hall, List.map_nil, String.join_nil]

theorem outputOf_logged {s : Log.Streams} {e : Event} :
    outputOf (logged s e) = if s.toOutput e.record then e.record.line else "" := by
  unfold logged
  split
  · rename_i h
    rw [Log.Streams.not_toOutput_of_toError h]
    rfl
  · split
    · simp [outputOf]
    · rfl

theorem line_ne_empty (r : Log.Record) : r.line ≠ "" := by
  simp [Log.Record.line]

theorem outputOf_logged_eq_empty_iff {s : Log.Streams} {events : List Event} :
    outputOf (events.flatMap (logged s)) = "" ↔ ∀ e ∈ events, s.toOutput e.record = false := by
  induction events with
  | nil => simp [outputOf_nil]
  | cons e events ih =>
    rw [List.flatMap_cons, outputOf_append, String.append_eq_empty_iff, ih, outputOf_logged,
      List.forall_mem_cons]
    cases s.toOutput e.record with
    | true => simp [line_ne_empty]
    | false => simp

/-! ## Levels -/

/-- In a format for other programs a record is logged from the level of warnings on. -/
theorem toOutput_eq_false_iff {settings : Settings} {format : Lint.Format} (hf : format ≠ .human)
    (r : Log.Record) : (streams settings format).toOutput r = false ↔
      (Log.warning ≤ r.level → (streams settings format).errorFrom ≤ r.level) := by
  have hname : Log.levelOfName? (Log.levelName Log.warning) = some Log.warning := by decide
  have hthreshold : (streams settings format).threshold = Log.warning := by
    simp only [streams, beq_eq_false_iff_ne.2 hf, Bool.false_eq_true, if_false, Settings.streams,
      hname, Option.getD_some]
  simp only [Log.Streams.toOutput, Log.Streams.passes, hthreshold, Bool.and_eq_false_iff,
    decide_eq_false_iff_not, Int.not_le, Int.not_lt]
  constructor
  · rintro (((h | h) | h) | h) hw
    · exact absurd (Int.lt_of_lt_of_le (by decide) hw) (Int.not_lt.2 h)
    · exact absurd hw (Int.not_le.2 h)
    · exact absurd (Int.le_trans (by decide) hw) (Int.not_le.2 h)
    · exact h
  · intro h
    by_cases hw : Log.warning ≤ r.level
    · exact .inr (h hw)
    · exact .inl (.inl (.inr (Int.not_le.1 hw)))

/-! ## Runs that lint files -/

/-- What the seed file of arguments reports and gives; nothing if there is none. -/
def readSeed (settings : Settings) (a : Arguments) (tree : FileTree) :
    List Event × Except SeedFile.LoadError (Option Namespaces) :=
  match a.namespaces.filter (!·.isEmpty) with
  | none => ([], .ok none)
  | some path =>
    let (events, result) := SeedFile.load (.new settings.cacheEnabled) tree none (.ofString path)
    (events, result.map some)

/-- What is reported of an export, if one is asked for. -/
def exportEvents (now : String) (a : Arguments) (tree : FileTree) (reports : List FileReport) :
    List Event :=
  match a.exportTo.filter (!·.isEmpty) with
  | none => []
  | some path =>
    let (payload, merging) := Export.Payload.ofSources now (sourcesOf reports)
    merging ++ (Export.save tree path payload.toData).1

/-- What is reported behind the report: of an export, unless there are errors. -/
def eventsBehind (now : String) (a : Arguments) (tree : FileTree) (reports : List FileReport) :
    List Event :=
  if reports.all (·.isOk) then exportEvents now a tree reports else []

/-- A run that gets as far as linting files: the arguments are accepted, the seed file is one, and
there are files. -/
structure Lints (settings : Settings) (args : List String) (tree : FileTree) (a : Arguments)
    (seeding : List Event) (seed : Option Namespaces) (files : List FilePath) : Prop where
  request : Request.ofArguments args = .lint a
  seeded : readSeed settings a tree = (seeding, .ok seed)
  found : (Lint.find tree ((if a.paths.isEmpty then ["."] else a.paths).map .ofString)).2 = .ok files
  some : files ≠ []

/-- What such a run reports in order: of the seed file, of linting, and of an export. -/
def eventsOf (settings : Settings) (now : String) (a : Arguments) (tree : FileTree)
    (seeding : List Event) (seed : Option Namespaces) (files : List FilePath) : List Event :=
  let linted := Lint.lintFiles tree settings.conflict seed files
  seeding ++ linted.events ++ match linted.outcome with
    | .ok reports => eventsBehind now a tree reports
    | .error _ => []

/-! ## Their pieces -/

theorem pieces_success {format : Lint.Format} (hf : format ≠ .human) (tree : FileTree) :
    (success format tree).pieces = [] := by
  rw [success, beq_eq_false_iff_ne.2 hf]
  rfl

theorem pieces_exportAll (s : Log.Streams) (now : String) {a : Arguments}
    (hf : a.format ≠ .human) (tree : FileTree) (reports : List FileReport) :
    (exportAll s now a tree reports).pieces =
      (exportEvents now a tree reports).flatMap (logged s) := by
  unfold exportAll exportEvents
  cases a.exportTo.filter (!·.isEmpty) with
  | none => exact pieces_success hf tree
  | some path =>
    simp only
    cases (Export.save tree path (Export.Payload.ofSources now (sourcesOf reports)).1.toData).2 with
    | error e => rfl
    | ok tree => simp only [Outcome.after, pieces_success hf, List.append_nil]

/-- Linting writes its warnings, its log, and the report with the log of an export behind it. -/
theorem output_lint (s : Log.Streams) (settings : Settings) (now : String) {a : Arguments}
    (hf : a.format ≠ .human) (tree : FileTree) (seed : Option Namespaces) {files : List FilePath}
    (hfound : (Lint.find tree
      ((if a.paths.isEmpty then ["."] else a.paths).map .ofString)).2 = .ok files)
    (hsome : files ≠ []) {reports : List FileReport}
    (hreports : (Lint.lintFiles tree settings.conflict seed files).outcome = .ok reports) :
    (lint s settings now a tree seed).output =
      outputOf ((Lint.lintFiles tree settings.conflict seed files).events.flatMap (logged s)) ++
        a.format.print reports ++
        outputOf ((eventsBehind now a tree reports).flatMap (logged s)) := by
  obtain ⟨f, fs, rfl⟩ := List.exists_cons_of_ne_nil hsome
  simp only [lint, hfound, hreports, eventsBehind, output_eq]
  cases reports.all (·.isOk) with
  | true =>
    simp only [if_true, Outcome.after, pieces_exportAll s now hf, outputOf_append,
      outputOf_errorLines, outputOf_printed, String.empty_append]
  | false =>
    simp only [Bool.false_eq_true, if_false, outputOf_append, outputOf_errorLines, outputOf_printed,
      List.flatMap_nil, outputOf_nil, String.empty_append, String.append_empty]

theorem seedAndLint_eq {settings : Settings} {a : Arguments} {tree : FileTree}
    {seeding : List Event} {seed : Option Namespaces}
    (h : readSeed settings a tree = (seeding, .ok seed)) (now : String) :
    seedAndLint settings now a tree =
      (lint (streams settings a.format) settings now a tree seed).after
        (seeding.flatMap (logged (streams settings a.format))) := by
  unfold readSeed at h
  unfold seedAndLint
  cases hp : a.namespaces.filter (!·.isEmpty) with
  | none =>
    rw [hp] at h
    obtain ⟨rfl, hseed⟩ := Prod.mk.inj h
    obtain rfl := Except.ok.inj hseed
    rfl
  | some path =>
    simp only [hp, Prod.mk.injEq] at h ⊢
    obtain ⟨rfl, hseed⟩ := h
    cases hl : (SeedFile.load (.new settings.cacheEnabled) tree none (.ofString path)).2 with
    | error e => simp [hl, Except.map] at hseed
    | ok ns =>
      rw [hl] at hseed
      obtain rfl := Except.ok.inj hseed
      rfl

/-! ## The report alone -/

theorem around_eq_iff {front before behind report : String} :
    front ++ (before ++ report ++ behind) = report ↔ front = "" ∧ before = "" ∧ behind = "" := by
  constructor
  · intro h
    have hlength := congrArg String.length h
    simp only [String.length_append] at hlength
    simp only [← String.length_eq_zero_iff]
    omega
  · rintro ⟨rfl, rfl, rfl⟩
    simp

/-- The report is all that is written just if no event goes to standard output. -/
theorem output_run_eq_iff {env : Environment} {now : String} {args : List String}
    {tree : FileTree} {a : Arguments} {seeding : List Event} {seed : Option Namespaces}
    {files : List FilePath} {reports : List FileReport}
    (h : Lints (Settings.readLenient env).1 args tree a seeding seed files)
    (hf : a.format ≠ .human) (hreports : (Lint.lintFiles tree
      (Settings.readLenient env).1.conflict seed files).outcome = .ok reports) :
    (run env now args tree).output = a.format.print reports ↔
      ∀ e ∈ eventsOf (Settings.readLenient env).1 now a tree seeding seed files,
        Log.warning ≤ e.level →
          (streams (Settings.readLenient env).1 a.format).errorFrom ≤ e.level := by
  have hlint := output_lint (streams (Settings.readLenient env).1 a.format)
    (Settings.readLenient env).1 now hf tree seed h.found h.some hreports
  rw [output_eq] at hlint
  have hrun : (run env now args tree).output =
      outputOf (seeding.flatMap (logged (streams (Settings.readLenient env).1 a.format))) ++
        outputOf (lint (streams (Settings.readLenient env).1 a.format)
          (Settings.readLenient env).1 now a tree seed).pieces := by
    simp only [run, h.request, seedAndLint_eq h.seeded, output_eq, Outcome.after, outputOf_append]
  rw [hrun, hlint, around_eq_iff]
  simp only [outputOf_logged_eq_empty_iff, toOutput_eq_false_iff hf, eventsOf, hreports,
    List.forall_mem_append, and_assoc]
  rfl

/-- Where warnings go to standard error, the report is alone. -/
theorem output_eq_report_of_warnings {env : Environment} {now : String} {args : List String}
    {tree : FileTree} {a : Arguments} {seeding : List Event} {seed : Option Namespaces}
    {files : List FilePath} {reports : List FileReport}
    (h : Lints (Settings.readLenient env).1 args tree a seeding seed files)
    (hf : a.format ≠ .human) (hreports : (Lint.lintFiles tree
      (Settings.readLenient env).1.conflict seed files).outcome = .ok reports)
    (hwarning : (streams (Settings.readLenient env).1 a.format).errorFrom ≤ Log.warning) :
    (run env now args tree).output = a.format.print reports :=
  (output_run_eq_iff h hf hreports).2 fun _ _ hlevel => Int.le_trans hwarning hlevel

/-! ## A run with a warning -/

/-- A text that moves a prefix, which is a warning. -/
def movingText : String := "<p='u'> <p='v'>"

def movingTree : FileTree := ⟨[(["a.cnd"], .file movingText.toUTF8)]⟩

def movingFile : FilePath := ⟨"", ["a.cnd"]⟩

/-- Settings under which a prefix may be moved, and only errors go to standard error. -/
def movingEnvironment : Environment :=
  [(Settings.printLevelVariable, "ERROR"), (Settings.conflictVariable, "override")]

theorem isEntryName_moving : FileTree.IsEntryName "a.cnd" :=
  ⟨by decide, by decide, by decide, by decide⟩

theorem ofString_movingFile : FilePath.ofString "a.cnd" = movingFile := isEntryName_moving.ofString

theorem text_movingFile : movingFile.text = "a.cnd" := FilePath.text_name _

theorem readChars_movingFile : movingTree.readChars movingFile = .ok movingText.toList :=
  isEntryName_moving.readChars rfl (by decide)

theorem find_movingFile :
    (Lint.find movingTree (["a.cnd"].map .ofString)).2 = .ok [movingFile] := by
  have hentry : movingTree.find? movingFile = .ok (some (.file movingText.toUTF8)) :=
    isEntryName_moving.find? rfl
  rw [List.map_singleton, ofString_movingFile, Lint.find_file hentry (by decide)]

def movingOutline : Definitions.Outlined movingText where
  outline :=
    ⟨[.binding ⟨⟨.symbol '<', ⟨1, 1⟩⟩, "p", "u"⟩, .binding ⟨⟨.symbol '<', ⟨1, 9⟩⟩, "p", "v"⟩],
      .complete⟩
  eq := by decide +kernel

/-- The text is read to its end, and the move is reported. -/
theorem lintFiles_movingFile :
    (∃ reports, (Lint.lintFiles movingTree .override none [movingFile]).outcome = .ok reports) ∧
    Event.movedBinding "p" "u" "v" ∈
      (Lint.lintFiles movingTree .override none [movingFile]).events := by
  have hread : (Definitions.readWith movingFile.text .override none movingText).outcome =
      .ok ⟨[], ((Namespaces.builtin.bind "p" "u").unbind "p" "u").bind "p" "v"⟩ :=
    Definitions.readWith_of_outline movingOutline rfl
  have hmoved : Event.movedBinding "p" "u" "v" ∈
      (Definitions.readWith movingFile.text .override none movingText).events := by
    simp only [Definitions.readWith, Definitions.read, movingOutline.eq]
    decide
  simp only [Lint.lintFiles, Lint.lintFile, Definitions.tryLoad, Definitions.load,
    readChars_movingFile, String.ofList_toList, hread, Except.map, List.append_nil]
  exact ⟨⟨_, rfl⟩, List.mem_cons_of_mem _ hmoved⟩

/-! ## Runs in formats for other programs -/

/-- **What goes to standard output.** A run in a format for other programs that gets as far as
linting files writes the report and nothing else to standard output, just if all files can be
reported on and every event of the run from the level of warnings on has a level that goes to
standard error. -/
theorem output_eq_report_iff {env : Environment} {args : List String} {tree : FileTree}
    {a : Arguments} {seeding : List Event} {seed : Option Namespaces} {files : List FilePath}
    (h : Lints (Settings.readLenient env).1 args tree a seeding seed files)
    (hf : a.format ≠ .human) (now : String) :
    let settings := (Settings.readLenient env).1
    let linted := Lint.lintFiles tree settings.conflict seed files
    (∃ reports, linted.outcome = .ok reports ∧
      (run env now args tree).output = a.format.print reports) ↔
    (∃ reports, linted.outcome = .ok reports) ∧
      ∀ e ∈ eventsOf settings now a tree seeding seed files,
        Log.warning ≤ e.level → (streams settings a.format).errorFrom ≤ e.level := by
  intro settings linted
  constructor
  · rintro ⟨reports, hreports, houtput⟩
    exact ⟨⟨reports, hreports⟩, (output_run_eq_iff h hf hreports).1 houtput⟩
  · rintro ⟨⟨reports, hreports⟩, hlevels⟩
    exact ⟨reports, hreports, (output_run_eq_iff h hf hreports).2 hlevels⟩

/-- The warning goes to standard output, in front of the report. -/
theorem output_eq_report_iff_moving :
    (∃ reports, (Lint.lintFiles movingTree .override none [movingFile]).outcome = .ok reports) ∧
    ¬ ∃ reports, (Lint.lintFiles movingTree .override none [movingFile]).outcome = .ok reports ∧
      (run movingEnvironment "now" ["--format", "json", "a.cnd"] movingTree).output =
        Lint.Format.json.print reports := by
  obtain ⟨hreports, hmoved⟩ := lintFiles_movingFile
  have hrequest : Request.ofArguments ["--format", "json", "a.cnd"] =
      .lint ⟨["a.cnd"], none, .json, none⟩ := by decide
  have hconflict : (Settings.readLenient movingEnvironment).1.conflict = .override := by
    decide
  have hlints : Lints (Settings.readLenient movingEnvironment).1 ["--format", "json", "a.cnd"]
      movingTree ⟨["a.cnd"], none, .json, none⟩ [] none [movingFile] :=
    ⟨hrequest, rfl, find_movingFile, by simp⟩
  have hiff := output_eq_report_iff hlints (by decide) "now"
  simp only [hconflict] at hiff
  refine ⟨hreports, fun h => ?_⟩
  obtain ⟨-, hlevels⟩ := hiff.1 h
  have hmem : Event.movedBinding "p" "u" "v" ∈ eventsOf (Settings.readLenient movingEnvironment).1
      "now" ⟨["a.cnd"], none, .json, none⟩ movingTree [] none [movingFile] := by
    simp only [eventsOf, hconflict]
    exact List.mem_append_left _ hmoved
  exact absurd (hlevels _ hmem (by decide)) (by decide)

end CommandLine

end Cnd
