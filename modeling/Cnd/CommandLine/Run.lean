import Cnd.CommandLine.Arguments
import Cnd.Export.File
import Cnd.Lint.Files
import Cnd.SeedFile
import Cnd.Settings

/-!
A run of the linter: the seed file is read, files are found and linted, the findings are printed,
and if there is no error among them, the definitions are exported.

What a run writes is kept in order, each piece with its stream. In a format for other programs
only warnings and errors are logged, so that nothing but the report goes to standard output.
-/

namespace Cnd.CommandLine

/-- A piece of output and whether it goes to standard error. -/
structure Piece where
  isError : Bool
  text : String
  deriving DecidableEq, Repr

/-- A fault that ends a run without a status. -/
inductive Uncaught where
  | reading (f : Failure)
  | seed (e : SeedFile.LoadError)
  | file (e : FileError)

def Uncaught.message : Uncaught → String
  | .reading f => f.message
  | .seed e => e.message
  | .file e => e.message

/-- A run: what it wrote, the tree behind it, and its status. -/
structure Outcome where
  pieces : List Piece
  tree : FileTree
  status : Except Uncaught Nat

namespace Outcome

def textTo (isError : Bool) (o : Outcome) : String :=
  String.join ((o.pieces.filter (·.isError == isError)).map (·.text))

/-- What a run wrote to standard output, and to standard error. -/
def output (o : Outcome) : String := o.textTo false
def errorOutput (o : Outcome) : String := o.textTo true

/-- A run with pieces in front. -/
def after (pieces : List Piece) (o : Outcome) : Outcome := { o with pieces := pieces ++ o.pieces }

end Outcome

/-- Text that is printed. -/
def printed (text : String) : Piece := ⟨false, text⟩

def errorLine (text : String) : Piece := ⟨true, text ++ "\n"⟩

/-- The line of an event, on the stream that the settings send it to. -/
def logged (s : Log.Streams) (e : Event) : List Piece :=
  if s.toError e.record then [⟨true, e.record.line⟩]
  else if s.toOutput e.record then [⟨false, e.record.line⟩]
  else []

/-- The streams of a run. -/
def streams (settings : Settings) (format : Lint.Format) : Log.Streams :=
  if format == .human then settings.streams
  else { settings with logLevel := Log.levelName Log.warning }.streams

/-- The statuses of a run. -/
def succeeded : Nat := 0
def failed : Nat := 1
def refused : Nat := 2

/-- The end of a run without errors. -/
def success (format : Lint.Format) (tree : FileTree) : Outcome :=
  let pieces := if format == .human then [printed "Lint succeeded with no errors.\n"] else []
  ⟨pieces, tree, .ok succeeded⟩

/-- The sources of an export: the files that could be read. -/
def sourcesOf (reports : List Lint.FileReport) : List (String × Definitions) :=
  reports.filterMap fun r => r.definitions.map fun d => (r.file.text, d)

/-- Write the definitions to a file. -/
def exportAll (s : Log.Streams) (now : String) (a : Arguments) (tree : FileTree)
    (reports : List Lint.FileReport) : Outcome :=
  match a.exportTo.filter (!·.isEmpty) with
  | none => success a.format tree
  | some path =>
    let (payload, merging) := Export.Payload.ofSources now (sourcesOf reports)
    let (saving, result) := Export.save tree path payload.toData
    let pieces := (merging ++ saving).flatMap (logged s)
    match result with
    | .error e => ⟨pieces, tree, .error (.file e)⟩
    | .ok tree => (success a.format tree).after pieces

/-- Lint the files below the given paths. -/
def lint (s : Log.Streams) (settings : Settings) (now : String) (a : Arguments) (tree : FileTree)
    (seed : Option Namespaces) : Outcome :=
  let paths := if a.paths.isEmpty then ["."] else a.paths
  let (warnings, found) := Lint.find tree (paths.map .ofString)
  let warned := warnings.map fun w => errorLine w.message
  match found with
  | .error e => ⟨warned, tree, .error (.file e)⟩
  | .ok [] => ⟨warned ++ [errorLine "No CND files found."], tree, .ok failed⟩
  | .ok files =>
    let linted := Lint.lintFiles tree settings.conflict seed files
    let log := linted.events.flatMap (logged s)
    match linted.outcome with
    | .error f => ⟨warned ++ log, tree, .error (.reading f)⟩
    | .ok reports =>
      let pieces := warned ++ log ++ [printed (a.format.print reports)]
      if reports.all (·.isOk) then (exportAll s now a tree reports).after pieces
      else ⟨pieces, tree, .ok failed⟩

/-- Read the seed file, and lint. -/
def seedAndLint (settings : Settings) (now : String) (a : Arguments) (tree : FileTree) : Outcome :=
  let s := streams settings a.format
  match a.namespaces.filter (!·.isEmpty) with
  | none => lint s settings now a tree none
  | some path =>
    let (events, result) :=
      SeedFile.load (.new settings.cacheEnabled) tree none (.ofString path)
    let log := events.flatMap (logged s)
    match result with
    | .ok ns => (lint s settings now a tree (some ns)).after log
    | .error e =>
      if e.isPassedOn then ⟨log, tree, .error (.seed e)⟩
      else ⟨log ++ [errorLine s!"Error: {e.message}"], tree, .ok refused⟩

/-- A run in an environment and a tree of files, at a time. -/
def run (env : Environment) (now : String) (args : List String) (tree : FileTree) : Outcome :=
  match Request.ofArguments args with
  | .help => ⟨[printed help], tree, .ok succeeded⟩
  | .refused e => ⟨[⟨true, e.report⟩], tree, .ok refused⟩
  | .lint a => seedAndLint (Settings.readLenient env).1 now a tree

end Cnd.CommandLine
