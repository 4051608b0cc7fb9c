import Cnd.Definition
import Cnd.Export.Basic
import Cnd.FilePath
import Cnd.Json.Write

/-!
What was found in each file, and the three ways to print it: for people, as JSON, and as workflow
commands.
-/

namespace Cnd.Lint

/-- A message with a line and column, as far as they are known. -/
structure Finding where
  message : String
  line : Option Int
  column : Option Int
  deriving DecidableEq, Repr

/-- What was found in a file, and what the file says if it could be read. -/
structure FileReport where
  file : FilePath
  errors : List Finding
  warnings : List Finding
  definitions : Option Definitions

namespace FileReport

def isOk (r : FileReport) : Bool := r.errors.isEmpty

def isClean (r : FileReport) : Bool := r.errors.isEmpty && r.warnings.isEmpty

end FileReport

/-! ## For people -/

/-- The line, and the column behind it; a column alone is not shown. -/
def Finding.place (f : Finding) : String :=
  match f.line, f.column with
  | some line, some column => s!":{Text.decimalInt line}:{Text.decimalInt column}"
  | some line, none => s!":{Text.decimalInt line}"
  | none, _ => ""

/-- The lines for a file; none if nothing was found. -/
def FileReport.humanLines (r : FileReport) : List String :=
  if r.isClean then []
  else
    ["", r.file.text ++ ":"] ++
    r.errors.map (fun f => s!"  ERROR{f.place}: {f.message}") ++
    r.warnings.map (fun f => s!"  WARNING{f.place}: {f.message}")

/-! ## JSON -/

def numberMember (name : String) : Option Int → List (String × Data)
  | some n => [(name, .int n)]
  | none => []

def Finding.toData (f : Finding) : Data :=
  Export.members
    (("message", .text f.message) :: numberMember "line" f.line ++ numberMember "column" f.column)

def FileReport.toData (r : FileReport) : Data :=
  Export.members
    [("file", .text r.file.text),
     ("errors", .list (r.errors.map Finding.toData)),
     ("warnings", .list (r.warnings.map Finding.toData))]

/-- The counts over all files, and the files. -/
def reportData (reports : List FileReport) : Data :=
  Export.members
    [("files", .int reports.length),
     ("errors", .int ((reports.map (·.errors.length)).foldl (· + ·) 0 : Nat)),
     ("warnings", .int ((reports.map (·.warnings.length)).foldl (· + ·) 0 : Nat)),
     ("results", .list (reports.map FileReport.toData))]

/-! ## Workflow commands -/

/-- The command for a finding; an unknown line or column is the first. -/
def Finding.command (kind : String) (file : FilePath) (f : Finding) : String :=
  s!"::{kind} file={file.text},line={Text.decimalInt (f.line.getD 1)},col=" ++
    s!"{Text.decimalInt (f.column.getD 1)}::{f.message}"

def FileReport.commands (r : FileReport) : List String :=
  r.errors.map (Finding.command "error" r.file) ++ r.warnings.map (Finding.command "warning" r.file)

/-! ## Printing -/

inductive Format where
  | human
  | json
  | commands
  deriving DecidableEq, Repr

/-- The name of a format on the command line. -/
def Format.text : Format → String
  | .human => "human"
  | .json => "json"
  | .commands => "github-actions"

def Format.all : List Format := [.human, .json, .commands]

/-- The format of a name; any other name is the format for people. -/
def Format.ofText (s : String) : Format := (Format.all.find? (·.text == s)).getD .human

/-- The lines of a report. -/
def Format.lines (f : Format) (reports : List FileReport) : List String :=
  match f with
  | .human => reports.flatMap FileReport.humanLines
  | .json => [Json.write (reportData reports)]
  | .commands => reports.flatMap FileReport.commands

/-- The text of a report. -/
def Format.print (f : Format) (reports : List FileReport) : String :=
  String.join ((f.lines reports).map (· ++ "\n"))

end Cnd.Lint
