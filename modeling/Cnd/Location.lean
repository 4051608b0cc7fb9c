import Cnd.FilePath
import Cnd.Text.Digit

/-!
Where in a source something is: a file, a line and column counted from one, and a path into the
data that the file holds. Each part may be unknown.
-/

namespace Cnd

structure Location where
  file : Option FilePath
  line : Option Int
  column : Option Int
  dataPath : Option String
  deriving DecidableEq, Repr, Inhabited

namespace Location

def unknown : Location := ⟨none, none, none, none⟩

/-- The place at a line and column of a source; a source without a name has no file. -/
def ofPosition (source : Option String) (line column : Nat) : Location :=
  let file := match source with
    | none => none
    | some s => if s.isEmpty then none else some (FilePath.ofString s)
  ⟨file, some line, some column, none⟩

def ofFile (p : FilePath) : Location := ⟨some p, none, none, none⟩

/-- The file with line and column as far as they are known. Without a file a known line is shown
with its column, the first one if unknown or zero. -/
def placePart (l : Location) : List String :=
  match l.file, l.line, l.column with
  | some f, some line, some column =>
    [s!"source= {f.text}:{Text.decimalInt line}:{Text.decimalInt column} "]
  | some f, some line, none => [s!"source= {f.text}:{Text.decimalInt line} "]
  | some f, none, _ => [s!"source= {f.text} "]
  | none, some line, column =>
    let c := column.getD 0
    [s!"line= {Text.decimalInt line}:{Text.decimalInt (if c == 0 then 1 else c)} "]
  | none, none, _ => []

def dataPart (l : Location) : List String :=
  match l.dataPath with
  | none => []
  | some p => if p.isEmpty then [] else [s!"yaml_path= {p} "]

/-- The place as it is put after a message; empty if nothing is known. -/
def suffix (l : Location) : String :=
  match l.placePart ++ l.dataPart with
  | [] => ""
  | parts => " (" ++ " ".intercalate parts ++ ")"

end Location

/-- Lines and columns by the path of the value that starts there; either may be missing. -/
abbrev SourceMap := List (String × Option Int × Option Int)

/-- The place of the value at a path, as far as the map knows it. -/
def SourceMap.locate (map : SourceMap) (dataPath : Option String) (file : Option FilePath) :
    Location :=
  match dataPath with
  | none => ⟨file, none, none, none⟩
  | some p =>
    match map.find? (·.1 == p) with
    | some (_, line, column) => ⟨file, line, column, some p⟩
    | none => ⟨file, none, none, some p⟩

end Cnd
