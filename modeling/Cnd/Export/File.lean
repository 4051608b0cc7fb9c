import Cnd.Export.Basic
import Cnd.Json.Read
import Cnd.Json.Write
import Cnd.Location
import Cnd.TextFile
import Cnd.Yaml.Document
import Cnd.Yaml.Write

/-!
Payloads in files: YAML if the name of the file says so, else JSON.
-/

namespace Cnd.Export

/-- Whether the file of a path holds YAML. -/
def isYaml (path : String) : Bool := [".yaml", ".yml"].contains (FilePath.ofString path).suffix

/-- The place that reports about a file name. -/
def placeOf (path : String) : String := (Location.ofFile (.ofString path)).suffix

/-! ## Saving -/

/-- The text of a file with the given data. -/
def fileText (path : String) (d : Data) : String := if isYaml path then Yaml.write d else Json.write d

/-- Save data in a file, with the directories above it. Only what happens to the file itself is
reported. -/
def save (tree : FileTree) (path : String) (d : Data) : List Event × Except FileError FileTree :=
  match tree.makeParents path with
  | .error e => ([], .error e)
  | .ok tree =>
    match tree.writeText path (fileText path d).toUTF8 with
    | .error e =>
      if e.fault == .nullChar then ([], .error e)
      else ([.saveFailed path e.message (placeOf path)], .error e)
    | .ok tree => ([.saved path], .ok tree)

/-! ## Loading -/

/-- Why a file gives no data. -/
inductive LoadError where
  | file (e : TextFileError)
  | json (e : Json.ReadError)
  | yaml (f : Yaml.ReadFault)
  deriving DecidableEq, Repr

namespace LoadError

def message : LoadError → String
  | .file e => e.message
  | .json e => e.message
  | .yaml f => f.message

/-- Whether the fault is of a kind that is not expected in a file. -/
def isUnexpected : LoadError → Bool
  | .yaml f => f.isUnexpected
  | _ => false

end LoadError

/-- How many bytes of a YAML file are decoded at a time. -/
def chunkSize : Nat := 8192

/-- The fault of a file that is read in chunks: its offsets count from the start of its chunk, and
in the last sequence of a file from the start of that sequence. -/
def chunkFault (f : Text.Utf8.Fault) : Text.Utf8.Fault :=
  if f.reason == .unexpectedEnd then { f with offset := 0 } else { f with offset := f.offset % chunkSize }

/-- The data of bytes of YAML. -/
def loadYaml (bytes : ByteArray) : Except LoadError Data :=
  match Text.ofBytes bytes with
  | .error f => .error (.file (.encoding (chunkFault f)))
  | .ok text =>
    match Yaml.read text with
    | .ok d => .ok d
    | .error f => .error (.yaml f)

/-- The data of bytes of JSON. -/
def loadJson (bytes : ByteArray) : Except LoadError Data :=
  match Text.ofBytes bytes with
  | .error f => .error (.file (.encoding f))
  | .ok text =>
    match Json.read text with
    | .ok d => .ok d
    | .error e => .error (.json e)

/-- The data of a file. -/
def loadFile (tree : FileTree) (path : String) : Except LoadError Data :=
  match tree.readText path with
  | .error e => .error (.file (.file e))
  | .ok bytes => if isYaml path then loadYaml bytes else loadJson bytes

/-- The data of a file; an error is reported, unless it is of an unexpected kind. -/
def load (tree : FileTree) (path : String) : List Event × Except LoadError Data :=
  match loadFile tree path with
  | .ok d => ([], .ok d)
  | .error e =>
    (if e.isUnexpected then [] else [.loadFailed path e.message (placeOf path)], .error e)

end Cnd.Export
