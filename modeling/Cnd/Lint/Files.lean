import Cnd.DefinitionFile
import Cnd.Lint.Report
import Cnd.Lint.Structure

/-!
Linting files: which files are taken, and what is found in each. Every file is read from the same
prefix table.
-/

namespace Cnd.Lint

/-! ## Finding files -/

/-- The ending of the names of definition files. -/
def extension : String := ".cnd"

/-- What is said of a path that gives no file. -/
inductive PathWarning where
  | missing (p : FilePath)
  | otherExtension (p : FilePath)
  deriving DecidableEq, Repr

def PathWarning.message : PathWarning → String
  | .missing p => s!"Warning: Path does not exist: {p.text}"
  | .otherExtension p => s!"Warning: File does not have a {extension} extension: {p.text}"

/-- The paths below a directory whose last name ends as that of a definition file. -/
def pathsBelow (tree : FileTree) (p : FilePath) : List FilePath :=
  match tree.locate p with
  | .error _ => []
  | .ok here =>
    (((tree.below here).filter fun names => (names.getLastD "").endsWith extension)).map
      fun names => ⟨p.root, p.names ++ names⟩

/-- A directory below a directory that cannot be searched, since its path is too long. -/
def unsearchable? (tree : FileTree) (p : FilePath) : Option FilePath :=
  match tree.locate p with
  | .error _ => none
  | .ok here =>
    (((tree.below here).filter fun names => tree.isDirectory (here ++ names)).map
      fun names => ⟨p.root, p.names ++ names⟩).find?
      fun q => FileTree.pathLimit ≤ q.text.utf8ByteSize

/-- What one given path contributes: the file itself, or the paths below a directory. -/
def findAt (tree : FileTree) (p : FilePath) :
    Except FileError (List PathWarning × List FilePath) :=
  match tree.find? p with
  | .error e => .error e
  | .ok none => .ok ([.missing p], [])
  | .ok (some (.file _)) =>
    if p.suffix == extension then .ok ([], [p]) else .ok ([.otherExtension p], [])
  | .ok (some .directory) =>
    match unsearchable? tree p with
    | some q => .error ⟨.tooLong, q.text⟩
    | none => .ok ([], pathsBelow tree p)

/-- What all given paths contribute, and the warnings up to one that no path may be. -/
def collect (tree : FileTree) :
    List FilePath → List PathWarning × Except FileError (List FilePath)
  | [] => ([], .ok [])
  | p :: rest =>
    match findAt tree p with
    | .error e => ([], .error e)
    | .ok (warnings, found) =>
      let (more, others) := collect tree rest
      (warnings ++ more, others.map (found ++ ·))

/-- The paths to lint, each once and in their order, with the warnings about the given paths. -/
def find (tree : FileTree) (paths : List FilePath) :
    List PathWarning × Except FileError (List FilePath) :=
  let (warnings, found) := collect tree paths
  (warnings, found.map fun ps => ps.eraseDups.mergeSort FilePath.le)

/-! ## Linting -/

/-- The finding of an error. -/
def findingOf (e : ParseError) : Finding := ⟨e.message, e.location.line, e.location.column⟩

/-- The report on definitions that could be read. -/
def reportOn (p : FilePath) (d : Definitions) : FileReport :=
  ⟨p, [], (suspicions d.types).map fun s => ⟨s.message d.namespaces, none, none⟩, some d⟩

/-- The report on a file, unless a fault is passed on. -/
def lintFile (tree : FileTree) (policy : ConflictPolicy) (seed : Option Namespaces)
    (p : FilePath) : Elaboration.Result FileReport :=
  let r := Definitions.tryLoad tree policy seed p
  match r.outcome with
  | .ok d => ⟨r.events, .ok (reportOn p d)⟩
  | .error (.parse e) => ⟨r.events, .ok ⟨p, [findingOf e], [], none⟩⟩
  | .error f => ⟨r.events, .error f⟩

/-- The reports on files, in their order. -/
def lintFiles (tree : FileTree) (policy : ConflictPolicy) (seed : Option Namespaces) :
    List FilePath → Elaboration.Result (List FileReport)
  | [] => ⟨[], .ok []⟩
  | p :: rest =>
    let first := lintFile tree policy seed p
    match first.outcome with
    | .error f => ⟨first.events, .error f⟩
    | .ok report =>
      let others := lintFiles tree policy seed rest
      ⟨first.events ++ others.events, others.outcome.map (report :: ·)⟩

end Cnd.Lint
