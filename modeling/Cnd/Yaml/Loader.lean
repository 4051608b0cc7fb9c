import Cnd.Event
import Cnd.TextFile
import Cnd.Yaml.Document

/-!
Loading YAML files. A loader may keep what it has read: as long as the file is there, it then gives
what it read first.
-/

namespace Cnd.Yaml

/-- Why a file cannot be loaded. -/
inductive LoadError where
  | missing (p : FilePath)
  | noFile (p : FilePath)
  | unreadable (p : FilePath) (e : TextFileError)
  /-- The text is at odds with YAML. -/
  | malformed (p : FilePath) (f : ReadFault)
  /-- A value that does not exist, which is passed on as it is. -/
  | value (f : ReadFault)
  /-- A name that no path may have, which is passed on as it is. -/
  | path (e : FileError)
  deriving DecidableEq, Repr

/-- What is said of a text that is at odds with YAML. -/
def malformedMessage (f : ReadFault) : String := s!"Failed to parse YAML content: {f.message}"

namespace LoadError

/-- Whether an error is passed on as it is. -/
def isPassedOn : LoadError → Bool
  | .value _ | .path _ => true
  | _ => false

def message : LoadError → String
  | .missing p => s!"Configuration file not found: {p.text}"
  | .noFile p => s!"Path is not a file: {p.text}"
  | .unreadable p e => s!"Failed to read configuration file {p.text}: {e.message}"
  | .malformed p f => s!"{p.text}: {malformedMessage f}"
  | .value f => f.message
  | .path e => e.message

end LoadError

structure Loader where
  caching : Bool
  cache : List (FilePath × Document)

namespace Loader

def new (caching : Bool) : Loader := ⟨caching, []⟩

/-- Read a file anew. -/
def readFile (tree : FileTree) (p : FilePath) : Except LoadError Document :=
  match tree.readChars p with
  | .error e => .error (.unreadable p e)
  | .ok text =>
    match Document.ofText text with
    | .ok d => .ok d
    | .error f => .error (if f.isYaml then .malformed p f else .value f)

/-- What has been kept of a path. -/
def kept? (l : Loader) (p : FilePath) : Option Document :=
  if l.caching then l.cache.lookup p else none

def keep (l : Loader) (p : FilePath) (d : Document) : Loader :=
  if l.caching then { l with cache := (p, d) :: l.cache } else l

/-- Load a file: the loader after it, what is reported, and the document. -/
def load (l : Loader) (tree : FileTree) (p : FilePath) :
    Loader × List Event × Except LoadError Document :=
  match tree.find? p with
  | .error e => (l, [], .error (.path e))
  | .ok none => (l, [], .error (.missing p))
  | .ok (some .directory) => (l, [], .error (.noFile p))
  | .ok (some (.file _)) =>
    match l.kept? p with
    | some d => (l, [.loadingCached p.text], .ok d)
    | none =>
      match readFile tree p with
      | .error e => (l, [.loading p.text], .error e)
      | .ok d => (l.keep p d, [.loading p.text], .ok d)

/-- Forget what has been kept. -/
def clear (l : Loader) : Loader × List Event := ({ l with cache := [] }, [.cacheCleared])

end Loader

end Cnd.Yaml
