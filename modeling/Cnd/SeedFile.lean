import Cnd.Elaboration
import Cnd.Schema.Documents
import Cnd.Yaml.Loader

/-!
Seed files: prefixes that are there before a definition text is read. The data of a seed file must
meet its schema, and no prefix may be declared against a binding that is there already.
-/

namespace Cnd.SeedFile

/-- Why the data is no seed file. -/
inductive Fault where
  /-- Issues and their places. -/
  | invalid (issues : List (String × Location))
  | declaration (e : NameError) (place : Location)
  /-- An issue that cannot be put in words, which is passed on as it is. -/
  | unwritable

namespace Fault

def message : Fault → String
  | .invalid issues =>
    "Invalid namespace file: " ++ "; ".intercalate (issues.map fun i => i.1 ++ i.2.suffix)
  | .declaration e place => e.message ++ place.suffix
  | .unwritable => Numeral.unwritableMessage

/-- Whether a fault is passed on as it is. -/
def isPassedOn : Fault → Bool
  | .unwritable => true
  | _ => false

end Fault

/-- An issue with its place in a file. -/
def located (places : SourceMap) (file : Option FilePath) (i : SchemaIssue) : String × Location :=
  (i.message, places.locate (some i.pathText) file)

/-- The table with the declarations of a mapping; the first one that fails ends it. -/
def declareAll (places : SourceMap) (file : Option FilePath) (ns : Namespaces) :
    List (Data × Data) → List Event × Except Fault Namespaces
  | [] => ([], .ok ns)
  | (pfx, uri) :: rest =>
    match ns.declareData .error pfx uri with
    | .error e =>
      let place := places.locate (some ("/namespaces/" ++ pfx.bare)) file
      ([], .error (.declaration e place))
    | .ok (ns, change) =>
      let (events, result) := declareAll places file ns rest
      (change.events pfx.bare uri.bare ++ events, result)

/-- The entries of the data of a seed file. -/
def entries (d : Data) : List (Data × Data) :=
  match d.member? "namespaces" with
  | some (.map es) => es
  | _ => []

/-- The table that the data of a seed file makes of a given one, or of the built-in prefixes. -/
def table (places : SourceMap) (file : Option FilePath) (base : Option Namespaces) (d : Data) :
    List Event × Except Fault Namespaces :=
  let issues := Schema.seedFile.check d
  if !issues.all (·.isWritable) then ([], .error .unwritable)
  else if issues.isEmpty then
    match base with
    | some ns => declareAll places file ns (entries d)
    | none =>
      let (events, result) := declareAll places file .builtin (entries d)
      (Namespaces.builtinEvents ++ events, result)
  else ([], .error (.invalid (issues.map (located places file))))

/-! ## Loading -/

/-- Why a seed file gives no table. -/
inductive LoadError where
  | file (e : Yaml.LoadError)
  | content (f : Fault)

namespace LoadError

def message : LoadError → String
  | .file e => e.message
  | .content f => f.message

/-- Whether an error is passed on as it is. -/
def isPassedOn : LoadError → Bool
  | .file e => e.isPassedOn
  | .content f => f.isPassedOn

end LoadError

/-- The table that a seed file makes of a given one, or of the built-in prefixes. -/
def load (loader : Yaml.Loader) (tree : FileTree) (base : Option Namespaces) (p : FilePath) :
    List Event × Except LoadError Namespaces :=
  let (_, events, loaded) := loader.load tree p
  match loaded with
  | .error e => (events, .error (.file e))
  | .ok document =>
    let (declared, result) := table document.places (some p) base document.data
    match result with
    | .error f => (events ++ declared, .error (.content f))
    | .ok ns =>
      let count := (entries document.data).length
      (events ++ declared ++ [.loadedNamespaces count p.text], .ok ns)

end Cnd.SeedFile
