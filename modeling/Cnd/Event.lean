import Cnd.Log
import Cnd.Namespaces.Basic

/-!
What the program reports about its work. Each event has a source, a level and a message, and is
written or dropped by the settings of the log.
-/

namespace Cnd

inductive Event where
  | declared (pfx uri : String)
  | keptBinding (pfx uri current : String)
  | movedBinding (pfx former uri : String)
  | readType (name : String) (properties children : Nat)
  | readText (count : Nat) (source : String)
  | readingFile (path : String)
  | readFailed (source error : String)
  | loadingCached (path : String)
  | loading (path : String)
  | cacheCleared
  | loadedNamespaces (count : Nat) (path : String)
  | exportKeeps (pfx source uri kept : String)
  | saved (path : String)
  | saveFailed (path error place : String)
  | loadFailed (path error place : String)
  | policyReplaced (error replacement : String)
  deriving DecidableEq, Repr

namespace Event

def source : Event → String
  | .declared .. | .keptBinding .. | .movedBinding .. => "nodetype_cnd.models.namespaces"
  | .readType .. | .readText .. => "nodetype_cnd.cnd.parser"
  | .readingFile _ | .readFailed .. => "nodetype_cnd.cnd.reader"
  | .loadingCached _ | .loading _ | .cacheCleared => "nodetype_cnd.parsers.yaml_parser"
  | .loadedNamespaces .. => "nodetype_cnd.file_io.namespace_file"
  | .exportKeeps .. | .saved _ | .saveFailed .. | .loadFailed .. =>
    "nodetype_cnd.file_io.definition_json"
  | .policyReplaced .. => "nodetype_cnd.config"

def level : Event → Log.Level
  | .keptBinding .. | .movedBinding .. | .exportKeeps .. | .policyReplaced .. => Log.warning
  | .readText .. | .loadedNamespaces .. | .saved _ => Log.info
  | .saveFailed .. | .loadFailed .. => Log.error
  | _ => Log.debug

def message : Event → String
  | .declared pfx uri => s!"Declared namespace '{pfx}' -> '{uri}'"
  | .keptBinding pfx uri current =>
    s!"Ignoring redeclaration of prefix '{pfx}' as '{uri}' (kept '{current}')"
  | .movedBinding pfx former uri => s!"Remapping prefix '{pfx}' from '{former}' to '{uri}'"
  | .readType name properties children =>
    s!"Parsed node type '{name}' with {Text.decimal properties} property and " ++
      s!"{Text.decimal children} child node definition(s)"
  | .readText count source => s!"Parsed {Text.decimal count} node type definition(s) from {source}"
  | .readingFile path => s!"Reading node type definitions: {path}"
  | .readFailed source error => s!"Parse of {source} failed: {error}"
  | .loadingCached path => s!"Loading configuration (with source) from cache: {path}"
  | .loading path => s!"Loading configuration file (with source): {path}"
  | .cacheCleared => "Configuration cache cleared"
  | .loadedNamespaces count path => s!"Loaded {Text.decimal count} namespace(s) from {path}"
  | .exportKeeps pfx source uri kept =>
    s!"Prefix '{pfx}' of {source} is bound to '{uri}', export keeps '{kept}'"
  | .saved path => s!"Saved node type definitions: {path}"
  | .saveFailed path error place => s!"Failed to save node type definitions: {path}: {error}{place}"
  | .loadFailed path error place => s!"Failed to load node type definitions: {path}: {error}{place}"
  | .policyReplaced error replacement => s!"{error}; falling back to '{replacement}'"

def record (e : Event) : Log.Record := ⟨e.source, e.level, e.message⟩

end Event

/-- What a declaration reports: a warning about a prefix that was bound otherwise, and the binding
that it made. -/
def Namespaces.Change.events (pfx uri : String) : Namespaces.Change → List Event
  | .none => []
  | .kept current => [.keptBinding pfx uri current]
  | .added => [.declared pfx uri]
  | .moved former => [.movedBinding pfx former uri, .declared pfx uri]

/-- What making the table of the built-in prefixes reports. -/
def Namespaces.builtinEvents : List Event :=
  Namespaces.builtinBindings.map fun b => .declared b.1 b.2

end Cnd
