import Cnd.Definition

/-!
Definitions that are legal but most likely a mistake: a node type, supertype or member that is
there twice, and a node type that is its own supertype.
-/

namespace Cnd.Lint

/-- The names that a list holds more than once, each once, in the order of their first places. The
wildcard may come again. -/
def repeated (names : List Name) : List Name :=
  names.eraseDups.filter fun n => 1 < names.count n && !n.isWildcard

/-- What is suspicious about definitions. -/
inductive Suspicion where
  | repeatedType (type : Name)
  | repeatedSupertype (type supertype : Name)
  | ownSupertype (type : Name)
  | repeatedProperty (type property : Name)
  | repeatedChild (type child : Name)
  deriving DecidableEq, Repr

def Suspicion.message (ns : Namespaces) : Suspicion → String
  | .repeatedType t => s!"Node type '{ns.render t}' is defined more than once"
  | .repeatedSupertype t s =>
    s!"Node type '{ns.render t}' lists supertype '{ns.render s}' more than once"
  | .ownSupertype t => s!"Node type '{ns.render t}' lists itself as a supertype"
  | .repeatedProperty t p =>
    s!"Node type '{ns.render t}' defines property '{ns.render p}' more than once"
  | .repeatedChild t c =>
    s!"Node type '{ns.render t}' defines child node '{ns.render c}' more than once"

/-- What is suspicious about one node type. -/
def ofType (t : NodeType) : List Suspicion :=
  (repeated t.supertypes).map (.repeatedSupertype t.name) ++
  (if t.supertypes.contains t.name then [.ownSupertype t.name] else []) ++
  (repeated (t.properties.map (·.name))).map (.repeatedProperty t.name) ++
  (repeated (t.children.map (·.name))).map (.repeatedChild t.name)

/-- What is suspicious about the node types of a text. -/
def suspicions (types : List NodeType) : List Suspicion :=
  (repeated (types.map (·.name))).map .repeatedType ++ types.flatMap ofType

end Cnd.Lint
