import Cnd.Constraint
import Cnd.Keyword

/-!
Node type definitions with all names resolved.
-/

namespace Cnd

/-- The attributes that properties and child nodes have in common. -/
structure ItemAttributes where
  autocreated : Bool := false
  mandatory : Bool := false
  isProtected : Bool := false
  /-- Several values of a property, or several child nodes of one name. -/
  multiple : Bool := false
  primary : Bool := false
  onParentVersion : VersionAction := .copy
  deriving DecidableEq, Repr, Inhabited

structure PropertyDefinition where
  name : Name
  declaringType : Name
  type : PropertyType
  defaults : List Value
  constraints : List Constraint
  attributes : ItemAttributes

structure ChildDefinition where
  name : Name
  declaringType : Name
  requiredTypes : List Name
  defaultType : Option Name
  attributes : ItemAttributes
  deriving DecidableEq, Repr

structure NodeType where
  name : Name
  supertypes : List Name
  orderable : Bool
  mixin : Bool
  primaryItem : Option Name
  properties : List PropertyDefinition
  children : List ChildDefinition

namespace NodeType

def hasMembers (t : NodeType) : Bool := !t.properties.isEmpty || !t.children.isEmpty

/-- The first property of a name. -/
def property? (t : NodeType) (name : Name) : Option PropertyDefinition :=
  t.properties.find? (·.name == name)

/-- The first child node of a name. -/
def child? (t : NodeType) (name : Name) : Option ChildDefinition :=
  t.children.find? (·.name == name)

end NodeType

/-- What a definition text says: its node types in order, and the prefixes known at its end. -/
structure Definitions where
  types : List NodeType
  namespaces : Namespaces

/-- The last node type of a name. -/
def Definitions.find? (d : Definitions) (name : Name) : Option NodeType :=
  d.types.reverse.find? (·.name == name)

end Cnd
