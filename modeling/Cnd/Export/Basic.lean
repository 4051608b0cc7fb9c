import Cnd.Definition
import Cnd.Event

/-!
Flat records of definitions, in which every name, default value and constraint is a text.

A payload joins the definitions of several sources under one prefix table. The first source that
binds a prefix decides its URI; a name in a namespace that has lost its prefix is written with the
URI in braces. The texts of constraints are kept as they were written.
-/

namespace Cnd.Export

structure PropertyRecord where
  name : String
  requiredType : String
  defaults : List String
  constraints : List String
  attributes : ItemAttributes
  deriving DecidableEq, Repr

structure ChildRecord where
  name : String
  requiredTypes : List String
  defaultType : Option String
  attributes : ItemAttributes
  deriving DecidableEq, Repr

structure TypeRecord where
  name : String
  supertypes : List String
  orderable : Bool
  mixin : Bool
  primaryItem : Option String
  properties : List PropertyRecord
  children : List ChildRecord
  deriving DecidableEq, Repr

/-! ## Records of definitions -/

def PropertyRecord.ofDefinition (ns : Namespaces) (p : PropertyDefinition) : PropertyRecord where
  name := ns.render p.name
  requiredType := p.type.text
  defaults := p.defaults.map (Value.write ns)
  constraints := p.constraints.map (·.definition)
  attributes := p.attributes

def ChildRecord.ofDefinition (ns : Namespaces) (c : ChildDefinition) : ChildRecord where
  name := ns.render c.name
  requiredTypes := c.requiredTypes.map ns.render
  defaultType := c.defaultType.map ns.render
  attributes := c.attributes

def TypeRecord.ofDefinition (ns : Namespaces) (t : NodeType) : TypeRecord where
  name := ns.render t.name
  supertypes := t.supertypes.map ns.render
  orderable := t.orderable
  mixin := t.mixin
  primaryItem := t.primaryItem.map ns.render
  properties := t.properties.map (PropertyRecord.ofDefinition ns)
  children := t.children.map (ChildRecord.ofDefinition ns)

/-! ## Records as plain data -/

def texts (xs : List String) : Data := .list (xs.map .text)

def textOrNull : Option String → Data
  | some s => .text s
  | none => .null

/-- A mapping with the given members. -/
def members (ms : List (String × Data)) : Data := .map (ms.map fun m => (.text m.1, m.2))

def PropertyRecord.toData (p : PropertyRecord) : Data :=
  members
    [("name", .text p.name),
     ("required_type", .text p.requiredType),
     ("default_values", texts p.defaults),
     ("value_constraints", texts p.constraints),
     ("autocreated", .bool p.attributes.autocreated),
     ("mandatory", .bool p.attributes.mandatory),
     ("protected", .bool p.attributes.isProtected),
     ("multiple", .bool p.attributes.multiple),
     ("primary", .bool p.attributes.primary),
     ("on_parent_version", .text p.attributes.onParentVersion.text)]

def ChildRecord.toData (c : ChildRecord) : Data :=
  members
    [("name", .text c.name),
     ("required_primary_types", texts c.requiredTypes),
     ("default_primary_type", textOrNull c.defaultType),
     ("autocreated", .bool c.attributes.autocreated),
     ("mandatory", .bool c.attributes.mandatory),
     ("protected", .bool c.attributes.isProtected),
     ("primary", .bool c.attributes.primary),
     ("same_name_siblings", .bool c.attributes.multiple),
     ("on_parent_version", .text c.attributes.onParentVersion.text)]

def TypeRecord.toData (t : TypeRecord) : Data :=
  members
    [("name", .text t.name),
     ("supertypes", texts t.supertypes),
     ("orderable", .bool t.orderable),
     ("mixin", .bool t.mixin),
     ("primary_item", textOrNull t.primaryItem),
     ("properties", .list (t.properties.map PropertyRecord.toData)),
     ("child_nodes", .list (t.children.map ChildRecord.toData))]

/-! ## Payloads -/

/-- The version of the layout of a payload. -/
def schemaVersion : String := "1.0"

structure Payload where
  sources : List String
  generatedAt : String
  namespaces : Namespaces
  types : List TypeRecord

/-- The table with a binding of a source, unless its prefix is bound already; reports a binding
that is given up. -/
def mergeBinding (source : String) (merged : Namespaces) (pfx uri : String) :
    Namespaces × List Event :=
  match merged.uri? pfx with
  | none => (merged.bind pfx uri, [.declared pfx uri])
  | some kept => (merged, if kept == uri then [] else [.exportKeeps pfx source uri kept])

/-- The table with all bindings of a source that can be kept. -/
def mergeTable (source : String) (merged : Namespaces) :
    List (String × String) → Namespaces × List Event
  | [] => (merged, [])
  | (pfx, uri) :: rest =>
    let (merged, events) := mergeBinding source merged pfx uri
    let (merged, more) := mergeTable source merged rest
    (merged, events ++ more)

/-- The table with the bindings of all sources, the first one going first. -/
def mergeAll (merged : Namespaces) : List (String × Definitions) → Namespaces × List Event
  | [] => (merged, [])
  | (source, d) :: rest =>
    let (merged, events) := mergeTable source merged d.namespaces.bindings
    let (merged, more) := mergeAll merged rest
    (merged, events ++ more)

/-- The payload of the definitions of named sources. -/
def Payload.ofSources (generatedAt : String) (sources : List (String × Definitions)) :
    Payload × List Event :=
  let (merged, events) := mergeAll .empty sources
  let types := sources.flatMap fun s => s.2.types.map (TypeRecord.ofDefinition merged)
  (⟨sources.map (·.1), generatedAt, merged, types⟩, events)

def Payload.toData (p : Payload) : Data :=
  members
    [("schema_version", .text schemaVersion),
     ("metadata", members [("sources", texts p.sources), ("generated_at", .text p.generatedAt)]),
     ("namespaces", p.namespaces.toData),
     ("node_types", .list (p.types.map TypeRecord.toData))]

end Cnd.Export
