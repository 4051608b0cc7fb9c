import Cnd.Definition
import Cnd.Event
import Cnd.Outline.Read
import Cnd.ParseError

/-!
What the outline of a definition text means.

The clauses are taken in order: a binding changes the prefix table for the clauses after it, and a
node type is resolved in the table as it is there. The first failure is the result; if the outline
is broken, what stands before the break comes first, and the break is the failure after it.
-/

namespace Cnd

namespace Elaboration

/-- What a fault at a token of the named source amounts to. -/
def fault (source : Option String) (t : Token) (f : ParseFault) : Failure :=
  .parse ⟨f, .ofPosition source t.position.line t.position.column⟩

/-- The text of a token; signs and the ending have none. -/
def textOf (t : Token) : String := t.text?.getD ""

/-! ## Names and literals -/

/-- The name that a token stands for. -/
def name (source : Option String) (ns : Namespaces) (t : Token) : Except Failure Name :=
  match ns.resolve (textOf t) with
  | .ok n => .ok n
  | .error e => .error (fault source t (.name (textOf t) e))

def itemName (source : Option String) (ns : Namespaces) : ItemName → Except Failure Name
  | .wildcard => .ok .wildcard
  | .named t => name source ns t

/-- The value of a default literal. -/
def defaultValue (source : Option String) (ns : Namespaces) (type : PropertyType) (t : Token) :
    Except Failure Value :=
  match Value.convert ns type (textOf t) with
  | .ok v => .ok v
  | .error e => .error (fault source t (.conversion e))

def constraint (source : Option String) (ns : Namespaces) (type : PropertyType) (t : Token) :
    Except Failure Constraint :=
  match Constraint.read ns type (textOf t) with
  | .ok c => .ok c
  | .error e => match e.overflow? with
    | some o => .error (.patternOverflow o)
    | none => .error (fault source t (.constraint e))

/-! ## Marks -/

/-- The attributes of an item after one more attribute. -/
def setAttribute (a : ItemAttributes) : Attribute → ItemAttributes
  | .isPrimary => { a with primary := true }
  | .isAutocreated => { a with autocreated := true }
  | .isMandatory => { a with mandatory := true }
  | .isProtected => { a with isProtected := true }
  | .isMultiple => { a with multiple := true }

/-- The attributes that marks give to an item, and the primary item of its node type after them.
A node type has at most one primary item, and an item is marked as that at most once. -/
def marks (source : Option String) (typeName : String) (item : Name) :
    List (Token × Mark) → ItemAttributes → Option Name →
      Except Failure (ItemAttributes × Option Name)
  | [], a, primary => .ok (a, primary)
  | (t, .attribute .isPrimary) :: rest, a, primary =>
    if primary.isSome then .error (fault source t (.secondPrimary typeName))
    else marks source typeName item rest (setAttribute a .isPrimary) (some item)
  | (_, .attribute k) :: rest, a, primary =>
    marks source typeName item rest (setAttribute a k) primary
  | (_, .action v) :: rest, a, primary =>
    marks source typeName item rest { a with onParentVersion := v } primary

/-! ## Members -/

/-- The property of a clause, and the primary item of the node type after it. -/
def property (source : Option String) (ns : Namespaces) (owner : Name) (primary : Option Name)
    (c : PropertyClause) : Except Failure (PropertyDefinition × Option Name) := do
  let n ← itemName source ns c.name
  let defaults ← c.defaults.mapM (defaultValue source ns c.type)
  let (attributes, primary) ← marks source (ns.render owner) n c.marks {} primary
  let constraints ← c.constraints.mapM (constraint source ns c.type)
  return (⟨n, owner, c.type, defaults, constraints, attributes⟩, primary)

/-- The child node of a clause, and the primary item of the node type after it. -/
def child (source : Option String) (ns : Namespaces) (owner : Name) (primary : Option Name)
    (c : ChildClause) : Except Failure (ChildDefinition × Option Name) := do
  let n ← itemName source ns c.name
  let required ← match c.requiredTypes with
    | none => pure [Name.base]
    | some ts => ts.mapM (name source ns)
  let type ← c.defaultType.mapM (name source ns)
  let (attributes, primary) ← marks source (ns.render owner) n c.marks {} primary
  return (⟨n, owner, required, type, attributes⟩, primary)

/-- The members of a node type so far. -/
structure Members where
  properties : List PropertyDefinition
  children : List ChildDefinition
  primary : Option Name

/-- The members of clauses behind those so far. -/
def members (source : Option String) (ns : Namespaces) (owner : Name) :
    List MemberClause → Members → Except Failure Members
  | [], m => .ok m
  | .property c :: rest, m => do
    let (p, primary) ← property source ns owner m.primary c
    members source ns owner rest ⟨m.properties ++ [p], m.children, primary⟩
  | .child c :: rest, m => do
    let (p, primary) ← child source ns owner m.primary c
    members source ns owner rest ⟨m.properties, m.children ++ [p], primary⟩

/-- The node type of a clause. -/
def nodeType (source : Option String) (ns : Namespaces) (c : TypeClause) :
    Except Failure NodeType := do
  let n ← name source ns c.name
  let supertypes ← c.supertypes.mapM (name source ns)
  let m ← members source ns n c.members ⟨[], [], none⟩
  return ⟨n, supertypes, c.orderable, c.mixin, m.primary, m.properties, m.children⟩

/-! ## Clauses -/

/-- What is reported, and the meaning or the failure. -/
structure Result (α : Type) where
  events : List Event
  outcome : Except Failure α

/-- The failure of a break. -/
def breakFailure (source : Option String) (scan : Option ScanError) : Break → Failure
  | .scan => match scan with
    | some e => .parse ⟨.scan e.fault, .ofPosition source e.position.line e.position.column⟩
    | none => .parse ⟨.scan .openQuote, .unknown⟩
  | .grammar f found => fault source found (.grammar f found)

/-- What reading a node type reports. -/
def typeEvent (ns : Namespaces) (t : NodeType) : Event :=
  .readType (ns.render t.name) t.properties.length t.children.length

/-- The node types of clauses, and the table behind them. -/
def clauses (source : Option String) (policy : ConflictPolicy) :
    List Clause → Namespaces → Result (List NodeType × Namespaces)
  | [], ns => ⟨[], .ok ([], ns)⟩
  | .binding c :: rest, ns =>
    match ns.declare policy c.pfx c.uri with
    | .error e => ⟨[], .error (fault source c.opening (.declaration e))⟩
    | .ok (ns, change) =>
      let r := clauses source policy rest ns
      ⟨change.events c.pfx c.uri ++ r.events, r.outcome⟩
  | .nodeType c :: rest, ns =>
    match nodeType source ns c with
    | .error e => ⟨[], .error e⟩
    | .ok t =>
      let r := clauses source policy rest ns
      ⟨typeEvent ns t :: r.events, r.outcome.map fun (ts, ns) => (t :: ts, ns)⟩

/-- The meaning of an outline. The part of a node type before a break is resolved only to see
whether it fails. -/
def outline (source : Option String) (policy : ConflictPolicy) (scan : Option ScanError)
    (o : Outline) (ns : Namespaces) : Result (List NodeType × Namespaces) :=
  let r := clauses source policy o.clauses ns
  match r.outcome, o.ending with
  | .error e, _ => ⟨r.events, .error e⟩
  | .ok done, .complete => ⟨r.events, .ok done⟩
  | .ok _, .broken none b => ⟨r.events, .error (breakFailure source scan b)⟩
  | .ok (_, ns), .broken (some c) b =>
    match nodeType source ns c with
    | .error e => ⟨r.events, .error e⟩
    | .ok _ => ⟨r.events, .error (breakFailure source scan b)⟩

end Elaboration

/-- How messages name a source that has no name of its own. -/
def Definitions.sourceName (source : String) : String :=
  if source.isEmpty then "<string>" else source

/-- Read a definition text, starting from a prefix table. The source is named in locations. -/
def Definitions.read (source : String) (policy : ConflictPolicy) (ns : Namespaces)
    (text : String) : Elaboration.Result Definitions :=
  let scanned := Token.scan text.toList
  let r := Elaboration.outline (some source) policy scanned.fault (.ofTokens scanned.tokens) ns
  match r.outcome with
  | .error e => ⟨r.events, .error e⟩
  | .ok (types, ns) =>
    ⟨r.events ++ [.readText types.length (sourceName source)], .ok ⟨types, ns⟩⟩

/-- Read a definition text from the given table, or from the built-in prefixes. -/
def Definitions.readWith (source : String) (policy : ConflictPolicy) (seed : Option Namespaces)
    (text : String) : Elaboration.Result Definitions :=
  match seed with
  | some ns => read source policy ns text
  | none =>
    let r := read source policy .builtin text
    ⟨Namespaces.builtinEvents ++ r.events, r.outcome⟩

/-- The message of a reading as a whole. -/
def Definitions.outcomeMessage : Except ParseError Definitions → String
  | .ok d => s!"Parsed {Text.decimal d.types.length} node type definition(s)."
  | .error e => e.text

end Cnd
