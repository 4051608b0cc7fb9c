import Cnd.Keyword
import Cnd.Token.Basic

/-!
The outline of a definition text: its clauses as trees of tokens, before any name is resolved.

A text that breaks the grammar still has an outline up to the break, since what the clauses before
it mean may be wrong already, and the fault that comes first is the one to report.
-/

namespace Cnd

/-- The name of a property or child node. -/
inductive ItemName where
  | wildcard
  | named (t : Token)
  deriving DecidableEq, Repr

/-- What a keyword behind an item says. -/
inductive Mark where
  | attribute (a : Attribute)
  | action (v : VersionAction)
  deriving DecidableEq, Repr

structure PropertyClause where
  name : ItemName
  type : PropertyType
  defaults : List Token
  marks : List (Token × Mark)
  constraints : List Token
  deriving DecidableEq, Repr

structure ChildClause where
  name : ItemName
  /-- The required types, unless they are left to the type that all types extend. -/
  requiredTypes : Option (List Token)
  defaultType : Option Token
  marks : List (Token × Mark)
  deriving DecidableEq, Repr

inductive MemberClause where
  | property (c : PropertyClause)
  | child (c : ChildClause)
  deriving DecidableEq, Repr

structure TypeClause where
  name : Token
  supertypes : List Token
  orderable : Bool
  mixin : Bool
  members : List MemberClause
  deriving DecidableEq, Repr

/-- A binding of a prefix to a URI, with its opening sign. -/
structure NamespaceClause where
  opening : Token
  pfx : String
  uri : String
  deriving DecidableEq, Repr

inductive Clause where
  | binding (c : NamespaceClause)
  | nodeType (c : TypeClause)
  deriving DecidableEq, Repr

/-! ## Breaks -/

/-- A sign that has to stand somewhere. -/
inductive Delimiter where
  | bindingEquals
  | bindingClose
  | typeOpen
  | typeClose
  | propertyTypeClose
  | requiredTypesClose
  deriving DecidableEq, Repr

def Delimiter.symbol : Delimiter → Char
  | .bindingEquals => '='
  | .bindingClose => '>'
  | .typeOpen => '['
  | .typeClose => ']'
  | .propertyTypeClose => ')'
  | .requiredTypesClose => ')'

def Delimiter.missing : Delimiter → String
  | .bindingEquals => "Missing '=' in namespace declaration"
  | .bindingClose => "Missing '>' in namespace declaration"
  | .typeOpen => "Missing '[' delimiter for beginning of node type name"
  | .typeClose => "Missing ']' delimiter for end of node type name"
  | .propertyTypeClose => "Missing ')' delimiter for end of property type"
  | .requiredTypesClose => "Missing ')' delimiter for end of required primary types"

/-- A text that has to stand somewhere. -/
inductive Expected where
  | bindingPrefix
  | bindingUri
  | typeName
  | supertypeName
  | propertyName
  | childName
  | requiredType
  | defaultType
  | defaultValue
  | constraint
  deriving DecidableEq, Repr

def Expected.missing : Expected → String
  | .bindingPrefix => "Missing prefix in namespace declaration"
  | .bindingUri => "Missing URI in namespace declaration"
  | .typeName => "Expected node type name"
  | .supertypeName => "Expected supertype name"
  | .propertyName => "Expected property name"
  | .childName => "Expected child node name"
  | .requiredType => "Expected required primary type"
  | .defaultType => "Expected default primary type"
  | .defaultValue => "Expected default value"
  | .constraint => "Expected constraint expression"

/-- Why a token cannot stand where it is. -/
inductive GrammarFault where
  | delimiter (d : Delimiter)
  | text (e : Expected)
  | propertyType
  deriving DecidableEq, Repr

/-- The message of a fault, naming the token that is there instead. -/
def GrammarFault.message (found : Token) : GrammarFault → String
  | .delimiter d => s!"{d.missing}, found {found.describe}"
  | .text e => s!"{e.missing}, found {found.describe}"
  | .propertyType => s!"Unknown property type {found.describe} specified"

/-- Where a text stops being a definition text: where the scan stopped, or at a token. -/
inductive Break where
  | scan
  | grammar (fault : GrammarFault) (found : Token)
  deriving DecidableEq, Repr

/-- How an outline ends: with the text, or at a break, perhaps inside a node type. -/
inductive OutlineEnd where
  | complete
  | broken (partialType : Option TypeClause) (stop : Break)
  deriving DecidableEq, Repr

structure Outline where
  clauses : List Clause
  ending : OutlineEnd
  deriving DecidableEq, Repr

end Cnd
