import Cnd.ItemPath

/-!
Property types and typed values. The payload of a value is of the kind that belongs to its type, so
the type is read off the value.
-/

namespace Cnd

inductive PropertyType where
  | string
  | binary
  | long
  | double
  | boolean
  | date
  | name
  | path
  | reference
  | undefined
  deriving DecidableEq, Repr, Inhabited

namespace PropertyType

def text : PropertyType → String
  | .string => "String"
  | .binary => "Binary"
  | .long => "Long"
  | .double => "Double"
  | .boolean => "Boolean"
  | .date => "Date"
  | .name => "Name"
  | .path => "Path"
  | .reference => "Reference"
  | .undefined => "Undefined"

def all : List PropertyType :=
  [.string, .binary, .long, .double, .boolean, .date, .name, .path, .reference, .undefined]

/-- The type that is written with the given text. -/
def ofText? (s : String) : Option PropertyType := all.find? (·.text == s)

end PropertyType

/-- A value of one of the property types. -/
inductive Value where
  | string (s : String)
  | binary (bytes : ByteArray)
  | long (n : Int)
  | double (x : Binary64)
  | boolean (b : Bool)
  | date (m : Moment)
  | name (n : Name)
  | path (p : ItemPath)
  | reference (s : String)
  | undefined (s : String)

namespace Value

def type : Value → PropertyType
  | .string _ => .string
  | .binary _ => .binary
  | .long _ => .long
  | .double _ => .double
  | .boolean _ => .boolean
  | .date _ => .date
  | .name _ => .name
  | .path _ => .path
  | .reference _ => .reference
  | .undefined _ => .undefined

/-- The text of a value whose payload is one. -/
def text? : Value → Option String
  | .string s | .reference s | .undefined s => some s
  | _ => none

end Value

end Cnd
