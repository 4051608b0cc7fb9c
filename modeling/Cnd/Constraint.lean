import Cnd.Interval
import Cnd.Pattern.Match
import Cnd.Value.Literal

/-!
Value constraints. The text of a constraint is read according to the type of the property: a
pattern for texts, an interval for numbers, dates and lengths, and a value to be equal to, or to
lie below, for the rest.
-/

namespace Cnd

/-- What a constraint asks of a value. -/
inductive Requirement where
  | pattern (p : Pattern.Tree)
  | long (i : Interval Int)
  | double (i : Interval Binary64)
  | date (i : Interval Moment)
  /-- The count of bytes. -/
  | length (i : Interval Int)
  | boolean (expected : Bool)
  | name (n : Name)
  /-- To be a path, or to lie strictly below it. -/
  | path (p : ItemPath) (deep : Bool)
  /-- That the node referred to has a node type, which the value alone does not tell. -/
  | nodeType (n : Name)

/-- A constraint with its text and the type of the property it was read for. -/
structure Constraint where
  definition : String
  type : PropertyType
  requirement : Requirement

/-- Why a text is no constraint of a type. -/
inductive ConstraintFault where
  | pattern (text : String) (fault : Pattern.Fault)
  | notRange
  | noBounds
  | crossedBounds
  | negativeLength (text : String)
  | bound (fault : LiteralFault)
  | name (e : NameError)
  | path (e : PathError)

def Pattern.Fault.message (text : String) : Pattern.Fault → String
  | .malformed cause none => "invalid regular expression: " ++ cause.message
  | .malformed cause (some offset) =>
    "invalid regular expression: " ++ cause.message ++ Pattern.placeText text.toList offset
  | .alphabetClash => "ASCII and UNICODE flags are incompatible"
  | .countTooLong digits => Numeral.tooLongMessage digits
  | .overflow o => o.message

def ConstraintFault.message : ConstraintFault → String
  | .pattern text fault => fault.message text
  | .notRange => "expected a range such as '[min, max]' or '(min, max)'"
  | .noBounds => "a range needs at least one bound"
  | .crossedBounds => "lower bound is greater than upper bound"
  | .negativeLength text => s!"length bound '{text}' must not be negative"
  | .bound fault => fault.message
  | .name e => e.message
  | .path e => e.message

/-- A text that is no constraint, with the reason. -/
structure ConstraintError where
  text : String
  type : PropertyType
  fault : ConstraintFault

/-- The number that is too large, where the error is one. -/
def ConstraintError.overflow? (e : ConstraintError) : Option Pattern.Overflow :=
  match e.fault with
  | .pattern _ (.overflow o) => some o
  | _ => none

def ConstraintError.message (e : ConstraintError) : String :=
  match e.overflow? with
  | some o => o.message
  | none =>
    s!"'{e.text}' is not a valid constraint expression for a value of type {e.type.text}: " ++
      e.fault.message

namespace Constraint

/-! ## Intervals -/

def intComparison : Interval.Comparison Int := ⟨fun a b => a < b, fun a b => a == b⟩

def doubleComparison : Interval.Comparison Binary64 := ⟨Binary64.lt, Binary64.eq⟩

/-- Moments are compared as instants. -/
def momentComparison : Interval.Comparison Moment :=
  ⟨fun a b => a.instant < b.instant, fun a b => a.instant == b.instant⟩

/-- The brackets and the two parts of the text of an interval. -/
structure RangeParts where
  lowerInclusive : Bool
  lower : String
  upper : String
  upperInclusive : Bool

/-- A bracket, a part, a comma, a part and a bracket, with blanks anywhere between them; the parts
hold no comma. -/
def splitRange (text : String) : Option RangeParts :=
  match Text.trim text.toList with
  | opening :: rest =>
    match rest.reverse with
    | closing :: middle =>
      let middle := middle.reverse
      let lower := middle.takeWhile (· != ',')
      let upper := (middle.dropWhile (· != ',')).drop 1
      if (opening == '[' || opening == '(') && (closing == ']' || closing == ')') &&
          middle.contains ',' && !upper.contains ',' then
        some ⟨opening == '[', String.ofList (Text.trim lower), String.ofList (Text.trim upper),
          closing == ']'⟩
      else none
    | [] => none
  | [] => none

/-- A bound, unless its part is empty. -/
def readBound {α : Type} (read : String → Except ConstraintFault α) (part : String) :
    Except ConstraintFault (Option α) :=
  if part.isEmpty then .ok none else (read part).map some

/-- The interval that a text denotes, given how bounds are read and compared. -/
def readInterval {α : Type} (read : String → Except ConstraintFault α)
    (c : Interval.Comparison α) (text : String) : Except ConstraintFault (Interval α) :=
  match splitRange text with
  | none => .error .notRange
  | some parts => do
    let lower ← readBound read parts.lower
    let upper ← readBound read parts.upper
    match lower, upper with
    | none, none => .error .noBounds
    | some l, some u =>
      if c.lt u l then .error .crossedBounds
      else .ok ⟨lower, upper, parts.lowerInclusive, parts.upperInclusive⟩
    | _, _ => .ok ⟨lower, upper, parts.lowerInclusive, parts.upperInclusive⟩

/-- A literal as a bound. -/
def literalBound {α : Type} (read : String → Except LiteralFault α) (text : String) :
    Except ConstraintFault α :=
  match read text with
  | .ok x => .ok x
  | .error fault => .error (.bound fault)

/-- An integer that is not negative. -/
def lengthBound (text : String) : Except ConstraintFault Int :=
  match Literal.readLong text with
  | .error fault => .error (.bound fault)
  | .ok n => if n < 0 then .error (.negativeLength text) else .ok n

/-! ## Reading -/

/-- A path, or a path and an asterisk below it. The asterisk below the root is its own spelling. -/
def readPath (ns : Namespaces) (text : String) : Except ConstraintFault Requirement :=
  let cs := text.toList
  let deep := ['*', '/'].isPrefixOf cs.reverse
  let stem := if deep then cs.take (cs.length - 2) else cs
  let stem := if deep && stem.isEmpty then ['/'] else stem
  match ItemPath.parse ns (String.ofList stem) with
  | .ok p => .ok (.path p deep)
  | .error e => .error (.path e)

def readName (ns : Namespaces) (text : String) : Except ConstraintFault Name :=
  match ns.resolve text with
  | .ok n => .ok n
  | .error e => .error (.name e)

def readPattern (text : String) : Except ConstraintFault Requirement :=
  match Pattern.read text.toList with
  | .ok tree => .ok (.pattern tree)
  | .error fault => .error (.pattern text fault)

/-- What the text of a constraint asks of values of a type. -/
def readRequirement (ns : Namespaces) (type : PropertyType) (text : String) :
    Except ConstraintFault Requirement :=
  match type with
  | .string | .undefined => readPattern text
  | .long => (readInterval (literalBound Literal.readLong) intComparison text).map .long
  | .double => (readInterval (literalBound Literal.readDouble) doubleComparison text).map .double
  | .date => (readInterval (literalBound Literal.readDate) momentComparison text).map .date
  | .binary => (readInterval lengthBound intComparison text).map .length
  | .boolean => (literalBound Literal.readBoolean text).map .boolean
  | .name => (readName ns text).map .name
  | .path => readPath ns text
  | .reference => (readName ns text).map .nodeType

/-- The constraint of a text. -/
def read (ns : Namespaces) (type : PropertyType) (text : String) :
    Except ConstraintError Constraint :=
  match readRequirement ns type text with
  | .ok r => .ok ⟨text, type, r⟩
  | .error fault => .error ⟨text, type, fault⟩

/-! ## Meaning -/

/-- Whether a value meets a constraint. -/
def isSatisfiedBy (c : Constraint) (v : Value) : Bool :=
  match c.requirement, v with
  | .pattern p, v => match v.text? with
    | some s => p.matchesWhole s.toList
    | none => false
  | .long i, .long n => i.contains intComparison n
  | .double i, .double x => i.contains doubleComparison x
  | .date i, .date m => i.contains momentComparison m
  | .length i, .binary bytes => i.contains intComparison bytes.size
  | .boolean expected, .boolean b => b == expected
  | .name n, .name m => m == n
  | .path p deep, .path q => if deep then p.isAncestorOf q else q == p
  | _, _ => false

/-- Whether a node of the given types may be referred to. -/
def isSatisfiedByNodeTypes (c : Constraint) (types : List Name) : Bool :=
  match c.requirement with
  | .nodeType n => types.contains n
  | _ => false

end Constraint

end Cnd
