import Cnd.Value.Basic

/-!
Literals: the texts of values. Each type has a reader, which gives the payload or the reason why
the text has none, and a writer, whose text the reader takes back.
-/

namespace Cnd

/-- Why a text is no literal, or no bound, of a type. -/
inductive LiteralFault where
  | notInteger (text : String)
  | outOfRange (text : String)
  | tooLong (digits : Nat)
  | notDouble (text : String)
  | overflow (text : String)
  | notBoolean (text : String)
  | notDate (text : String)
  | badOffset (zone : String)
  | field (fault : RangeFault)
  | emptyReference
  | name (e : NameError)
  | path (e : PathError)

def LiteralFault.message : LiteralFault → String
  | .notInteger t => s!"'{t}' is not an integer literal"
  | .outOfRange t => s!"'{t}' is out of the 64-bit integer range"
  | .tooLong digits => Numeral.tooLongMessage digits
  | .notDouble t => s!"'{t}' is not a floating point literal"
  | .overflow t => s!"'{t}' overflows a double"
  | .notBoolean t => s!"'{t}' is not 'true' or 'false'"
  | .notDate t => s!"'{t}' is not a date of the form YYYY-MM-DDThh:mm:ss.SSSTZD"
  | .badOffset zone => s!"Invalid time zone offset '{zone}'"
  | .field fault => fault.message
  | .emptyReference => "a reference needs a non-empty identifier"
  | .name e => e.message
  | .path e => e.message

namespace Literal

/-! ## Integers -/

/-- An optional sign and at least one decimal digit of any script, with a value of 64 bits. -/
def readLong (text : String) : Except LiteralFault Int :=
  let (negative, digits) := Numeral.splitSign text.toList
  if digits.isEmpty || !digits.all Text.isDigit then .error (.notInteger text)
  else match Numeral.ofDigits digits with
    | .error count => .error (.tooLong count)
    | .ok magnitude =>
      let n : Int := if negative then -magnitude else magnitude
      if n < -Nat.pow 2 63 || Nat.pow 2 63 ≤ n then .error (.outOfRange text) else .ok n

/-! ## Doubles -/

/-- A decimal, or one of the names of the values that no decimal denotes. A decimal past the
greatest double is refused. -/
def readDouble (text : String) : Except LiteralFault Binary64 :=
  if text == "NaN" then .ok .nan
  else if text == "Infinity" || text == "+Infinity" then .ok (.infinite false)
  else if text == "-Infinity" then .ok (.infinite true)
  else match Numeral.splitDecimal text.toList with
    | none => .error (.notDouble text)
    | some (negative, digits, exponent) =>
      let x := Binary64.ofDecimal negative digits exponent
      if x.isInfinite then .error (.overflow text) else .ok x

def writeDouble : Binary64 → String
  | .nan => "NaN"
  | .infinite negative => if negative then "-Infinity" else "Infinity"
  | x => x.text

/-! ## Booleans -/

def readBoolean (text : String) : Except LiteralFault Bool :=
  if text == "true" then .ok true
  else if text == "false" then .ok false
  else .error (.notBoolean text)

def writeBoolean (b : Bool) : String := if b then "true" else "false"

/-! ## Dates -/

/-- Exactly `n` digits at the start of a text, and the rest. -/
def takeDigits (n : Nat) (s : List Char) : Option (List Char × List Char) :=
  let digits := s.take n
  if digits.length == n && digits.all Text.isDigit then some (digits, s.drop n) else none

/-- The rest of a text after a character that has to come first. -/
def takeChar (c : Char) : List Char → Option (List Char)
  | [] => none
  | d :: rest => if d == c then some rest else none

/-- The parts of a date literal as they are written. -/
structure DateParts where
  negative : Bool
  year : List Char
  month : List Char
  day : List Char
  hour : List Char
  minute : List Char
  second : List Char
  millis : List Char
  /-- The zone, a single letter or a sign with hours and minutes. -/
  zone : List Char

/-- The zone that a text is as a whole. -/
def takeZone (s : List Char) : Option (List Char) :=
  match s with
  | ['Z'] => some s
  | sign :: rest =>
    if sign != '+' && sign != '-' then none
    else do
      let (_, rest) ← takeDigits 2 rest
      let rest ← takeChar ':' rest
      let (_, rest) ← takeDigits 2 rest
      if rest.isEmpty then some s else none
  | [] => none

/-- The parts of a text of the form `[+-]YYYY-MM-DDThh:mm:ss[.SSS]` and a zone. -/
def splitDate (s : List Char) : Option DateParts := do
  let (negative, rest) := Numeral.splitSign s
  let (year, rest) ← takeDigits 4 rest
  let rest ← takeChar '-' rest
  let (month, rest) ← takeDigits 2 rest
  let rest ← takeChar '-' rest
  let (day, rest) ← takeDigits 2 rest
  let rest ← takeChar 'T' rest
  let (hour, rest) ← takeDigits 2 rest
  let rest ← takeChar ':' rest
  let (minute, rest) ← takeDigits 2 rest
  let rest ← takeChar ':' rest
  let (second, rest) ← takeDigits 2 rest
  let (millis, rest) ← match rest with
    | '.' :: more => takeDigits 3 more
    | _ => some ([], rest)
  let zone ← takeZone rest
  return ⟨negative, year, month, day, hour, minute, second, millis, zone⟩

/-- The distance from UTC in minutes that a zone denotes. -/
def zoneOffset (zone : List Char) : Except LiteralFault Int :=
  match zone with
  | sign :: rest =>
    if sign == 'Z' then .ok 0
    else
      let hours := Text.digitsValue (rest.take 2)
      let minutes := Text.digitsValue ((rest.drop 3).take 2)
      if 23 < hours || 59 < minutes then .error (.badOffset (String.ofList zone))
      else
        let total : Int := hours * 60 + minutes
        .ok (if sign == '-' then -total else total)
  | [] => .ok 0

/-- A date literal. The offset is checked before the fields of the date. -/
def readDate (text : String) : Except LiteralFault Moment :=
  match splitDate text.toList with
  | none => .error (.notDate text)
  | some d =>
    match zoneOffset d.zone with
    | .error e => .error e
    | .ok offset =>
      let number := Text.digitsValue
      let magnitude : Int := number d.year
      let year := if d.negative then -magnitude else magnitude
      match LocalTime.ofFields year (number d.month) (number d.day) (number d.hour)
        (number d.minute) (number d.second) (number d.millis * 1000) with
      | .error fault => .error (.field fault)
      | .ok civil => .ok ⟨civil, offset⟩

/-! ## References -/

/-- Any text that is not blank. -/
def readReference (text : String) : Except LiteralFault String :=
  if (Text.trim text.toList).isEmpty then .error .emptyReference else .ok text

end Literal

namespace Value

/-- The value that a literal of a type denotes, names being resolved by a table. -/
def read (ns : Namespaces) (type : PropertyType) (literal : String) : Except LiteralFault Value :=
  match type with
  | .string => .ok (.string literal)
  | .undefined => .ok (.undefined literal)
  | .reference => (Literal.readReference literal).map .reference
  | .binary => .ok (.binary literal.toUTF8)
  | .long => (Literal.readLong literal).map .long
  | .double => (Literal.readDouble literal).map .double
  | .boolean => (Literal.readBoolean literal).map .boolean
  | .date => (Literal.readDate literal).map .date
  | .name => match ns.resolve literal with
    | .ok n => .ok (.name n)
    | .error e => .error (.name e)
  | .path => match ItemPath.parse ns literal with
    | .ok p => .ok (.path p)
    | .error e => .error (.path e)

/-- The literal of a value, names being written by a table. Bytes are those of a text. -/
def write (ns : Namespaces) : Value → String
  | .string s | .undefined s | .reference s => s
  | .binary bytes => (String.fromUTF8? bytes).getD ""
  | .long n => Text.decimalInt n
  | .double x => Literal.writeDouble x
  | .boolean b => Literal.writeBoolean b
  | .date m => m.literal
  | .name n => ns.render n
  | .path p => p.render ns

end Value

/-- A literal that is none of its type, with the reason. -/
structure ConversionError where
  literal : String
  type : PropertyType
  fault : LiteralFault

def ConversionError.message (e : ConversionError) : String :=
  s!"'{e.literal}' is not a valid string representation of a value of type {e.type.text}: " ++
    e.fault.message

/-- The value that a literal of a type denotes, or the error that says why there is none. -/
def Value.convert (ns : Namespaces) (type : PropertyType) (literal : String) :
    Except ConversionError Value :=
  match Value.read ns type literal with
  | .ok v => .ok v
  | .error fault => .error ⟨literal, type, fault⟩

end Cnd
