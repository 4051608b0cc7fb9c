import Cnd.Data
import Cnd.Text.Base64
import Cnd.Text.LetterCase
import Cnd.Yaml.Node

/-!
The data that a YAML tree stands for.

A tree is taken level by level: the scalars in a collection are read together with it, and the
collections in it afterwards. So of several faults the one of the least depth is the one that is
reported, and among those the first.
-/

namespace Cnd.Yaml

/-- Why a node has no value. -/
inductive ValueFault where
  /-- The node is not of the form that its tag asks for. -/
  | misplaced
  /-- A word that is no truth value. -/
  | truthWord (word : String)
  | noDigits
  | integer (base : Nat) (text : String)
  | tooLong (digits : Nat)
  | float (text : String)
  /-- A part of a number that is worth more than any double. -/
  | overflow
  /-- A text that is no date. -/
  | stamp
  /-- A collection where a date should be. -/
  | stampOfCollection
  | field (fault : RangeFault)
  | zone (minutes : Int)
  deriving DecidableEq, Repr

namespace ValueFault

def message : ValueFault → String
  | .misplaced => ""
  | .truthWord word => Text.quoted word
  | .noDigits => "string index out of range"
  | .integer base text =>
    s!"invalid literal for int() with base {Text.decimal base}: {Text.quoted text}"
  | .tooLong digits => Numeral.tooLongMessage digits
  | .float text => s!"could not convert string to float: {Text.quoted text}"
  | .overflow => "int too large to convert to float"
  | .stamp => "'NoneType' object has no attribute 'groupdict'"
  | .stampOfCollection => "expected string or bytes-like object, got 'list'"
  | .field fault => fault.message
  | .zone minutes =>
    "offset must be a timedelta strictly between -timedelta(hours=24) and timedelta(hours=24), " ++
      s!"not {Data.offsetQuoted minutes}."

end ValueFault

/-! ## Scalars -/

namespace Scalar

def lower (s : List Char) : List Char := s.map fun c => Char.ofNat (Text.lowerCode c.toNat)

def truth (s : List Char) : Except ValueFault Bool :=
  let word := String.ofList (lower s)
  if ["yes", "true", "on"].contains word then .ok true
  else if ["no", "false", "off"].contains word then .ok false
  else .error (.truthWord word)

/-- An integer in a base that is a power of two. -/
def inBase (base : Nat) (s : List Char) : Except ValueFault Int :=
  match Numeral.inBase? base s with
  | some n => .ok n
  | none => .error (.integer base (String.ofList s))

/-- A decimal integer with blanks around it. -/
def inTen (s : List Char) : Except ValueFault Int :=
  let (negative, body) := Numeral.splitSign (Text.trim s)
  let digits := body.takeWhile Text.isDigit
  match Numeral.ofDigits digits with
  | .error count => .error (.tooLong count)
  | .ok n =>
    if digits.isEmpty || digits.length != body.length then .error (.integer 10 (String.ofList s))
    else .ok (if negative then -n else n)

/-- The value of parts between colons, each worth sixty of the next. -/
def sixties (parts : List Int) : Int := parts.foldl (fun n p => 60 * n + p) 0

/-- An integer behind its sign. -/
def unsigned (s : List Char) : Except ValueFault Int :=
  match s with
  | [] => .error .noDigits
  | '0' :: 'b' :: rest => inBase 2 rest
  | '0' :: 'x' :: rest => inBase 16 rest
  | '0' :: _ => inBase 8 s
  | _ =>
    if s.contains ':' then ((s.splitOn ':').mapM inTen).map sixties
    else inTen s

/-- A text without its underscores, and whether a minus stood in front of it. -/
def signed (s : List Char) : Except ValueFault (Bool × List Char) :=
  match s.filter (· != '_') with
  | [] => .error .noDigits
  | '-' :: rest => .ok (true, rest)
  | '+' :: rest => .ok (false, rest)
  | s => .ok (false, s)

def integer (s : List Char) : Except ValueFault Int := do
  let (negative, body) ← signed s
  let n ← unsigned body
  return if negative then -n else n

/-- A decimal with blanks around it, or a word for a value that no decimal denotes. -/
def decimal (s : List Char) : Except ValueFault Binary64 :=
  let trimmed := Text.trim s
  let (negative, body) := Numeral.splitSign trimmed
  let word := String.ofList (lower body)
  if word == "nan" then .ok .nan
  else if word == "inf" || word == "infinity" then .ok (.infinite negative)
  else match Numeral.splitDecimal trimmed with
    | some (negative, digits, exponent) => .ok (.ofDecimal negative digits exponent)
    | none => .error (.float (String.ofList s))

/-- The value of parts in reverse, each worth sixty of the one before. -/
def sixtiesFrom (worth : Nat) (sum : Binary64) : List Binary64 → Except ValueFault Binary64
  | [] => .ok sum
  | x :: rest =>
    let factor := Binary64.ofInt worth
    if factor.isInfinite then .error .overflow
    else sixtiesFrom (worth * 60) (sum.add (x.mul factor)) rest

def float (s : List Char) : Except ValueFault Binary64 := do
  let (negative, body) ← signed (lower s)
  let x ←
    if body == ['.', 'i', 'n', 'f'] then pure (.infinite false)
    else if body == ['.', 'n', 'a', 'n'] then pure .nan
    else if body.contains ':' then do
      let parts ← (body.splitOn ':').mapM decimal
      sixtiesFrom 1 .zero parts.reverse
    else decimal body
  return if negative then x.neg else x

def stamp (s : List Char) : Except ValueFault Data :=
  match Stamp.ofText? (Tag.dropLineFeed s) with
  | none => .error .stamp
  | some ⟨year, month, day, none⟩ =>
    match CalendarDate.ofFields year month day with
    | .ok d => .ok (.date d)
    | .error e => .error (.field e)
  | some ⟨year, month, day, some c⟩ =>
    match c.zone.filter fun z => 1440 ≤ z.natAbs with
    | some z => .error (.zone z)
    | none =>
      match LocalTime.ofFields year month day c.hour c.minute c.second c.microsecond with
      | .ok t => .ok (.time t c.zone)
      | .error e => .error (.field e)

/-- The value of a text under a tag. -/
def value (tag : Tag) (text : String) : Except ValueFault Data :=
  match tag with
  | .null => .ok .null
  | .bool => (truth text.toList).map .bool
  | .int => (integer text.toList).map .int
  | .float => (float text.toList).map .float
  | .binary =>
    match Text.Base64.decode text.toList with
    | some b => .ok (.bytes b)
    | none => .error .misplaced
  | .timestamp => stamp text.toList
  | .str => .ok (.text text)
  | _ => .error .misplaced

end Scalar

/-! ## Faults of several nodes -/

/-- A value, or a fault and the depth where it is met. -/
abbrev Meaning (α : Type) := Except (Nat × ValueFault) α

namespace Meaning

def ofValue {α : Type} (depth : Nat) : Except ValueFault α → Meaning α
  | .ok a => .ok a
  | .error e => .error (depth, e)

def fail {α : Type} (depth : Nat) : Meaning α := .error (depth, .misplaced)

/-- Both values; of two faults the one of less depth, or the first. -/
def both {α β : Type} (a : Meaning α) (b : Meaning β) : Meaning (α × β) :=
  match a, b with
  | .ok x, .ok y => .ok (x, y)
  | .error e, .ok _ => .error e
  | .ok _, .error e => .error e
  | .error e, .error e' => .error (if e'.1 < e.1 then e' else e)

/-- All values. -/
def all {α : Type} : List (Meaning α) → Meaning (List α)
  | [] => .ok []
  | a :: rest => (both a (all rest)).map fun p => p.1 :: p.2

end Meaning

namespace Node

/-- The text that stands for a node that should be a scalar: its own, or that of the value which
a mapping marks as standing for it. -/
def standIn? : Node → Option String
  | .scalar _ text _ => some text
  | .sequence .. => none
  | .mapping _ entries _ => ofEntries entries
where
  ofEntries : List (Node × Node) → Option String
    | [] => none
    | (k, v) :: rest => if k.tag == .value then standIn? v else ofEntries rest

mutual
/-- The value of a node that is met at a depth. -/
def meaning (depth : Nat) : Node → Meaning Data
  | .scalar tag text _ =>
    if tag.isCollection then .fail (depth + 1) else .ofValue depth (Scalar.value tag text)
  | .sequence tag items _ =>
    match tag with
    | .seq => (Meaning.all (meanings (depth + 1) items)).map .list
    | .omap | .pairs => (Meaning.all (pairings (depth + 1) items)).map .list
    | .map | .set => .fail (depth + 1)
    | _ => .fail depth
  | .mapping tag entries mark =>
    match tag with
    | .map => (table (depth + 1) entries).map .map
    | .set => (table (depth + 1) entries).map fun es => .set (es.map (·.1))
    | .seq | .omap | .pairs => .fail (depth + 1)
    | _ =>
      match (Node.mapping tag entries mark).standIn? with
      | none => .fail depth
      | some text =>
        if tag == .timestamp then .error (depth, .stampOfCollection)
        else .ofValue depth (Scalar.value tag text)

def meanings (depth : Nat) : List Node → List (Meaning Data)
  | [] => []
  | n :: rest => meaning depth n :: meanings depth rest

/-- Mappings of one entry as pairs. -/
def pairings (depth : Nat) : List Node → List (Meaning Data)
  | [] => []
  | .mapping _ [(k, v)] _ :: rest =>
    (Meaning.both (meaning depth k) (meaning depth v)).map (fun p => .tuple [p.1, p.2]) ::
      pairings depth rest
  | _ :: rest => .fail depth :: pairings depth rest

/-- The entries of a mapping, with those that are merged into it in front of its own. -/
def table (depth : Nat) (entries : List (Node × Node)) : Meaning (List (Data × Data)) :=
  match merged depth entries with
  | none => .fail depth
  | some front =>
    (Meaning.all (front ++ own depth entries)).map fun es =>
      es.foldl (fun t e => Data.insert t e.1 e.2) []

/-- The entries of a mapping that are no merges. -/
def own (depth : Nat) : List (Node × Node) → List (Meaning (Data × Data))
  | [] => []
  | (k, v) :: rest =>
    if k.tag == .merge then own depth rest
    else Meaning.both (key depth k) (meaning depth v) :: own depth rest

/-- The entries that are merged into a mapping; nothing if a merge is of something else. -/
def merged (depth : Nat) : List (Node × Node) → Option (List (Meaning (Data × Data)))
  | [] => some []
  | (k, v) :: rest =>
    if k.tag == .merge then do
      let front ← merge depth v
      return front ++ (← merged depth rest)
    else merged depth rest

/-- What the value of a merge puts into a mapping; of several mappings the first goes last. -/
def merge (depth : Nat) : Node → Option (List (Meaning (Data × Data)))
  | .mapping _ entries _ => do
    let front ← merged depth entries
    return front ++ own depth entries
  | .sequence _ items _ => merges depth items
  | .scalar .. => none

def merges (depth : Nat) : List Node → Option (List (Meaning (Data × Data)))
  | [] => some []
  | .mapping _ entries _ :: rest => do
    let front ← merged depth entries
    return (← merges depth rest) ++ (front ++ own depth entries)
  | _ :: _ => none

/-- A key, which is no collection. -/
def key (depth : Nat) : Node → Meaning Data
  | .scalar .value text _ => .ok (.text text)
  | n =>
    if n.tag == .value then
      match n.standIn? with
      | some text => .ok (.text text)
      | none => .fail depth
    else if n.tag.isCollection then .fail depth
    else meaning depth n
end

/-- The value of the root of a document. -/
def toData (n : Node) : Except ValueFault Data :=
  match n.meaning 0 with
  | .ok d => .ok d
  | .error (_, e) => .error e

end Node

end Cnd.Yaml
