import Cnd.Text.Blank
import Cnd.Text.Digit

/-!
Reading integers from text. A numeral of more than 4300 digits is refused, whatever its value, so
that no reader spends quadratic time on one; nor is an integer with more digits written.
-/

namespace Cnd.Numeral

/-- The greatest count of digits that a numeral may have. -/
def maxDigits : Nat := 4300

/-- What is said of a numeral that has too many digits. -/
def tooLongMessage (digits : Nat) : String :=
  s!"Exceeds the limit ({maxDigits} digits) for integer string conversion: value has {digits} " ++
    "digits; use sys.set_int_max_str_digits() to increase the limit"

/-- Whether an integer has no more digits than may be written. -/
def isWritable (n : Int) : Bool := n.natAbs < Nat.pow 10 maxDigits

/-- What is said of an integer that has more digits than may be written. -/
def unwritableMessage : String :=
  s!"Exceeds the limit ({maxDigits} digits) for integer string conversion; " ++
    "use sys.set_int_max_str_digits() to increase the limit"

/-- The greatest number that may be asked for as a character. -/
def maxWord : Nat := 0x7FFFFFFF

/-- What is said of a number beyond `maxWord` where a character is asked for. -/
def tooLargeMessage : String := "Python int too large to convert to C int"

/-- The number that decimal digits denote, or their count if there are too many. -/
def ofDigits (digits : List Char) : Except Nat Nat :=
  if maxDigits < digits.length then .error digits.length else .ok (Text.digitsValue digits)

/-- A text without the sign in front of it, and whether that is a minus. -/
def splitSign : List Char → Bool × List Char
  | '-' :: rest => (true, rest)
  | '+' :: rest => (false, rest)
  | s => (false, s)

/-- The digits of a numeral in which single underscores may stand between digits. -/
def grouped? : List Char → Option (List Char)
  | [] => none
  | [c] => if Text.isDigit c then some [c] else none
  | c :: '_' :: rest =>
    if Text.isDigit c then (grouped? rest).map (c :: ·) else none
  | c :: rest => if Text.isDigit c then (grouped? rest).map (c :: ·) else none

/-- The integer of a text that may have blanks around it, a sign, and underscores between its
digits; nothing if it is no such text or too long. -/
def lenient? (s : List Char) : Option Int :=
  let (negative, digits) := splitSign (Text.trim s)
  match grouped? digits with
  | none => none
  | some ds => match ofDigits ds with
    | .error _ => none
    | .ok n => some (if negative then -n else n)

/-! ## Other bases -/

/-- A text without the zero and the letter that may announce its base. -/
def dropBaseMark (base : Nat) (s : List Char) : List Char :=
  match s with
  | '0' :: c :: rest =>
    let letter := c.toLower
    if (base == 2 && letter == 'b') || (base == 8 && letter == 'o') || (base == 16 && letter == 'x')
    then rest else s
  | _ => s

/-- The value of a digit in a base up to sixteen. -/
def digitIn? (base : Nat) (c : Char) : Option Nat :=
  ((Text.digitValue? c).or (Text.hexValue? c)).filter (· < base)

/-- The integer of a text in a base that is a power of two; blanks may stand around it. -/
def inBase? (base : Nat) (s : List Char) : Option Int :=
  let (negative, body) := splitSign (Text.trim s)
  let digits := dropBaseMark base body
  match digits.mapM (digitIn? base) with
  | none | some [] => none
  | some ds =>
    let n : Int := (ds.foldl (fun n d => base * n + d) 0 : Nat)
    some (if negative then -n else n)

/-! ## Decimals -/

/-- The digits at the start of a text, and the rest. -/
def spanDigits (s : List Char) : List Char × List Char :=
  (s.takeWhile Text.isDigit, s.dropWhile Text.isDigit)

/-- The digits behind a point, if there is one, and the rest. -/
def splitFraction : List Char → List Char × List Char
  | '.' :: rest => spanDigits rest
  | s => ([], s)

/-- The exponent after a mantissa: nothing at the end of the text, else a letter and an integer. -/
def readExponent : List Char → Option Int
  | [] => some 0
  | c :: rest =>
    if c != 'e' && c != 'E' then none
    else
      let (negative, digits) := splitSign rest
      if digits.isEmpty || !digits.all Text.isDigit then none
      else
        let n : Int := Text.digitsValue digits
        some (if negative then -n else n)

/-- The sign, the digits and the power of ten of a decimal: digits with a point among, before or
after them, and an optional exponent. -/
def splitDecimal (s : List Char) : Option (Bool × Nat × Int) :=
  let (negative, body) := splitSign s
  let (whole, rest) := spanDigits body
  let (fraction, rest) := splitFraction rest
  if whole.isEmpty && fraction.isEmpty then none
  else match readExponent rest with
    | none => none
    | some e => some (negative, Text.digitsValue (whole ++ fraction), e - fraction.length)

end Cnd.Numeral
