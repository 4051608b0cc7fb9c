import Cnd.Decimal.Binary64
import Cnd.Text.Digit

/-!
The shortest decimal that reads back as a given double, and its layout.

For one digit, two digits, … seventeen, the two decimals of that length next to the value are
tried, the nearer one first and the even one first at a tie. Seventeen digits always suffice.
-/

namespace Cnd.Binary64

/-- A decimal `digits · 10^exponent`. -/
structure Decimal where
  digits : Nat
  exponent : Int
  deriving DecidableEq, Repr

/-- Whether a decimal is read as the positive double `m · 2^e`. -/
def Decimal.readsBackAs (d : Decimal) (m : Nat) (e : Int) : Bool :=
  ofDecimal false d.digits d.exponent == .finite false m e

/-- The value `m · 2^e` as a quotient of integers. -/
def ratio (m : Nat) (e : Int) : Nat × Nat :=
  if 0 ≤ e then (m * Nat.pow 2 e.toNat, 1) else (m, Nat.pow 2 (-e).toNat)

/-- The count of digits before the decimal point of a positive quotient; it is zero or negative
when the quotient is below one tenth. -/
def pointPosition (num den : Nat) : Int :=
  if den ≤ num then (Nat.toDigits 10 (num / den)).length
  else
    let k := (Nat.toDigits 10 (den / num)).length
    -- `10^(k-1) ≤ den/num < 10^k`
    if num * Nat.pow 10 (k - 1) == den then 2 - (k : Int) else 1 - (k : Int)

/-- The two decimals of `n` digits next to a positive quotient, the nearer one first. -/
def neighbours (num den : Nat) (point : Int) (n : Nat) : Decimal × Decimal :=
  let e : Int := point - n
  let (a, b) :=
    if 0 ≤ e then (num, den * Nat.pow 10 e.toNat) else (num * Nat.pow 10 (-e).toNat, den)
  let near := roundDiv a b
  let far := if near == a / b then near + 1 else near - 1
  (⟨near, e⟩, ⟨far, e⟩)

/-- The first decimal found with at least `n` digits, looking at `tries` lengths. -/
def searchFrom (m : Nat) (e : Int) (point : Int) (n : Nat) : Nat → Decimal
  | 0 => (neighbours (ratio m e).1 (ratio m e).2 point n).1
  | tries + 1 =>
    let (near, far) := neighbours (ratio m e).1 (ratio m e).2 point n
    if near.readsBackAs m e then near
    else if far.readsBackAs m e then far
    else searchFrom m e point (n + 1) tries

/-- The shortest decimal that reads back as the positive double `m · 2^e`. -/
def shortest (m : Nat) (e : Int) : Decimal :=
  let (num, den) := ratio m e
  searchFrom m e (pointPosition num den) 1 16

/-- The digits of a decimal without zeros at the end, and the power of ten of the first one. -/
def Decimal.normalised (d : Decimal) : List Char × Int :=
  let digits := Nat.toDigits 10 d.digits
  let trimmed := (digits.reverse.dropWhile (· == '0')).reverse
  (trimmed, d.exponent + digits.length - 1)

/-- Digits with a point after the first one, if there are more. -/
def mantissa : List Char → List Char
  | [] => ['0']
  | [d] => [d]
  | d :: rest => d :: '.' :: rest

/-- Layout of a positive decimal: positional from `10^-4` up to below `10^16`, always with a point
and a digit after it; outside that range one digit before the point and a signed exponent of at
least two digits. -/
def Decimal.layout (d : Decimal) : String :=
  let (digits, power) := d.normalised
  if -4 ≤ power && power < 16 then
    if power < 0 then
      String.ofList ('0' :: '.' :: (List.replicate (-power - 1).toNat '0' ++ digits))
    else
      let whole := digits.take (power.toNat + 1)
      let padded := whole ++ List.replicate (power.toNat + 1 - whole.length) '0'
      let fraction := digits.drop (power.toNat + 1)
      String.ofList (padded ++ '.' :: (if fraction.isEmpty then ['0'] else fraction))
  else
    let sign := if power < 0 then "e-" else "e+"
    String.ofList (mantissa digits) ++ sign ++ Text.paddedDecimal 2 power.natAbs

/-- A double in decimal, by the fewest digits that read back. -/
def text : Binary64 → String
  | .nan => "nan"
  | .infinite s => if s then "-inf" else "inf"
  | .finite s m e =>
    let body := if m == 0 then "0.0" else (shortest m e).layout
    if s then "-" ++ body else body

end Cnd.Binary64
