/-!
Double precision numbers as exact values: a sign, a significand of at most 53 bits and a power of
two. Everything is integer arithmetic, so that reading, rounding and order can be reasoned about.

`ofRatio` rounds a fraction to the nearest such number, a half to the even neighbour; reading a
decimal and the two arithmetic operations are exact results rounded by it.
-/

namespace Cnd

/-- A double: the value of `finite neg m e` is `± m · 2^e`, with `m < 2^53` and `-1074 ≤ e ≤ 971`,
and `2^52 ≤ m` unless `e = -1074`. -/
inductive Binary64 where
  | nan
  | infinite (negative : Bool)
  | finite (negative : Bool) (significand : Nat) (exponent : Int)
  deriving DecidableEq, Repr, Inhabited

namespace Binary64

/-- The least exponent, that of the numbers nearest to zero. -/
def minExponent : Int := -1074

/-- The greatest exponent of a finite number. -/
def maxExponent : Int := 971

def zero : Binary64 := .finite false 0 minExponent

/-- A quotient rounded to the nearest integer, a half to the even one. -/
def roundDiv (num den : Nat) : Nat :=
  let q := num / den
  let twice := 2 * (num % den)
  if twice < den then q
  else if den < twice then q + 1
  else if q % 2 == 0 then q else q + 1

/-- `num / (den · 2^e)` as a quotient of integers. -/
def scaled (num den : Nat) (e : Int) : Nat × Nat :=
  if 0 ≤ e then (num, den * Nat.pow 2 e.toNat) else (num * Nat.pow 2 (-e).toNat, den)

/-- The exponent at which a positive fraction has a significand of 53 bits, or the least one. -/
def exponentFor (num den : Nat) : Int :=
  let e : Int := (num.log2 : Int) - den.log2 - 53
  let (n, d) := scaled num den e
  max minExponent (if n / d < Nat.pow 2 53 then e else e + 1)

/-- The double nearest to `± num / den`; infinite when that is past the greatest one. -/
def ofRatio (negative : Bool) (num den : Nat) : Binary64 :=
  if num == 0 || den == 0 then .finite negative 0 minExponent
  else
    let e := exponentFor num den
    let (n, d) := scaled num den e
    let m := roundDiv n d
    let (m, e) := if m == Nat.pow 2 53 then (Nat.pow 2 52, e + 1) else (m, e)
    if maxExponent < e then .infinite negative else .finite negative m e

/-- The double nearest to `± digits · 10^exponent`. Decimals far beyond either end of the range
are decided by their count of digits. -/
def ofDecimal (negative : Bool) (digits : Nat) (exponent : Int) : Binary64 :=
  let magnitude : Int := (Nat.toDigits 10 digits).length + exponent
  if digits == 0 || magnitude < -330 then .finite negative 0 minExponent
  else if 320 < magnitude then .infinite negative
  else if 0 ≤ exponent then ofRatio negative (digits * Nat.pow 10 exponent.toNat) 1
  else ofRatio negative digits (Nat.pow 10 (-exponent).toNat)

/-- The double nearest to an integer. -/
def ofInt (n : Int) : Binary64 := ofRatio (n < 0) n.natAbs 1

def isNaN : Binary64 → Bool
  | .nan => true
  | _ => false

def isInfinite : Binary64 → Bool
  | .infinite _ => true
  | _ => false

/-- The numerator of the value over `2^1074`, for finite numbers. -/
def units (negative : Bool) (m : Nat) (e : Int) : Int :=
  let n : Int := m * Nat.pow 2 (e - minExponent).toNat
  if negative then -n else n

/-- Strictly below. Nothing is below or above NaN. -/
def lt : Binary64 → Binary64 → Bool
  | .nan, _ | _, .nan => false
  | .infinite a, .infinite b => a && !b
  | .infinite a, .finite .. => a
  | .finite .., .infinite b => !b
  | .finite s m e, .finite s' m' e' => units s m e < units s' m' e'

/-- Equal as numbers: the two zeros are, and NaN is equal to nothing. -/
def eq : Binary64 → Binary64 → Bool
  | .nan, _ | _, .nan => false
  | .infinite a, .infinite b => a == b
  | .finite s m e, .finite s' m' e' => units s m e == units s' m' e'
  | _, _ => false

/-- Whether a double is exactly the given integer. -/
def eqInt (x : Binary64) (n : Int) : Bool :=
  match x with
  | .finite s m e => units s m e == n * Nat.pow 2 1074
  | _ => false

/-- Change of sign. -/
def neg : Binary64 → Binary64
  | .nan => .nan
  | .infinite s => .infinite !s
  | .finite s m e => .finite (!s) m e

/-- The sum, rounded. A sum of zero is positive unless both are negative. -/
def add : Binary64 → Binary64 → Binary64
  | .nan, _ | _, .nan => .nan
  | .infinite a, .infinite b => if a == b then .infinite a else .nan
  | .infinite a, .finite .. => .infinite a
  | .finite .., .infinite b => .infinite b
  | .finite s m e, .finite s' m' e' =>
    let n := units s m e + units s' m' e'
    if n == 0 then .finite (s && s') 0 minExponent
    else ofRatio (n < 0) n.natAbs (Nat.pow 2 1074)

/-- The product, rounded. -/
def mul : Binary64 → Binary64 → Binary64
  | .nan, _ | _, .nan => .nan
  | .infinite a, .infinite b => .infinite (a != b)
  | .infinite a, .finite b m _ | .finite b m _, .infinite a =>
    if m == 0 then .nan else .infinite (a != b)
  | .finite s m e, .finite s' m' e' =>
    let (n, d) := scaled (m * m') 1 (-(e + e'))
    ofRatio (s != s') n d

end Binary64

end Cnd
