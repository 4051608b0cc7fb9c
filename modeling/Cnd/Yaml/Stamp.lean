import Cnd.Calendar

/-!
Written dates and times: year, month and day with hyphens between them; behind them perhaps a time
of day, with a fraction of a second and a zone.

A stamp holds the numbers as they are written. Whether they make a day of the calendar is seen
only when its value is asked for.
-/

namespace Cnd.Yaml

/-- A time of day as it is written, with microseconds and, if there is a zone, the distance from
UTC in minutes. -/
structure Clock where
  hour : Nat
  minute : Nat
  second : Nat
  microsecond : Nat
  zone : Option Int
  deriving DecidableEq, Repr

structure Stamp where
  year : Nat
  month : Nat
  day : Nat
  clock : Option Clock
  deriving DecidableEq, Repr

namespace Stamp

/-- The number of the digits at the start of a text, of which there are at least `least` and at
most `most`, and the rest. -/
def digits (least most : Nat) (s : List Char) : Option (Nat × List Char) :=
  let found := (s.take most).takeWhile Text.isAsciiDigit
  if found.length < least then none else some (Text.digitsValue found, s.drop found.length)

def expect (c : Char) : List Char → Option (List Char)
  | [] => none
  | d :: rest => if d == c then some rest else none

def isBlank (c : Char) : Bool := c == ' ' || c == '\t'

/-- The letter or the blanks between date and time. -/
def separator (s : List Char) : Option (List Char) :=
  match s with
  | 'T' :: rest | 't' :: rest => some rest
  | c :: _ => if isBlank c then some (s.dropWhile isBlank) else none
  | [] => none

/-- The microseconds of a fraction, of which six digits count. -/
def fraction (s : List Char) : Nat × List Char :=
  match s with
  | '.' :: rest =>
    let found := rest.takeWhile Text.isAsciiDigit
    (Text.digitsValue ((found ++ List.replicate 6 '0').take 6), rest.drop found.length)
  | _ => (0, s)

/-- The minutes of a zone, if a text is that as a whole. -/
def zone (s : List Char) : Option (Option Int) :=
  match s with
  | [] => some none
  | _ =>
    match s.dropWhile isBlank with
    | ['Z'] => some (some 0)
    | sign :: rest => do
      let (hours, rest) ← digits 1 2 rest
      let (minutes, rest) ←
        match rest with
        | [] => some (0, [])
        | _ => (expect ':' rest).bind (digits 2 2)
      let n : Int := hours * 60 + minutes
      if !rest.isEmpty then none
      else if sign == '-' then some (some (-n))
      else if sign == '+' then some (some n)
      else none
    | [] => none

/-- The time behind a date, if a text is that as a whole. -/
def clockOf (s : List Char) : Option Clock := do
  let s ← separator s
  let (hour, s) ← digits 1 2 s
  let s ← expect ':' s
  let (minute, s) ← digits 2 2 s
  let s ← expect ':' s
  let (second, s) ← digits 2 2 s
  let (microsecond, s) := fraction s
  return ⟨hour, minute, second, microsecond, ← zone s⟩

/-- The stamp that a text is. -/
def ofText? (s : List Char) : Option Stamp := do
  let (year, s) ← digits 4 4 s
  let s ← expect '-' s
  let (month, s) ← digits 1 2 s
  let s ← expect '-' s
  let (day, s) ← digits 1 2 s
  match s with
  | [] => return ⟨year, month, day, none⟩
  | _ => return ⟨year, month, day, some (← clockOf s)⟩

/-- Whether a plain text is taken for a stamp: a date without a time needs all its digits. -/
def isPlain (s : List Char) : Bool :=
  match ofText? s with
  | some ⟨_, _, _, some _⟩ => true
  | some ⟨_, _, _, none⟩ => s.length == 10
  | none => false

end Stamp

end Cnd.Yaml
