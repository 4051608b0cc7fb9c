import Cnd.Text.Digit

/-!
Reading UTF-8, with the place and the reason where bytes are not UTF-8.

A sequence is faulty at its first byte that cannot stand where it is. The fault covers the bytes
before it that still fitted, so that reading could go on there.
-/

namespace Cnd.Text.Utf8

/-- Why bytes are not UTF-8. -/
inductive Reason where
  | invalidStart
  | invalidContinuation
  | unexpectedEnd
  deriving DecidableEq, Repr

/-- A run of bytes that is no UTF-8: its offset, its length (at least one) and its first byte. -/
structure Fault where
  offset : Nat
  length : Nat
  first : UInt8
  reason : Reason
  deriving DecidableEq, Repr

def Reason.text : Reason → String
  | .invalidStart => "invalid start byte"
  | .invalidContinuation => "invalid continuation byte"
  | .unexpectedEnd => "unexpected end of data"

/-- A fault of one byte names the byte; a longer one gives the first and the last offset. -/
def Fault.message (f : Fault) : String :=
  let place :=
    if f.length ≤ 1 then
      s!"byte 0x{String.ofList (paddedHex 2 f.first.toNat)} in position {f.offset}"
    else s!"bytes in position {f.offset}-{f.offset + f.length - 1}"
  s!"'utf-8' codec can't decode {place}: {f.reason.text}"

/-- A byte that continues a sequence. -/
def isTail (b : UInt8) : Bool := 0x80 ≤ b && b ≤ 0xBF

/-- How many bytes follow a first byte, and the least and the greatest byte that may come second. -/
def shape (first : UInt8) : Option (Nat × UInt8 × UInt8) :=
  if first < 0x80 then some (0, 0x80, 0xBF)
  else if first < 0xC2 then none
  else if first < 0xE0 then some (1, 0x80, 0xBF)
  else if first == 0xE0 then some (2, 0xA0, 0xBF)
  else if first == 0xED then some (2, 0x80, 0x9F)
  else if first < 0xF0 then some (2, 0x80, 0xBF)
  else if first == 0xF0 then some (3, 0x90, 0xBF)
  else if first < 0xF4 then some (3, 0x80, 0xBF)
  else if first == 0xF4 then some (3, 0x80, 0x8F)
  else none

/-- The payload bits of a first byte that `n` bytes follow. -/
def leadBits (first : UInt8) (n : Nat) : Nat :=
  if n == 0 then first.toNat else first.toNat % Nat.pow 2 (6 - n)

/-- How far the bytes after a first one fit: the count of bytes that do, whether the byte after
them does not, and the code point with the bits of those that do. -/
def tails : Nat → UInt8 → UInt8 → Nat → Nat → List UInt8 → Nat × Bool × Nat
  | 0, _, _, code, taken, _ => (taken, false, code)
  | _ + 1, _, _, code, taken, [] => (taken, false, code)
  | n + 1, low, high, code, taken, b :: rest =>
    if low ≤ b && b ≤ high then tails n 0x80 0xBF (code * 64 + b.toNat % 64) (taken + 1) rest
    else (taken, true, code)

/-- The text that the bytes after `skip` more bytes encode. -/
def decodeFrom : Nat → Nat → List UInt8 → List Char → Except Fault (List Char)
  | _, _, [], acc => .ok acc.reverse
  | offset, skip + 1, _ :: rest, acc => decodeFrom (offset + 1) skip rest acc
  | offset, 0, b :: rest, acc =>
    match shape b with
    | none => .error ⟨offset, 1, b, .invalidStart⟩
    | some (n, low, high) =>
      let (taken, misfit, code) := tails n low high (leadBits b n) 0 rest
      if misfit then .error ⟨offset, taken + 1, b, .invalidContinuation⟩
      else if taken < n then .error ⟨offset, taken + 1, b, .unexpectedEnd⟩
      else decodeFrom (offset + 1) n rest (Char.ofNat code :: acc)

/-- The text that bytes encode. -/
def decode (bytes : ByteArray) : Except Fault (List Char) := decodeFrom 0 0 bytes.toList []

end Cnd.Text.Utf8
