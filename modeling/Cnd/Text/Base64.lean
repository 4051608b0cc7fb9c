/-!
Reading bytes that are written with 64 characters, six bits each.

Characters that are not among the 64 are passed over. Reading stops at the padding that completes
a group of four characters; a group that is not complete at the end of the text is an error.
-/

namespace Cnd.Text.Base64

/-- The six bits that a character stands for. -/
def bits? (c : Char) : Option Nat :=
  if 'A' ≤ c && c ≤ 'Z' then some (c.toNat - 65)
  else if 'a' ≤ c && c ≤ 'z' then some (c.toNat - 97 + 26)
  else if '0' ≤ c && c ≤ '9' then some (c.toNat - 48 + 52)
  else if c == '+' then some 62
  else if c == '/' then some 63
  else none

/-- The bytes of the text behind `place` characters of a group, of which the last has left over
`rest`, and `padding` signs of padding. -/
def decodeFrom (place rest padding : Nat) : List Char → Option (List UInt8)
  | [] => if place == 0 then some [] else none
  | c :: more =>
    if c == '=' then
      if place < 2 then decodeFrom place rest padding more
      else if 4 ≤ place + padding + 1 then some []
      else decodeFrom place rest (padding + 1) more
    else match bits? c with
      | none => decodeFrom place rest padding more
      | some b =>
        if place == 0 then decodeFrom 1 b 0 more
        else if place == 1 then
          (decodeFrom 2 (b % 16) 0 more).map ((rest * 4 + b / 16).toUInt8 :: ·)
        else if place == 2 then
          (decodeFrom 3 (b % 4) 0 more).map ((rest * 16 + b / 4).toUInt8 :: ·)
        else (decodeFrom 0 0 0 more).map ((rest * 64 + b).toUInt8 :: ·)

/-- The bytes of a text. -/
def decode (s : List Char) : Option ByteArray :=
  if s.all fun c => c.toNat < 128 then (decodeFrom 0 0 0 s).map fun bs => ⟨bs.toArray⟩ else none

end Cnd.Text.Base64
