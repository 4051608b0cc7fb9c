import Cnd.Numeral
import Cnd.Pattern.Basic
import Cnd.Text.LetterCase

/-!
Reading a pattern text character by character. A backslash and the character after it count as one
piece. The next piece is always looked at ahead, so that a lone backslash at the end is a fault as
soon as what stands before it is taken.
-/

namespace Cnd.Pattern

/-- How far a pattern text has been read, and what has been learnt of its groups. -/
structure Reading where
  source : Array Char
  /-- The offset behind the piece looked at. -/
  index : Nat
  /-- The piece looked at; none at the end. -/
  next : Option (List Char)
  /-- The options set for the whole pattern so far. -/
  flags : Flags
  /-- The widths of the groups opened so far, the whole pattern being group zero; no width for a
  group that is still open. -/
  groups : List (Option Width)
  /-- The groups that have names. -/
  names : List (String × Nat)
  /-- The count of groups before the lookbehind that is being read. -/
  lookbehind : Option Nat
  /-- The groups that conditions ask for by number, each with the offset where it was first
  asked for. -/
  asked : List (Nat × Nat)

/-- A step of reading: a result and the new state, or a fault. -/
abbrev Read := StateT Reading (Except Fault)

/-- Look at the next piece. -/
def advance : Read Unit := do
  let s ← get
  match s.source[s.index]? with
  | none => set { s with next := none }
  | some '\\' =>
    match s.source[s.index + 1]? with
    | none => throw (.malformed .trailingBackslash (some (s.source.size - 1)))
    | some c => set { s with index := s.index + 2, next := some ['\\', c] }
  | some c => set { s with index := s.index + 1, next := some [c] }

/-- The offset of the piece looked at. -/
def offset : Read Nat := do
  let s ← get
  return s.index - (s.next.getD []).length

/-- Go back, or on, to an offset. -/
def jumpTo (index : Nat) : Read Unit := do
  modify ({ · with index := index })
  advance

/-- Report a fault the given count of characters before the piece looked at. -/
def fail {α : Type} (cause : Cause) (back : Nat) : Read α := do
  throw (.malformed cause (some ((← offset) - back)))

/-- The piece looked at. -/
def peek : Read (Option (List Char)) := return (← get).next

/-- Take the piece looked at. -/
def take : Read (Option (List Char)) := do
  let piece ← peek
  advance
  return piece

/-- Take the piece looked at if it is the given character. -/
def takeIf (c : Char) : Read Bool := do
  if (← peek) == some [c] then
    advance
    return true
  return false

/-- Take up to `n` pieces that are single characters of a kind. -/
def takeWhile (kind : Char → Bool) : Nat → Read (List Char)
  | 0 => return []
  | n + 1 => do
    match ← peek with
    | some [c] =>
      if kind c then
        advance
        return c :: (← takeWhile kind n)
      else return []
    | _ => return []

/-- Take what stands before a terminator, and the terminator. -/
def takeUntil (terminator : Char) (what : String) (taken : List Char) : Nat → Read (List Char)
  | 0 => fail (.missingName what) 0
  | n + 1 => do
    match ← take with
    | none =>
      if taken.isEmpty then fail (.missingName what) 0
      else fail (.unterminatedName (String.singleton terminator)) taken.length
    | some piece =>
      if piece == [terminator] then
        if taken.isEmpty then fail (.missingName what) 1 else return taken
      else takeUntil terminator what (taken ++ piece) n

/-- A bound on the count of pieces. -/
def pieces : Read Nat := return (← get).source.size + 1

def isOctal (c : Char) : Bool := '0' ≤ c && c ≤ '7'

def isHex (c : Char) : Bool := (Text.hexValue? c).isSome

def isAsciiLetter (c : Char) : Bool := Text.isAsciiCased c.toNat

/-- The number of digits to a base. -/
def valueIn (base : Nat) (digits : List Char) : Nat :=
  digits.foldl (fun n c => base * n + (Text.hexValue? c).getD 0) 0

/-! ## Groups -/

/-- Whether a group has been opened and has ended. -/
def isClosed (s : Reading) (index : Nat) : Bool := ((s.groups[index]?).join).isSome

/-- Inside a lookbehind only groups that ended before it may be referred to. -/
def checkLookbehind (index : Nat) : Read Unit := do
  let s ← get
  match s.lookbehind with
  | none => return
  | some before =>
    if !isClosed s index then fail .openGroupReference 0
    if before ≤ index then fail .lookbehindGroupReference 0

/-- A new group, still open. -/
def openGroup (name : Option String) : Read Nat := do
  let s ← get
  let index := s.groups.length
  set { s with groups := s.groups ++ [none] }
  match name with
  | none => return index
  | some n =>
    match s.names.lookup n with
    | some former => fail (.redefinedGroup n index former) (n.length + 1)
    | none =>
      modify fun s => { s with names := s.names ++ [(n, index)] }
      return index

/-- The end of a group, which now has a width. -/
def closeGroup (index : Nat) (body : List Node) : Read Unit :=
  modify fun s => { s with groups := s.groups.set index (some (sequenceWidth s.groups body)) }

/-! ## Escapes -/

/-- An escape that needs exactly `n` hexadecimal digits after its letter. -/
def hexEscape (letter : Char) (n : Nat) : Read Nat := do
  let digits ← takeWhile isHex n
  let escape := '\\' :: letter :: digits
  if digits.length != n then
    fail (.incompleteEscape (String.ofList escape)) escape.length
  let code := valueIn 16 digits
  if Numeral.maxWord < code then throw (.overflow .codePoint)
  if 0x10FFFF < code then fail (.badEscape (String.ofList escape)) escape.length
  return code

/-- A character by its name in braces. -/
def namedEscape : Read Nat := do
  if !(← takeIf '\x7b') then fail .missingBrace 0
  let name ← takeUntil '\x7d' "character name" [] (← pieces)
  fail (.unknownCharacterName (String.ofList name)) (name.length + 4)

/-- The character of an escape that means the same inside and outside of sets. -/
def plainEscape? : Char → Option Nat
  | 'a' => some 7
  | 'f' => some 12
  | 'n' => some 10
  | 'r' => some 13
  | 't' => some 9
  | 'v' => some 11
  | '\\' => some 92
  | _ => none

/-- The class of an escape, and whether it is negated. -/
def category? : Char → Option (Bool × Category)
  | 'd' => some (false, .digit)
  | 'D' => some (true, .digit)
  | 's' => some (false, .space)
  | 'S' => some (true, .space)
  | 'w' => some (false, .word)
  | 'W' => some (true, .word)
  | _ => none

/-- The place between characters that an escape stands for. -/
def anchor? : Char → Option Anchor
  | 'A' => some .beginningOfText
  | 'b' => some .boundary
  | 'B' => some .nonBoundary
  | 'Z' => some .endOfText
  | _ => none

/-- The character of an escape by number or name, or of an escaped sign. Letters that mean nothing
are faults. -/
def literalEscape (c : Char) : Read Nat := do
  if c == 'x' then hexEscape c 2
  else if c == 'u' then hexEscape c 4
  else if c == 'U' then hexEscape c 8
  else if c == 'N' then namedEscape
  else if isAsciiLetter c || Text.isAsciiDigit c then
    fail (.badEscape (String.ofList ['\\', c])) 2
  else return c.toNat

/-- Octal digits as a character, at most the last one of eight bits. -/
def octalCode (digits : List Char) : Read Nat := do
  let code := valueIn 8 digits
  if 0o377 < code then
    fail (.octalOutOfRange (String.ofList ('\\' :: digits))) (digits.length + 1)
  return code

/-- An escape inside a set. -/
def setEscape (c : Char) : Read SetItem := do
  if c == 'b' then return .literal 8
  match plainEscape? c with
  | some code => return .literal code
  | none =>
    match category? c with
    | some (negated, k) => return .category negated k
    | none =>
      if isOctal c then
        let more ← takeWhile isOctal 2
        return .literal (← octalCode (c :: more))
      else return .literal (← literalEscape c)

/-- A reference to a group by number. -/
def groupReference (digits : List Char) : Read Node := do
  let index := valueIn 10 digits
  let s ← get
  if index < s.groups.length then
    if !isClosed s index then fail .openGroupReference (digits.length + 1)
    checkLookbehind index
    return .reference index
  fail (.unknownGroupNumber index) digits.length

/-- A backslash and a digit other than zero: a reference of one or two digits, or a character if
there are three octal ones. -/
def numberEscape (c : Char) : Read Node := do
  match ← peek with
  | some [d] =>
    if Text.isAsciiDigit d then
      advance
      match ← peek with
      | some [e] =>
        if isOctal c && isOctal d && isOctal e then
          advance
          return .literal (← octalCode [c, d, e])
        else groupReference [c, d]
      | _ => groupReference [c, d]
    else groupReference [c]
  | _ => groupReference [c]

/-- An escape outside of sets. -/
def nodeEscape (c : Char) : Read Node := do
  match anchor? c with
  | some a => return .anchor a
  | none =>
    match category? c with
    | some (negated, k) => return .set false [.category negated k]
    | none =>
      match plainEscape? c with
      | some code => return .literal code
      | none =>
        if c == '0' then
          return .literal (valueIn 8 (← takeWhile isOctal 2))
        else if Text.isAsciiDigit c then numberEscape c
        else return .literal (← literalEscape c)

end Cnd.Pattern
