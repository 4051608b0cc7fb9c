import Cnd.Pattern.Cursor
import Cnd.Text.Identifier

/-!
Reading a whole pattern text as a tree.

`Pattern.read` gives the tree with the options of the whole pattern, or the first fault. Every
step takes a piece of the text or ends, so the text's length bounds how deep the reader goes.
-/

namespace Cnd.Pattern

/-! ## Sets -/

/-- A member of a set without the others it repeats. -/
def distinctItems (items : List SetItem) : List SetItem :=
  items.foldl (fun seen i => if seen.contains i then seen else seen ++ [i]) []

/-- The member that a piece inside a set stands for. -/
def setMember (piece : List Char) : Read SetItem :=
  match piece with
  | ['\\', c] => setEscape c
  | [c] => return .literal c.toNat
  | _ => return .literal 0

/-- The members of a set up to its closing bracket. A bracket that comes first is a member. -/
def setItems (start : Nat) (items : List SetItem) : Nat → Read (List SetItem)
  | 0 => fail .unterminatedSet 0
  | fuel + 1 => do
    match ← take with
    | none => fail .unterminatedSet ((← offset) - start)
    | some piece =>
      if piece == [']'] && !items.isEmpty then return items
      let first ← setMember piece
      if ← takeIf '-' then
        match ← take with
        | none => fail .unterminatedSet ((← offset) - start)
        | some last =>
          if last == [']'] then return items ++ [first, .literal '-'.toNat]
          let second ← setMember last
          let back := piece.length + 1 + last.length
          let fault := Cause.badRange (String.ofList piece) (String.ofList last)
          match first, second with
          | .literal lo, .literal hi =>
            if hi < lo then fail fault back
            setItems start (items ++ [.range lo hi]) fuel
          | _, _ => fail fault back
      else setItems start (items ++ [first]) fuel

/-- A set after its opening bracket. A set of one character is that character. -/
def setNode : Read Node := do
  let start := (← offset) - 1
  let negated ← takeIf '^'
  let items := distinctItems (← setItems start [] (← pieces))
  match items with
  | [.literal c] => return if negated then .notLiteral c else .literal c
  | _ => return .set negated items

/-! ## Counts -/

/-- The least count that no counter holds. -/
def countLimit : Nat := 4294967295

/-- A count in decimal digits. -/
def count (digits : List Char) : Read Nat :=
  match Numeral.ofDigits digits with
  | .error n => throw (.countTooLong n)
  | .ok n => if countLimit ≤ n then throw (.overflow .count) else return n

/-- The bounds in braces after an opening brace; nothing if what follows is no such bounds, and
then the brace is an ordinary character. -/
def bounds : Read (Option (Nat × Option Nat)) := do
  let start ← offset
  if (← peek) == some ['\x7d'] then return none
  let lo ← takeWhile Text.isAsciiDigit (← pieces)
  let hi ← if ← takeIf ',' then takeWhile Text.isAsciiDigit (← pieces) else pure lo
  if !(← takeIf '\x7d') then
    jumpTo start
    return none
  let min ← if lo.isEmpty then pure 0 else count lo
  if hi.isEmpty then return some (min, none)
  let max ← count hi
  if max < min then fail .minAboveMax ((← offset) - start)
  return some (min, some max)

/-- The piece that a repetition repeats: the last one read. Places cannot be repeated, nor can
repetitions. A group that neither captures nor sets options is repeated as what it holds. -/
def repeated (before : List Node) (start : Nat) : Read (List Node × List Node) := do
  let back := (← offset) - start + 1
  match before with
  | [] => fail .nothingToRepeat back
  | .anchor _ :: _ => fail .nothingToRepeat back
  | .repetition .. :: _ => fail .multipleRepeat back
  | .group none on off body :: rest =>
    if on.isEmpty && off.isEmpty then return (body, rest)
    return ([.group none on off body], rest)
  | node :: rest => return ([node], rest)

/-! ## Options -/

/-- The fault of a letter that is no option, where the given other characters may stand. -/
def flagFault {α : Type} (piece : List Char) (other : Cause) : Read α :=
  match piece with
  | [c] => fail (if Text.isLetter c then .unknownFlag else other) piece.length
  | _ => fail other piece.length

/-- The options turned on, from the letter taken up to the piece behind the last one. -/
def flagsOn (letter : Char) (on : Flags) : Nat → Read (Flags × Char)
  | 0 => fail .missingFlagEnd 0
  | fuel + 1 => do
    if letter == 'L' then fail .localeFlag 0
    let flag := (Flags.ofLetter? letter).getD {}
    let on := on.union flag
    if flag.hasAlphabet && on.ascii && on.unicode then fail .clashingFlags 0
    match ← take with
    | none => fail .missingFlagEnd 0
    | some [')'] => return (on, ')')
    | some ['-'] => return (on, '-')
    | some [':'] => return (on, ':')
    | some [c] =>
      if (Flags.ofLetter? c).isSome || c == 'L' then flagsOn c on fuel
      else flagFault [c] .missingFlagEnd
    | some piece => flagFault piece .missingFlagEnd

/-- The options turned off, from the letter taken up to the colon. -/
def flagsOff (letter : Char) (off : Flags) : Nat → Read Flags
  | 0 => fail .missingColon 0
  | fuel + 1 => do
    let flag := (Flags.ofLetter? letter).getD {}
    if letter == 'L' || flag.hasAlphabet then fail .alphabetOff 0
    let off := off.union flag
    match ← take with
    | none => fail .missingColon 0
    | some [':'] => return off
    | some [c] =>
      if (Flags.ofLetter? c).isSome || c == 'L' then flagsOff c off fuel
      else flagFault [c] .missingColon
    | some piece => flagFault piece .missingColon

/-- The options after an opening `(?`, from the letter or hyphen taken; nothing for options that
hold for the whole pattern, which are then set. -/
def groupFlags (first : Char) : Read (Option (Flags × Flags)) := do
  let (on, stop) ← if first == '-' then pure ({}, '-') else flagsOn first {} (← pieces)
  if stop == ')' then
    modify fun s => { s with flags := s.flags.union on }
    return none
  if on.template then fail .globalOn 1
  let off ←
    if stop == '-' then
      match ← take with
      | none => fail .missingFlag 0
      | some [c] =>
        if (Flags.ofLetter? c).isSome || c == 'L' then flagsOff c {} (← pieces)
        else flagFault [c] .missingFlag
      | some piece => flagFault piece .missingFlag
    else pure {}
  if off.template then fail .globalOff 1
  if !(on.meet off).isEmpty then fail .onAndOff 1
  return some (on, off)

/-! ## Groups -/

/-- A group name up to its terminator. -/
def groupName (terminator : Char) : Read String := do
  let name ← takeUntil terminator "group name" [] (← pieces)
  if !Text.isIdentifier name then
    fail (.badGroupName (String.ofList name)) (name.length + 1)
  return String.ofList name

/-- A reference to a group by name. -/
def namedReference : Read Node := do
  let name ← groupName ')'
  let s ← get
  match s.names.lookup name with
  | none => fail (.unknownGroupName name) (name.length + 1)
  | some index =>
    if !isClosed s index then fail .openGroupReference (name.length + 1)
    checkLookbehind index
    return .reference index

/-- The group that a condition asks for, by name or by number. -/
def conditionGroup : Read Nat := do
  let name ← takeUntil ')' "group name" [] (← pieces)
  let text := String.ofList name
  let back := name.length + 1
  let index ←
    if Text.isIdentifier name then
      match (← get).names.lookup text with
      | none => fail (.unknownGroupName text) back
      | some index => pure index
    else
      match Numeral.lenient? name with
      | none => fail (.badGroupName text) back
      | some n =>
        if n < 0 then fail (.badGroupName text) back
        if n == 0 then fail .badGroupNumber back
        if 1073741823 ≤ n then fail (.unknownGroupNumber n.toNat) back
        let s ← get
        if (s.asked.lookup n.toNat).isNone then
          let place := (← offset) - name.length - 1
          modify fun s => { s with asked := s.asked ++ [(n.toNat, place)] }
        pure n.toNat
  checkLookbehind index
  return index

/-- The rest of a comment, through its closing parenthesis. -/
def skipComment (start : Nat) : Nat → Read Unit
  | 0 => return
  | fuel + 1 => do
    match ← take with
    | none => fail .unterminatedComment ((← offset) - start)
    | some [')'] => return
    | some _ => skipComment start fuel

/-- The rest of a line, through its line break. -/
def skipLine : Nat → Read Unit
  | 0 => return
  | fuel + 1 => do
    match ← take with
    | none | some ['\n'] => return
    | some _ => skipLine fuel

/-- What stands after an opening parenthesis. -/
inductive Opening where
  | capture (name : Option String)
  | plain (on off : Flags)
  | atomic
  | lookaround (ahead negative : Bool)
  | condition (index : Nat)
  /-- A piece that is complete. -/
  | node (n : Node)
  /-- Something that is no piece: a comment. -/
  | nothing
  /-- Options for the whole pattern. -/
  | wholeFlags

/-- What stands after `(?P`. -/
def namedOpening : Read Opening := do
  if ← takeIf '<' then return .capture (some (← groupName '>'))
  if ← takeIf '=' then return .node (← namedReference)
  match ← take with
  | none => fail .unexpectedEnd 0
  | some piece => fail (.unknownExtension (String.ofList ('P' :: piece))) (piece.length + 2)

/-- What stands after `(?<`. -/
def lookbehindOpening : Read Opening := do
  match ← take with
  | none => fail .unexpectedEnd 0
  | some ['='] => return .lookaround false false
  | some ['!'] => return .lookaround false true
  | some piece => fail (.unknownExtension (String.ofList ('<' :: piece))) (piece.length + 2)

/-- What a parenthesis at the given offset opens, up to where its contents start. -/
def opening (start : Nat) : Read Opening := do
  if !(← takeIf '?') then return .capture none
  match ← take with
  | none => fail .unexpectedEnd 0
  | some ['P'] => namedOpening
  | some [':'] => return .plain {} {}
  | some ['#'] =>
    skipComment start (← pieces)
    return .nothing
  | some ['='] => return .lookaround true false
  | some ['!'] => return .lookaround true true
  | some ['<'] => lookbehindOpening
  | some ['('] => return .condition (← conditionGroup)
  | some ['>'] => return .atomic
  | some [c] =>
    if (Flags.ofLetter? c).isSome || c == 'L' || c == '-' then
      match ← groupFlags c with
      | none => return .wholeFlags
      | some (on, off) => return .plain on off
    else fail (.unknownExtension (String.singleton c)) 2
  | some piece => fail (.unknownExtension (String.ofList piece)) (piece.length + 1)

/-- The end of a group that was opened at the given offset. -/
def expectClose (start : Nat) : Read Unit := do
  if !(← takeIf ')') then fail .unterminatedGroup ((← offset) - start)

/-! ## Choices -/

/-- Whether two pieces are the same; only pieces that hold no others are compared. -/
def sameNode : Node → Node → Bool
  | .literal a, .literal b => a == b
  | .notLiteral a, .notLiteral b => a == b
  | .any, .any => true
  | .set n a, .set m b => n == m && a == b
  | .anchor a, .anchor b => a == b
  | .reference a, .reference b => a == b
  | _, _ => false

/-- The piece that all alternatives start with. -/
def sharedFirst? (alternatives : List (List Node)) : Option Node :=
  match alternatives with
  | (first :: _) :: rest =>
    if rest.all fun a => match a with
      | n :: _ => sameNode first n
      | [] => false
    then some first
    else none
  | _ => none

/-- The pieces that all alternatives start with, and the alternatives without them. -/
def splitShared (alternatives : List (List Node)) : Nat → List Node × List (List Node)
  | 0 => ([], alternatives)
  | fuel + 1 =>
    match sharedFirst? alternatives with
    | none => ([], alternatives)
    | some n =>
      let (shared, rest) := splitShared (alternatives.map (·.drop 1)) fuel
      (n :: shared, rest)

/-- The members of the set that does the same as a choice of single characters and sets. -/
def asSet? : List (List Node) → Option (List SetItem)
  | [] => some []
  | [.literal c] :: rest => (asSet? rest).map (.literal c :: ·)
  | [.set false items] :: rest => (asSet? rest).map (items ++ ·)
  | _ => none

/-- A choice between alternatives: what they share comes first, and single characters make a set. -/
def choice (alternatives : List (List Node)) : List Node :=
  match alternatives with
  | [one] => one
  | _ =>
    let longest := (alternatives.map List.length).foldl Nat.max 0
    let (shared, rest) := splitShared alternatives (longest + 1)
    match asSet? rest with
    | some items => shared ++ [.set false (distinctItems items)]
    | none => shared ++ [.branch rest]

/-- The pieces with groups that neither capture nor set options replaced by what they hold. -/
def flatten (nodes : List Node) : List Node :=
  nodes.flatMap fun n => match n with
    | .group none on off body => if on.isEmpty && off.isEmpty then body else [n]
    | n => [n]

/-! ## The whole -/

/-- Blank characters that are skipped where a pattern may be laid out freely. -/
def isLayout (c : Char) : Bool :=
  [' ', '\t', '\n', '\r', '\x0b', '\x0c'].contains c

mutual
/-- Alternatives up to a closing parenthesis or the end. -/
def alternatives (verbose top : Bool) (done : List (List Node)) : Nat → Read (List Node)
  | 0 => return []
  | fuel + 1 => do
    let one ← sequence verbose (top && done.isEmpty) [] fuel
    let done := done ++ [one]
    if ← takeIf '|' then
      let verbose ← if top then pure (← get).flags.verbose else pure verbose
      alternatives verbose top done fuel
    else return choice done

/-- Pieces one after the other, the last one first in `before`. Options for the whole pattern may
stand only where `first` says so and nothing has been read. -/
def sequence (verbose first : Bool) (before : List Node) : Nat → Read (List Node)
  | 0 => return flatten before.reverse
  | fuel + 1 => do
    match ← peek with
    | none | some ['|'] | some [')'] => return flatten before.reverse
    | some piece =>
      advance
      match piece with
      | ['\\', c] =>
        let node ← nodeEscape c
        sequence verbose first (node :: before) fuel
      | [c] =>
        if verbose && isLayout c then sequence verbose first before fuel
        else if verbose && c == '#' then
          skipLine (← pieces)
          sequence verbose first before fuel
        else if c == '[' then
          let node ← setNode
          sequence verbose first (node :: before) fuel
        else if c == '?' || c == '*' || c == '+' || c == '\x7b' then
          let start ← offset
          let range ←
            if c == '?' then pure (some (0, some 1))
            else if c == '*' then pure (some (0, none))
            else if c == '+' then pure (some (1, none))
            else bounds
          match range with
          | none => sequence verbose first (.literal c.toNat :: before) fuel
          | some (min, max) =>
            let (body, rest) ← repeated before start
            let greed : Greed ←
              if ← takeIf '?' then pure .lazy
              else if ← takeIf '+' then pure .possessive
              else pure .greedy
            sequence verbose first (.repetition greed min max body :: rest) fuel
        else if c == '.' then sequence verbose first (.any :: before) fuel
        else if c == '(' then
          let start := (← offset) - 1
          match ← opening start with
          | .nothing => sequence verbose first before fuel
          | .node n => sequence verbose first (n :: before) fuel
          | .wholeFlags =>
            if !first || !before.isEmpty then fail .lateFlags ((← offset) - start)
            sequence (← get).flags.verbose first before fuel
          | .lookaround ahead negative =>
            let outer := (← get).lookbehind
            if !ahead && outer.isNone then
              modify fun s => { s with lookbehind := some s.groups.length }
            let body ← alternatives verbose false [] fuel
            if !ahead && outer.isNone then modify ({ · with lookbehind := none })
            expectClose start
            sequence verbose first (.assertion ahead negative body :: before) fuel
          | .condition index =>
            let yes ← sequence verbose false [] fuel
            let no ← if ← takeIf '|' then
                let no ← sequence verbose false [] fuel
                if (← peek) == some ['|'] then fail .manyBranches 0
                pure (some no)
              else pure none
            expectClose start
            sequence verbose first (.conditional index yes no :: before) fuel
          | .capture name =>
            let index ← openGroup name
            let body ← alternatives verbose false [] fuel
            expectClose start
            closeGroup index body
            sequence verbose first (.group (some index) {} {} body :: before) fuel
          | .atomic =>
            let body ← alternatives verbose false [] fuel
            expectClose start
            sequence verbose first (.atomic body :: before) fuel
          | .plain on off =>
            let inner := (verbose || on.verbose) && !off.verbose
            let body ← alternatives inner false [] fuel
            expectClose start
            sequence verbose first (.group none on off body :: before) fuel
        else if c == '^' then sequence verbose first (.anchor .beginning :: before) fuel
        else if c == '$' then sequence verbose first (.anchor .ending :: before) fuel
        else sequence verbose first (.literal c.toNat :: before) fuel
      | _ => sequence verbose first before fuel
end

/-- The options of the whole pattern; the alphabet is that of all scripts unless set otherwise. -/
def wholeFlags (flags : Flags) : Except Fault Flags :=
  if !flags.ascii then .ok { flags with unicode := true }
  else if flags.unicode then .error .alphabetClash
  else .ok flags

/-! ## Checks on the tree -/

mutual
/-- The first piece that cannot be matched: a lookbehind without a fixed width, or a repetition in
a template. -/
def Node.unmatchable? (template : Bool) (groups : List (Option Width)) : Node → Option Cause
  | .repetition greed _ _ body =>
    if template then some (.templateRepeat greed) else sequenceUnmatchable? template groups body
  | .group _ _ _ body => sequenceUnmatchable? template groups body
  | .atomic body => sequenceUnmatchable? template groups body
  | .branch alternatives => alternativesUnmatchable? template groups alternatives
  | .assertion ahead _ body =>
    let w := sequenceWidth groups body
    if !ahead && 4294967295 < w.min then some .wideLookbehind
    else if !ahead && w.min != w.max then some .variableLookbehind
    else sequenceUnmatchable? template groups body
  | .conditional _ yes no =>
    match sequenceUnmatchable? template groups yes with
    | some c => some c
    | none => match no with
      | none => none
      | some n => sequenceUnmatchable? template groups n
  | _ => none

def sequenceUnmatchable? (template : Bool) (groups : List (Option Width)) :
    List Node → Option Cause
  | [] => none
  | n :: rest => match n.unmatchable? template groups with
    | some c => some c
    | none => sequenceUnmatchable? template groups rest

def alternativesUnmatchable? (template : Bool) (groups : List (Option Width)) :
    List (List Node) → Option Cause
  | [] => none
  | a :: rest => match sequenceUnmatchable? template groups a with
    | some c => some c
    | none => alternativesUnmatchable? template groups rest
end

/-- A pattern that has been read: its tree, the options of the whole, and the count of its
groups, the whole being one of them. -/
structure Tree where
  nodes : List Node
  flags : Flags
  groups : List (Option Width)

/-- The whole text as alternatives, with nothing left over and no condition on a group that the
pattern does not have. -/
def readWhole : Read Tree := do
  advance
  let nodes ← alternatives false true [] (4 * (← pieces) + 8)
  let s ← get
  let flags ← wholeFlags s.flags
  if s.next.isSome then fail .unbalanced 0
  match s.asked.find? fun a => s.groups.length ≤ a.1 with
  | some (index, place) => throw (.malformed (.unknownGroupNumber index) (some place))
  | none => return ⟨nodes, flags, s.groups⟩

/-- The tree of a pattern text. -/
def read (text : List Char) : Except Fault Tree :=
  match readWhole.run ⟨text.toArray, 0, none, {}, [none], [], none, []⟩ with
  | .error fault => .error fault
  | .ok (tree, _) =>
    match sequenceUnmatchable? tree.flags.template tree.groups tree.nodes with
    | some cause => .error (.malformed cause none)
    | none => .ok tree

end Cnd.Pattern
