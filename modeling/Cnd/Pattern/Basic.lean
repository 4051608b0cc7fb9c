import Cnd.Numeral
import Cnd.Text.Quoted

/-!
Patterns as trees, the faults of a pattern text, and the widths of what a tree matches.

A pattern text is read by `Cnd.Pattern.Reader`, and matched by `Cnd.Pattern.Match`.
-/

namespace Cnd.Pattern

/-- The options of a pattern; each may be set for the whole of it or inside a group. -/
structure Flags where
  ignoreCase : Bool := false
  multiline : Bool := false
  dotAll : Bool := false
  verbose : Bool := false
  ascii : Bool := false
  unicode : Bool := false
  template : Bool := false
  deriving DecidableEq, Repr, Inhabited

namespace Flags

/-- The options set in either. -/
def union (a b : Flags) : Flags :=
  ⟨a.ignoreCase || b.ignoreCase, a.multiline || b.multiline, a.dotAll || b.dotAll,
   a.verbose || b.verbose, a.ascii || b.ascii, a.unicode || b.unicode, a.template || b.template⟩

/-- The options set in the first and not in the second. -/
def minus (a b : Flags) : Flags :=
  ⟨a.ignoreCase && !b.ignoreCase, a.multiline && !b.multiline, a.dotAll && !b.dotAll,
   a.verbose && !b.verbose, a.ascii && !b.ascii, a.unicode && !b.unicode,
   a.template && !b.template⟩

/-- The options set in both. -/
def meet (a b : Flags) : Flags := a.minus (a.minus b)

def isEmpty (a : Flags) : Bool := a == {}

/-- Whether an option that chooses the alphabet is set. -/
def hasAlphabet (a : Flags) : Bool := a.ascii || a.unicode

/-- The options inside a group that turns some on and some off. A new alphabet replaces the
current one. -/
def inside (flags on off : Flags) : Flags :=
  let kept := if on.hasAlphabet then { flags with ascii := false, unicode := false } else flags
  (kept.union on).minus off

/-- The option of a letter in `(?…)`. -/
def ofLetter? : Char → Option Flags
  | 'i' => some { ignoreCase := true }
  | 'm' => some { multiline := true }
  | 's' => some { dotAll := true }
  | 'x' => some { verbose := true }
  | 'a' => some { ascii := true }
  | 'u' => some { unicode := true }
  | 't' => some { template := true }
  | _ => none

end Flags

/-- The classes that a backslash and a letter stand for. -/
inductive Category where
  | digit
  | space
  | word
  deriving DecidableEq, Repr

/-- A member of a bracketed set; a category may be negated. -/
inductive SetItem where
  | literal (code : Nat)
  | range (first last : Nat)
  | category (negated : Bool) (c : Category)
  deriving DecidableEq, Repr

/-- A place between characters. -/
inductive Anchor where
  | beginning
  | beginningOfText
  | ending
  | endOfText
  | boundary
  | nonBoundary
  deriving DecidableEq, Repr

/-- How a repetition chooses its count. -/
inductive Greed where
  | greedy
  | lazy
  | possessive
  deriving DecidableEq, Repr

/-- A piece of a pattern. -/
inductive Node where
  | literal (code : Nat)
  | notLiteral (code : Nat)
  | any
  | set (negated : Bool) (items : List SetItem)
  | anchor (a : Anchor)
  | repetition (greed : Greed) (min : Nat) (max : Option Nat) (body : List Node)
  | group (index : Option Nat) (on off : Flags) (body : List Node)
  | atomic (body : List Node)
  | branch (alternatives : List (List Node))
  | assertion (ahead negative : Bool) (body : List Node)
  | reference (index : Nat)
  | conditional (index : Nat) (yes : List Node) (no : Option (List Node))

/-! ## Faults -/

/-- What is wrong at a place of a pattern text. -/
inductive Cause where
  | trailingBackslash
  | badEscape (escape : String)
  | incompleteEscape (escape : String)
  | missingBrace
  | missingName (what : String)
  | unterminatedName (terminator : String)
  | unknownCharacterName (name : String)
  | octalOutOfRange (escape : String)
  | openGroupReference
  | lookbehindGroupReference
  | unknownGroupNumber (index : Nat)
  | unterminatedSet
  | badRange (first last : String)
  | nothingToRepeat
  | multipleRepeat
  | minAboveMax
  | unexpectedEnd
  | badGroupName (name : String)
  | unknownGroupName (name : String)
  | redefinedGroup (name : String) (index former : Nat)
  | unknownExtension (text : String)
  | unterminatedComment
  | unterminatedGroup
  | badGroupNumber
  | manyBranches
  | lateFlags
  | localeFlag
  | clashingFlags
  | unknownFlag
  | missingFlagEnd
  | missingFlag
  | missingColon
  | alphabetOff
  | globalOn
  | globalOff
  | onAndOff
  | unbalanced
  | variableLookbehind
  | wideLookbehind
  | templateRepeat (greed : Greed)

def Cause.message : Cause → String
  | .trailingBackslash => "bad escape (end of pattern)"
  | .badEscape e => s!"bad escape {e}"
  | .incompleteEscape e => s!"incomplete escape {e}"
  | .missingBrace => "missing \x7b"
  | .missingName what => s!"missing {what}"
  | .unterminatedName t => s!"missing {t}, unterminated name"
  | .unknownCharacterName n => s!"undefined character name {Text.quoted n}"
  | .octalOutOfRange e => s!"octal escape value {e} outside of range 0-0o377"
  | .openGroupReference => "cannot refer to an open group"
  | .lookbehindGroupReference => "cannot refer to group defined in the same lookbehind subpattern"
  | .unknownGroupNumber i => s!"invalid group reference {Text.decimal i}"
  | .unterminatedSet => "unterminated character set"
  | .badRange a b => s!"bad character range {a}-{b}"
  | .nothingToRepeat => "nothing to repeat"
  | .multipleRepeat => "multiple repeat"
  | .minAboveMax => "min repeat greater than max repeat"
  | .unexpectedEnd => "unexpected end of pattern"
  | .badGroupName n => s!"bad character in group name {Text.quoted n}"
  | .unknownGroupName n => s!"unknown group name {Text.quoted n}"
  | .redefinedGroup n i former =>
    s!"redefinition of group name {Text.quoted n} as group {Text.decimal i}; " ++
      s!"was group {Text.decimal former}"
  | .unknownExtension t => s!"unknown extension ?{t}"
  | .unterminatedComment => "missing ), unterminated comment"
  | .unterminatedGroup => "missing ), unterminated subpattern"
  | .badGroupNumber => "bad group number"
  | .manyBranches => "conditional backref with more than two branches"
  | .lateFlags => "global flags not at the start of the expression"
  | .localeFlag => "bad inline flags: cannot use 'L' flag with a str pattern"
  | .clashingFlags => "bad inline flags: flags 'a', 'u' and 'L' are incompatible"
  | .unknownFlag => "unknown flag"
  | .missingFlagEnd => "missing -, : or )"
  | .missingFlag => "missing flag"
  | .missingColon => "missing :"
  | .alphabetOff => "bad inline flags: cannot turn off flags 'a', 'u' and 'L'"
  | .globalOn => "bad inline flags: cannot turn on global flag"
  | .globalOff => "bad inline flags: cannot turn off global flag"
  | .onAndOff => "bad inline flags: flag turned on and off"
  | .unbalanced => "unbalanced parenthesis"
  | .variableLookbehind => "look-behind requires fixed-width pattern"
  | .wideLookbehind => "looks too much behind"
  | .templateRepeat g =>
    let operator := match g with
      | .greedy => "MAX_REPEAT"
      | .lazy => "MIN_REPEAT"
      | .possessive => "POSSESSIVE_REPEAT"
    s!"internal: unsupported template operator {operator}"

/-- A number in a pattern text that is beyond what is counted with: of a repetition, or of an escaped
character. -/
inductive Overflow where
  | count
  | codePoint
  deriving DecidableEq, Repr

def Overflow.message : Overflow → String
  | .count => "the repetition number is too large"
  | .codePoint => Numeral.tooLargeMessage

/-- Why a text is not a pattern. -/
inductive Fault where
  /-- Malformed; the offset is unknown for what only the whole pattern shows. -/
  | malformed (cause : Cause) (offset : Option Nat)
  /-- Both alphabets are set for the whole pattern. -/
  | alphabetClash
  /-- A repetition count of too many digits. -/
  | countTooLong (digits : Nat)
  /-- A number that is too large, which is no fault of the text and is reported on its own. -/
  | overflow (o : Overflow)

/-- The line and column, counted from one, of an offset in a text. -/
def lineAndColumn (text : List Char) (offset : Nat) : Nat × Nat :=
  let before := text.take offset
  (before.count '\n' + 1, (before.reverse.takeWhile (· != '\n')).length + 1)

/-- The offset after a message, with line and column if the pattern has more than one line. -/
def placeText (text : List Char) (offset : Nat) : String :=
  let place := s!" at position {Text.decimal offset}"
  if text.contains '\n' then
    let (line, column) := lineAndColumn text offset
    place ++ s!" (line {Text.decimal line}, column {Text.decimal column})"
  else place

/-! ## Widths -/

/-- The least and the greatest count of characters that something matches. -/
structure Width where
  min : Nat
  max : Nat
  deriving DecidableEq, Repr, Inhabited

/-- Widths are not told apart above this one. -/
def maxWidth : Nat := Nat.pow 2 64

def Width.add (a b : Width) : Width := ⟨a.min + b.min, a.max + b.max⟩

def Width.capped (w : Width) : Width := ⟨w.min.min maxWidth, w.max.min maxWidth⟩

/-- The width of a choice between two. -/
def Width.either (a b : Width) : Width := ⟨Nat.min a.min b.min, Nat.max a.max b.max⟩

mutual
/-- The width of a piece, given those of the groups that have ended. -/
def Node.width (groups : List (Option Width)) : Node → Width
  | .literal _ | .notLiteral _ | .any | .set .. => ⟨1, 1⟩
  | .anchor _ | .assertion .. => ⟨0, 0⟩
  | .repetition _ min max body =>
    let w := sequenceWidth groups body
    let most := match max with
      | some m => w.max * m
      | none => if w.max == 0 then 0 else maxWidth
    ⟨w.min * min, most⟩
  | .group _ _ _ body => sequenceWidth groups body
  | .atomic body => sequenceWidth groups body
  | .branch alternatives => alternativesWidth groups alternatives
  | .reference i => ((groups[i]?).join).getD ⟨0, 0⟩
  | .conditional _ yes no =>
    let w := sequenceWidth groups yes
    match no with
    | none => ⟨0, w.max⟩
    | some n => w.either (sequenceWidth groups n)

/-- The width of pieces one after the other. -/
def sequenceWidth (groups : List (Option Width)) (nodes : List Node) : Width :=
  (sumWidth groups nodes).capped

def sumWidth (groups : List (Option Width)) : List Node → Width
  | [] => ⟨0, 0⟩
  | n :: rest => (n.width groups).add (sumWidth groups rest)

/-- The width of a choice; a choice of nothing is never made. -/
def alternativesWidth (groups : List (Option Width)) : List (List Node) → Width
  | [] => ⟨maxWidth, 0⟩
  | a :: rest => (sequenceWidth groups a).either (alternativesWidth groups rest)
end

end Cnd.Pattern
