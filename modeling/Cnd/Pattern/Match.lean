import Cnd.Pattern.Reader
import Cnd.Text.Alphanumeric
import Cnd.Text.Blank
import Std.Data.HashSet

/-!
Matching a pattern against a text.

A piece matched at a place has a list of outcomes: the places where it may end, with what the
groups have caught, in the order in which they are preferred. Pieces that commit to their first
outcome (lookaround, atomic groups, possessive repetitions) take the head of such a list; all else
keeps every outcome once. A text matches as a whole if one outcome of the whole pattern is at its
end.
-/

namespace Cnd.Pattern

/-! ## Characters -/

/-- Lower-case characters that share an upper case, each with the others. -/
def caseMates : List (Nat × List Nat) :=
  [(105, [305]), (115, [383]), (181, [956]), (305, [105]), (383, [115]), (837, [953, 8126]), (912,
   [8147]), (944, [8163]), (946, [976]), (949, [1013]), (952, [977]), (953, [837, 8126]), (954,
   [1008]), (956, [181]), (960, [982]), (961, [1009]), (962, [963]), (963, [962]), (966, [981]), (976,
   [946]), (977, [952]), (981, [966]), (982, [960]), (1008, [954]), (1009, [961]), (1013, [949]),
   (1074, [7296]), (1076, [7297]), (1086, [7298]), (1089, [7299]), (1090, [7300, 7301]), (1098,
   [7302]), (1123, [7303]), (7296, [1074]), (7297, [1076]), (7298, [1086]), (7299, [1089]), (7300,
   [1090, 7301]), (7301, [1090, 7300]), (7302, [1098]), (7303, [1123]), (7304, [42571]), (7777,
   [7835]), (7835, [7777]), (8126, [837, 953]), (8147, [912]), (8163, [944]), (42571, [7304]), (64261,
   [64262]), (64262, [64261])]

/-- The lower-case characters that a lower-case character is not told from. -/
def mates (c : Nat) : List Nat := (caseMates.lookup c).getD []

/-- The characters whose lower case is the given one. -/
def withLower (c : Nat) : List Nat :=
  let moved := Text.lowerRuns.filterMap fun r =>
    let i : Int := c - r.distance
    if 0 ≤ i && r.contains i.toNat then some i.toNat else none
  if Text.lowerCode c == c then c :: moved else moved

/-- Whether a run of case changes has a member between two code points. -/
def runMeets (r : Text.CaseRun) (first last : Nat) : Bool :=
  let start := if first ≤ r.first then r.first
    else r.first + (first - r.first + r.stride - 1) / r.stride * r.stride
  start ≤ r.last && start ≤ last

/-- Whether a range of characters holds one that has two cases. -/
def rangeIsCased (first last : Nat) : Bool :=
  Text.lowerRuns.any (runMeets · first last) || Text.upperRuns.any (runMeets · first last)

/-- The first code point beyond the basic plane. -/
def planeEnd : Nat := 0x10000

def asciiWord (c : Char) : Bool :=
  Text.isAsciiCased c.toNat || Text.isAsciiDigit c || c == '_'

def Category.holds (unicode : Bool) (k : Category) (c : Char) : Bool :=
  match k with
  | .digit => if unicode then Text.isDigit c else Text.isAsciiDigit c
  | .space => if unicode then Text.isBlank c else isLayout c
  | .word => if unicode then Text.isAlphanumeric c || c == '_' else asciiWord c

/-- A character against a literal. Without regard to case a literal that has two cases stands for
all characters whose lower case is the same, or a mate of it. -/
def literalHolds (flags : Flags) (code : Nat) (c : Nat) : Bool :=
  if !flags.ignoreCase then c == code
  else if flags.unicode then
    if !Text.isCased code then c == code
    else
      let lower := Text.lowerCode code
      (lower :: mates lower).contains (Text.lowerCode c)
  else if !Text.isAsciiCased code then c == code
  else Text.asciiLowerCode c == Text.asciiLowerCode code

/-- A character against a member of a set, case being told. -/
def SetItem.holds (flags : Flags) (c : Nat) : SetItem → Bool
  | .literal code => c == code
  | .range first last => first ≤ c && c ≤ last
  | .category negated k => k.holds flags.unicode (Char.ofNat c) != negated

/-- Whether a member of a set makes the set be matched without regard to case. -/
def SetItem.isCased (flags : Flags) : SetItem → Bool
  | .literal code =>
    planeEnd ≤ code || (if flags.unicode then Text.isCased code else Text.isAsciiCased code)
  | .range first last =>
    planeEnd ≤ last ||
      (if flags.unicode then rangeIsCased first last
       else (first ≤ 90 && 65 ≤ last) || (first ≤ 122 && 97 ≤ last))
  | .category .. => false

/-- The characters of the basic plane that a lower-case character may stand for. -/
def standsFor (flags : Flags) (c : Nat) : List Nat :=
  if flags.unicode then (c :: mates c).flatMap withLower
  else if 97 ≤ c && c ≤ 122 then [c, c - 32]
  else if 65 ≤ c && c ≤ 90 then []
  else [c]

/-- A lower-case character against a member of a set, case being ignored. Beyond the basic plane a
literal is compared as it is, and a range with the character and its upper case. -/
def SetItem.holdsLower (flags : Flags) (c : Nat) : SetItem → Bool
  | .literal code =>
    if planeEnd ≤ code then c == code else (standsFor flags c).contains code
  | .range first last =>
    ((standsFor flags c).any fun i => first ≤ i && i ≤ last && i < planeEnd) ||
      (planeEnd ≤ last &&
        ((first ≤ c && c ≤ last) || (first ≤ Text.upperCode c && Text.upperCode c ≤ last)))
  | .category negated k => k.holds flags.unicode (Char.ofNat c) != negated

/-- A character against a set. -/
def setHolds (flags : Flags) (negated : Bool) (items : List SetItem) (c : Nat) : Bool :=
  let inside :=
    if flags.ignoreCase && items.any (·.isCased flags) then
      let lower := if flags.unicode then Text.lowerCode c else Text.asciiLowerCode c
      items.any (·.holdsLower flags lower)
    else items.any (·.holds flags c)
  inside != negated

/-- The test of a piece that matches one character. -/
def Node.single? (flags : Flags) : Node → Option (Char → Bool)
  | .literal code => some fun c => literalHolds flags code c.toNat
  | .notLiteral code => some fun c => !literalHolds flags code c.toNat
  | .any => some fun c => flags.dotAll || c != '\n'
  | .set negated items => some fun c => setHolds flags negated items c.toNat
  | _ => none

/-! ## Places -/

/-- Whether the place before the character at an offset is as an anchor asks. No boundary is a
boundary or none in an empty text. -/
def Anchor.holds (flags : Flags) (text : Array Char) (place : Nat) (a : Anchor) : Bool :=
  let before := if place == 0 then none else text[place - 1]?
  let after := text[place]?
  let isWord (c : Option Char) : Bool := match c with
    | none => false
    | some c => Category.word.holds flags.unicode c
  match a with
  | .beginningOfText => place == 0
  | .beginning => place == 0 || (flags.multiline && before == some '\n')
  | .endOfText => place == text.size
  | .ending =>
    place == text.size || (after == some '\n' && (flags.multiline || place + 1 == text.size))
  | .boundary => text.size != 0 && isWord before != isWord after
  | .nonBoundary => text.size != 0 && isWord before == isWord after

/-! ## Outcomes -/

/-- Where the last start and the last end of a group were. -/
structure Catch where
  start : Option Nat := none
  stop : Option Nat := none
  deriving DecidableEq, Hashable, Repr, Inhabited

/-- A place in the text and what the groups have caught. -/
structure Outcome where
  place : Nat
  caught : List Catch
  deriving DecidableEq, Hashable, Repr, Inhabited

/-- What a group has caught, if its last end is not before its last start. -/
def Outcome.span? (o : Outcome) (index : Nat) : Option (Nat × Nat) :=
  match o.caught[index]? with
  | some ⟨some start, some stop⟩ => if start ≤ stop then some (start, stop) else none
  | _ => none

/-- Outcomes without those that occur earlier. -/
def distinct (outcomes : List Outcome) : List Outcome :=
  match outcomes with
  | [] => []
  | [o] => [o]
  | many =>
    ((many.foldl (fun (seen, kept) o =>
      if Std.HashSet.contains seen o then (seen, kept) else (seen.insert o, o :: kept))
      ((∅ : Std.HashSet Outcome), [])).2).reverse

/-- How a repetition goes on: the outcome reached, how many more rounds are allowed, and whether
the last round ended where it began. -/
structure Round where
  outcome : Outcome
  left : Option Nat
  stalled : Bool
  deriving DecidableEq, Hashable

/-- Rounds seen so far, and the outcomes found, the last one first. -/
structure Search where
  seen : Std.HashSet Round
  found : List Outcome

/-- Explore rounds of a repetition depth first, more rounds before fewer unless it is lazy. A round
that ended where it began is the last one. -/
def exploreRounds (step : Outcome → List Outcome) (lazy : Bool) : Nat → Round → Search → Search
  | 0, _, search => search
  | fuel + 1, round, search =>
    if search.seen.contains round then search
    else
      let search := { search with seen := search.seen.insert round }
      let keep (s : Search) : Search := { s with found := round.outcome :: s.found }
      let more (s : Search) : Search :=
        if round.stalled || round.left == some 0 then s
        else (step round.outcome).foldl (fun s next =>
          let stalled := next.place == round.outcome.place
          exploreRounds step lazy fuel ⟨next, round.left.map (· - 1), stalled⟩ s) s
      if lazy then more (keep search) else keep (more search)

/-- The outcomes after exactly `n` rounds. They no longer change once a round changes nothing. -/
def exactRounds (step : Outcome → List Outcome) : Nat → List Outcome → List Outcome
  | 0, outcomes => outcomes
  | n + 1, outcomes =>
    let next := distinct (outcomes.flatMap step)
    if next.isEmpty || next == outcomes then next else exactRounds step n next

/-- Rounds that each commit to their first outcome, as many as there are. -/
def committedRounds (step : Outcome → List Outcome) : Nat → Round → Outcome
  | 0, round => round.outcome
  | fuel + 1, round =>
    if round.stalled || round.left == some 0 then round.outcome
    else match step round.outcome with
      | [] => round.outcome
      | next :: _ =>
        let stalled := next.place == round.outcome.place
        committedRounds step fuel ⟨next, round.left.map (· - 1), stalled⟩

/-- Exactly `n` rounds that each commit to their first outcome. -/
def committedExactly (step : Outcome → List Outcome) : Nat → Outcome → Option Outcome
  | 0, o => some o
  | n + 1, o => match step o with
    | [] => none
    | next :: _ => if next == o then some o else committedExactly step n next

/-- How many characters from an offset on pass a test, up to a bound. -/
def countWhile (text : Array Char) (test : Char → Bool) (max : Option Nat) (start : Nat) : Nat :=
  let bound := match max with
    | some m => Nat.min m (text.size - start)
    | none => text.size - start
  go bound 0
where
  go : Nat → Nat → Nat
    | 0, n => n
    | left + 1, n => match text[start + n]? with
      | some c => if test c then go left (n + 1) else n
      | none => n

/-- A repetition of something that matches one character. -/
def repeatSingle (text : Array Char) (test : Char → Bool) (greed : Greed) (min : Nat)
    (max : Option Nat) (o : Outcome) : List Outcome :=
  let most := countWhile text test max o.place
  if most < min then []
  else
    let after (n : Nat) : Outcome := { o with place := o.place + n }
    match greed with
    | .possessive => [after most]
    | .lazy => (List.range (most - min + 1)).map fun i => after (min + i)
    | .greedy => (List.range (most - min + 1)).map fun i => after (most - i)

/-- A repetition of something whose outcomes are given. -/
def repeatGeneral (text : Array Char) (step : Outcome → List Outcome) (greed : Greed) (min : Nat)
    (max : Option Nat) (o : Outcome) : List Outcome :=
  let left := max.map (· - min)
  let fuel := 2 * (text.size - o.place) + 3
  match greed with
  | .possessive =>
    match committedExactly step min o with
    | none => []
    | some o => [committedRounds step fuel ⟨o, left, false⟩]
  | g =>
    let starts := exactRounds step min [o]
    let search := starts.foldl
      (fun s o => exploreRounds step (g == .lazy) fuel ⟨o, left, false⟩ s) ⟨∅, []⟩
    distinct search.found.reverse

/-- Whether two characters are the same to a reference. -/
def sameCharacter (flags : Flags) (a b : Char) : Bool :=
  if !flags.ignoreCase then a == b
  else if flags.unicode then Text.lowerCode a.toNat == Text.lowerCode b.toNat
  else Text.asciiLowerCode a.toNat == Text.asciiLowerCode b.toNat

/-- What a group has caught, once more from here. -/
def repeatCaught (flags : Flags) (text : Array Char) (index : Nat) (o : Outcome) : List Outcome :=
  match o.span? index with
  | none => []
  | some (start, stop) =>
    let length := stop - start
    let same := (List.range length).all fun i =>
      match text[start + i]?, text[o.place + i]? with
      | some a, some b => sameCharacter flags a b
      | _, _ => false
    if same then [{ o with place := o.place + length }] else []

/-- What the matcher knows of the whole pattern: the text, the widths of the groups, and the
groups that are asked for, which alone are kept track of. -/
structure Setting where
  text : Array Char
  groups : List (Option Width)
  tracked : List Nat

def Setting.markStart (s : Setting) (index : Nat) (o : Outcome) : Outcome :=
  if s.tracked.contains index then
    { o with caught := o.caught.modify index fun c => { c with start := some o.place } }
  else o

def Setting.markStop (s : Setting) (index : Nat) (o : Outcome) : Outcome :=
  if s.tracked.contains index then
    { o with caught := o.caught.modify index fun c => { c with stop := some o.place } }
  else o

mutual
/-- The outcomes of a piece. -/
def Node.outcomes (s : Setting) (flags : Flags) (n : Node) (o : Outcome) : List Outcome :=
  match n with
  | .literal code =>
    match s.text[o.place]? with
    | some c => if literalHolds flags code c.toNat then [{ o with place := o.place + 1 }] else []
    | none => []
  | .notLiteral code =>
    match s.text[o.place]? with
    | some c => if literalHolds flags code c.toNat then [] else [{ o with place := o.place + 1 }]
    | none => []
  | .any =>
    match s.text[o.place]? with
    | some c => if flags.dotAll || c != '\n' then [{ o with place := o.place + 1 }] else []
    | none => []
  | .set negated items =>
    match s.text[o.place]? with
    | some c => if setHolds flags negated items c.toNat then [{ o with place := o.place + 1 }] else []
    | none => []
  | .anchor a => if a.holds flags s.text o.place then [o] else []
  | .repetition greed min max body =>
    match body with
    | [one] =>
      match one.single? flags with
      | some test => repeatSingle s.text test greed min max o
      | none => repeatGeneral s.text (fun o => one.outcomes s flags o) greed min max o
    | body => repeatGeneral s.text (fun o => sequenceOutcomes s flags body [o]) greed min max o
  | .group none on off body => sequenceOutcomes s (flags.inside on off) body [o]
  | .group (some index) on off body =>
    (sequenceOutcomes s (flags.inside on off) body [s.markStart index o]).map (s.markStop index)
  | .atomic body => (sequenceOutcomes s flags body [o]).take 1
  | .branch alternatives => distinct (alternativesOutcomes s flags alternatives o)
  | .assertion ahead negative body =>
    let back := if ahead then 0 else (sequenceWidth s.groups body).min
    let found :=
      if o.place < back then []
      else (sequenceOutcomes s flags body [{ o with place := o.place - back }]).take 1
    if negative then (if found.isEmpty then [o] else [])
    else found.map fun f => { f with place := o.place }
  | .reference index => repeatCaught flags s.text index o
  | .conditional index yes no =>
    if (o.span? index).isSome then sequenceOutcomes s flags yes [o]
    else match no with
      | none => [o]
      | some n => sequenceOutcomes s flags n [o]

/-- The outcomes of pieces one after the other, from any of the given outcomes. -/
def sequenceOutcomes (s : Setting) (flags : Flags) (nodes : List Node) (origins : List Outcome) :
    List Outcome :=
  match nodes with
  | [] => origins
  | n :: rest =>
    sequenceOutcomes s flags rest (distinct (origins.flatMap fun o => n.outcomes s flags o))

def alternativesOutcomes (s : Setting) (flags : Flags) (alternatives : List (List Node))
    (o : Outcome) : List Outcome :=
  match alternatives with
  | [] => []
  | a :: rest => sequenceOutcomes s flags a [o] ++ alternativesOutcomes s flags rest o
end

mutual
/-- The groups that a piece asks for. -/
def Node.asks : Node → List Nat
  | .repetition _ _ _ body => sequenceAsks body
  | .group _ _ _ body => sequenceAsks body
  | .atomic body => sequenceAsks body
  | .branch alternatives => alternativesAsk alternatives
  | .assertion _ _ body => sequenceAsks body
  | .reference index => [index]
  | .conditional index yes no =>
    index :: (sequenceAsks yes ++ (match no with
      | none => []
      | some n => sequenceAsks n))
  | _ => []

def sequenceAsks : List Node → List Nat
  | [] => []
  | n :: rest => n.asks ++ sequenceAsks rest

def alternativesAsk : List (List Node) → List Nat
  | [] => []
  | a :: rest => sequenceAsks a ++ alternativesAsk rest
end

/-- Whether a pattern matches a text as a whole. -/
def Tree.matchesWhole (t : Tree) (text : List Char) : Bool :=
  let chars := text.toArray
  let setting : Setting := ⟨chars, t.groups, sequenceAsks t.nodes⟩
  let start : Outcome := ⟨0, t.groups.map fun _ => {}⟩
  (sequenceOutcomes setting t.flags t.nodes [start]).any (·.place == chars.size)

end Cnd.Pattern
