import Cnd.Location
import Cnd.Yaml.Meaning

/-!
YAML documents as data, with the place where each value starts.

A value is known by its path: the keys and positions that lead to it from the root, each behind a
slash. In a key a tilde and a slash are written with a tilde and a digit, so the slashes of a path
are those between its parts and no two lists of keys have one path.
-/

namespace Cnd.Yaml

/-! ## Paths -/

def escapeKeyChar (c : Char) : List Char :=
  if c == '~' then ['~', '0'] else if c == '/' then ['~', '1'] else [c]

/-- A key as part of a path. -/
def escapeKey (key : String) : String := String.ofList (key.toList.flatMap escapeKeyChar)

/-- The path of a value below another one. -/
def childPath (path key : String) : String := path ++ "/" ++ escapeKey key

namespace Node

/-- The text of a key. -/
def keyText? : Node → Option String
  | .scalar _ text _ => some text
  | _ => none

mutual
/-- The paths of a tree and the marks of what stands there, from a path on. -/
def marks (path : String) : Node → List (String × Mark)
  | .scalar _ _ m => [(path, m)]
  | .sequence _ items m => (path, m) :: itemMarks path 0 items
  | .mapping _ entries m => (path, m) :: entryMarks path entries

def itemMarks (path : String) (n : Nat) : List Node → List (String × Mark)
  | [] => []
  | item :: rest =>
    marks (childPath path (Text.decimal n)) item ++ itemMarks path (n + 1) rest

def entryMarks (path : String) : List (Node × Node) → List (String × Mark)
  | [] => []
  | (k, v) :: rest =>
    (match k.keyText? with
    | some key => marks (childPath path key) v
    | none => []) ++ entryMarks path rest
end

end Node

/-- A map with the place of a path replaced, or put at the end. -/
def setPlace (path : String) (m : Mark) : SourceMap → SourceMap
  | [] => [(path, some (m.line + 1), some (m.column + 1))]
  | (p, place) :: rest =>
    if p == path then (p, some (m.line + 1), some (m.column + 1)) :: rest
    else (p, place) :: setPlace path m rest

/-- The place of each value of a tree, lines and columns counted from one. Of two values with one
path the later one counts. -/
def Node.places (n : Node) : SourceMap :=
  (n.marks "").foldl (fun map (path, m) => setPlace path m map) []

/-! ## Documents -/

/-- Why a text has no data. -/
inductive ReadFault where
  | text (f : SyntaxFault)
  | value (f : ValueFault)
  deriving DecidableEq, Repr

namespace ReadFault

/-- Whether the text is at odds with the rules of YAML itself. -/
def isYaml : ReadFault → Bool
  | .text .malformed | .value .misplaced => true
  | _ => false

/-- Whether a fault is of a kind that readers do not expect of a value. -/
def isUnexpected : ReadFault → Bool
  | .text (.codePoint n) => 0x7FFFFFFF < n
  | .value (.truthWord _) | .value .noDigits | .value .overflow | .value .stamp
  | .value .stampOfCollection => true
  | _ => false

/-- What is said of a fault; the rules of YAML have no wording of their own here. -/
def message : ReadFault → String
  | .text .malformed => "<yaml>"
  | .text (.codePoint n) =>
    if Numeral.maxWord < n then Numeral.tooLargeMessage
    else "chr() arg not in range(0x110000)"
  | .text (.tooLong digits) => Numeral.tooLongMessage digits
  | .value .misplaced => "<yaml>"
  | .value f => f.message

end ReadFault

/-- Data with the places of its values. -/
structure Document where
  data : Data
  places : SourceMap

/-- The tree of a text, with its data. -/
def readTree (text : List Char) : Except ReadFault (Option (Node × Data)) :=
  match Node.ofText text with
  | .error e => .error (.text e)
  | .ok none => .ok none
  | .ok (some n) =>
    match n.toData with
    | .error e => .error (.value e)
    | .ok d => .ok (some (n, d))

/-- The data of a text; null if there is no document. -/
def read (text : List Char) : Except ReadFault Data :=
  (readTree text).map fun
    | none => .null
    | some (_, d) => d

/-- The data of a text and the places of its values. In place of null there is an empty mapping. -/
def Document.ofText (text : List Char) : Except ReadFault Document :=
  (readTree text).map fun
    | none => ⟨.map [], []⟩
    | some (n, .null) => ⟨.map [], n.places⟩
    | some (n, d) => ⟨d, n.places⟩

end Cnd.Yaml
