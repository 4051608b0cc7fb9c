import Cnd.Yaml.Stamp

/-!
Tags: what kind of value a node stands for.

A scalar without a tag that is not quoted gets its tag from its text: the words for truth values,
numbers, dates and the rest. All other texts are strings.
-/

namespace Cnd.Yaml

inductive Tag where
  | null
  | bool
  | int
  | float
  | binary
  | timestamp
  | str
  | seq
  | omap
  | pairs
  | map
  | set
  /-- The key whose value is a mapping that is merged into the one that the key is in. -/
  | merge
  /-- The key of the value that stands for its mapping. -/
  | value
  /-- A tag without a meaning. -/
  | unknown
  deriving DecidableEq, Repr, Inhabited

namespace Tag

/-- The URI before the names of the tags. -/
def base : String := "tag:yaml.org,2002:"

def names : List (String × Tag) :=
  [("null", .null), ("bool", .bool), ("int", .int), ("float", .float), ("binary", .binary),
   ("timestamp", .timestamp), ("str", .str), ("seq", .seq), ("omap", .omap), ("pairs", .pairs),
   ("map", .map), ("set", .set), ("merge", .merge), ("value", .value)]

def ofUri (uri : String) : Tag :=
  ((names.find? fun n => base ++ n.1 == uri).map (·.2)).getD .unknown

/-! ## Plain texts -/

def truthWords : List String :=
  ["yes", "Yes", "YES", "no", "No", "NO", "true", "True", "TRUE", "false", "False", "FALSE",
   "on", "On", "ON", "off", "Off", "OFF"]

def isGrouped (c : Char) : Bool := Text.isAsciiDigit c || c == '_'

/-- A first character of one kind and then any number of another kind. -/
def isRun (first more : Char → Bool) : List Char → Bool
  | [] => false
  | c :: rest => first c && rest.all more

/-- One or two digits that are less than sixty. -/
def isSixtieth : List Char → Bool
  | [c] => Text.isAsciiDigit c
  | [c, d] => '0' ≤ c && c ≤ '5' && Text.isAsciiDigit d
  | _ => false

/-- Numbers between colons, the later ones less than sixty. -/
def isSexagesimal (first : Char → Bool) (s : List Char) : Bool :=
  match s.splitOn ':' with
  | [] | [_] => false
  | head :: parts => isRun first isGrouped head && parts.all isSixtieth

def isOneToNine (c : Char) : Bool := '1' ≤ c && c ≤ '9'

def isUnsignedInt (s : List Char) : Bool :=
  let nonEmpty (test : Char → Bool) (s : List Char) := !s.isEmpty && s.all test
  match s with
  | ['0'] => true
  | '0' :: 'b' :: rest => nonEmpty (fun c => c == '0' || c == '1' || c == '_') rest
  | '0' :: 'x' :: rest => nonEmpty (fun c => (Text.hexValue? c).isSome || c == '_') rest
  | '0' :: rest => nonEmpty (fun c => ('0' ≤ c && c ≤ '7') || c == '_') rest
  | _ => isRun isOneToNine isGrouped s || isSexagesimal isOneToNine s

def dropSign : List Char → List Char
  | '+' :: rest | '-' :: rest => rest
  | s => s

def isInt (s : List Char) : Bool := isUnsignedInt (dropSign s)

/-- Nothing, or a letter, a sign and digits. -/
def isExponent : List Char → Bool
  | [] => true
  | e :: sign :: digits =>
    (e == 'e' || e == 'E') && (sign == '+' || sign == '-') && !digits.isEmpty &&
      digits.all Text.isAsciiDigit
  | _ => false

def isFloat (s : List Char) : Bool :=
  let unsigned := dropSign s
  let whole := unsigned.takeWhile (· != '.')
  match unsigned.drop whole.length with
  | [] => false
  | _ :: fraction =>
    let exponent := fraction.dropWhile isGrouped
    if whole.isEmpty then
      (s.head? == some '.' && isRun Text.isAsciiDigit (fun _ => true) fraction &&
        isExponent exponent) ||
      ["inf", "Inf", "INF"].contains (String.ofList fraction) ||
      (s.head? == some '.' && ["nan", "NaN", "NAN"].contains (String.ofList fraction))
    else
      (isRun Text.isAsciiDigit isGrouped whole && isExponent exponent) ||
      (isSexagesimal Text.isAsciiDigit whole && exponent.isEmpty)

/-- A text without a line feed at its end. -/
def dropLineFeed (s : List Char) : List Char :=
  if s.getLast? == some '\n' then s.dropLast else s

/-- The tag of a scalar that has none, by its text. A line feed at its end does not count. -/
def ofPlain (text : String) : Tag :=
  let s := dropLineFeed text.toList
  let word := String.ofList s
  if truthWords.contains word then .bool
  else if isFloat s then .float
  else if isInt s then .int
  else if word == "<<" then .merge
  else if text.isEmpty || ["~", "null", "Null", "NULL"].contains word then .null
  else if Stamp.isPlain s then .timestamp
  else if word == "=" then .value
  else if ["!", "&", "*"].contains word then .unknown
  else .str

/-- Whether a tag stands for a value that holds others. -/
def isCollection : Tag → Bool
  | .seq | .omap | .pairs | .map | .set => true
  | _ => false

end Tag

end Cnd.Yaml
