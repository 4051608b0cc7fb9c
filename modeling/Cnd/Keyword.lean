import Cnd.Value.Basic

/-!
The spellings of keywords. The same spelling may belong to several tables; which one counts is
decided by the place in the definition. Case matters.
-/

namespace Cnd

/-- The options of a node type. -/
inductive TypeOption where
  | orderable
  | mixin
  deriving DecidableEq, Repr

/-- The attributes of a property or child node. -/
inductive Attribute where
  | isPrimary
  | isAutocreated
  | isMandatory
  | isProtected
  | isMultiple
  deriving DecidableEq, Repr

/-- What happens to an item when its parent gets a version. -/
inductive VersionAction where
  | copy
  | version
  | initialise
  | compute
  | ignore
  | abort
  deriving DecidableEq, Repr, Inhabited

namespace Keyword

/-- A word in capitals, with one capital in front, and in small letters. -/
def threeCases (word : String) : List String :=
  let small := word.toList.map Char.toLower
  let front := match small with
    | [] => []
    | c :: rest => c.toUpper :: rest
  [String.ofList (small.map Char.toUpper), String.ofList front, String.ofList small]

/-- Each spelling of the given words with what the word stands for. -/
def spelled {α : Type} (words : List (String × α)) : List (String × α) :=
  words.flatMap fun (w, a) => (threeCases w).map (·, a)

def options : List (String × TypeOption) :=
  [("orderable", .orderable), ("ord", .orderable), ("o", .orderable),
   ("mixin", .mixin), ("mix", .mixin), ("m", .mixin)]

def propertyTypes : List (String × PropertyType) :=
  spelled (PropertyType.all.map fun t => (t.text, t)) ++ [("*", .undefined)]

def attributes : List (String × Attribute) :=
  [("primary", .isPrimary), ("pri", .isPrimary), ("!", .isPrimary),
   ("autocreated", .isAutocreated), ("aut", .isAutocreated), ("a", .isAutocreated),
   ("mandatory", .isMandatory), ("man", .isMandatory), ("m", .isMandatory),
   ("protected", .isProtected), ("pro", .isProtected), ("p", .isProtected),
   ("multiple", .isMultiple), ("mul", .isMultiple), ("*", .isMultiple)]

end Keyword

namespace VersionAction

def text : VersionAction → String
  | .copy => "COPY"
  | .version => "VERSION"
  | .initialise => "INITIALIZE"
  | .compute => "COMPUTE"
  | .ignore => "IGNORE"
  | .abort => "ABORT"

def all : List VersionAction := [.copy, .version, .initialise, .compute, .ignore, .abort]

end VersionAction

def Keyword.versionActions : List (String × VersionAction) :=
  Keyword.spelled (VersionAction.all.map fun a => (a.text, a))

end Cnd
