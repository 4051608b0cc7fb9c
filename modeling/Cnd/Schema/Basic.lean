import Cnd.Data
import Cnd.Text.Order

/-!
Schemas of plain data, and the issues of a value that does not meet its schema.

A schema is a list of rules, each of which looks at values of one kind and lets all others pass.
Every rule that fails has an issue of its own. Issues are sorted by the texts of their paths; those
of one path stay in the order of the rules.
-/

namespace Cnd

/-- The kinds of values that a schema can tell apart. -/
inductive DataKind where
  | object
  | array
  | string
  | boolean
  | null
  deriving DecidableEq, Repr

namespace DataKind

def text : DataKind → String
  | .object => "object"
  | .array => "array"
  | .string => "string"
  | .boolean => "boolean"
  | .null => "null"

/-- Whether a value is of a kind. -/
def holds : DataKind → Data → Bool
  | .object, .map _ => true
  | .array, .list _ => true
  | .string, .text _ => true
  | .boolean, .bool _ => true
  | .null, .null => true
  | _, _ => false

end DataKind

/-- A form that texts must have, with the expression by which messages call it. -/
structure TextForm where
  expression : String
  accepts : List Char → Bool

/-- A rule for values, or several rules. -/
inductive Schema where
  /-- To be of one of the kinds. -/
  | kind (kinds : List DataKind)
  /-- To have members of these names. -/
  | required (names : List String)
  /-- To have a value of its own schema wherever a member of a name is there. -/
  | members (known : List (String × Schema))
  /-- To have members of these names only. -/
  | closed (known : List String)
  /-- To have values of a schema as members of all other names. -/
  | others (known : List String) (schema : Schema)
  /-- To have keys of a schema. -/
  | keys (schema : Schema)
  /-- To have items of a schema. -/
  | items (schema : Schema)
  /-- To have an item. -/
  | nonEmpty
  /-- To be one of these texts. -/
  | oneOf (texts : List String)
  | form (f : TextForm)
  | all (rules : List Schema)

/-- One step from a value to a value that it holds. -/
inductive PathStep where
  | key (k : Data)
  | index (i : Nat)

namespace PathStep

def text : PathStep → String
  | .key k => k.bare
  | .index i => Text.decimal i

/-- The steps to the value at a key. A null key is passed over. -/
def ofKey : Data → List PathStep
  | .null => []
  | k => [.key k]

def isWritable : PathStep → Bool
  | .key k => k.isWritable
  | .index _ => true

end PathStep

/-- What is wrong with the value at a path, and the values that the message shows. -/
structure SchemaIssue where
  message : String
  shown : List Data
  path : List PathStep

namespace SchemaIssue

/-- The issue as one of the value that steps lead from. -/
def under (steps : List PathStep) (i : SchemaIssue) : SchemaIssue :=
  { i with path := steps ++ i.path }

def here (message : String) (shown : List Data) : SchemaIssue := ⟨message, shown, []⟩

def pathTexts (i : SchemaIssue) : List String := i.path.map PathStep.text

/-- The path with a slash before each step; empty for the value as a whole. -/
def pathText (i : SchemaIssue) : String := String.join (i.pathTexts.map ("/" ++ ·))

def le (a b : SchemaIssue) : Bool := Text.listLe a.pathTexts b.pathTexts

/-- Whether the issue can be put in words: all values that its message or its path shows can. -/
def isWritable (i : SchemaIssue) : Bool := i.shown.all (·.isWritable) && i.path.all (·.isWritable)

end SchemaIssue

namespace Schema

/-- Whether a key is one of the names. -/
def isKnown (known : List String) : Data → Bool
  | .text s => known.contains s
  | _ => false

/-- The keys of a mapping that are none of the names. -/
def unknownKeys (known : List String) (entries : List (Data × Data)) : List Data :=
  (entries.map (·.1)).filter fun k => !isKnown known k

/-- The message about unknown keys, which are listed in the order of their texts. -/
def closedMessage (extras : List Data) : String :=
  let sorted := extras.mergeSort fun a b => a.bare ≤ b.bare
  let verb := if extras.length == 1 then "was" else "were"
  "Additional properties are not allowed (" ++ ", ".intercalate (sorted.map Data.quoted) ++
    s!" {verb} unexpected)"

/-- The texts of a choice as a list. -/
def choiceText (texts : List String) : String := (Data.list (texts.map .text)).quoted

def kindIssues (kinds : List DataKind) (d : Data) : List SchemaIssue :=
  if kinds.any (·.holds d) then []
  else
    let names := ", ".intercalate (kinds.map fun k => Text.quoted k.text)
    [.here s!"{d.quoted} is not of type {names}" [d]]

def requiredIssues (names : List String) : Data → List SchemaIssue
  | .map entries =>
    (names.filter fun n => (Data.lookup entries (.text n)).isNone).map fun n =>
      .here s!"{Text.quoted n} is a required property" []
  | _ => []

def closedIssues (known : List String) : Data → List SchemaIssue
  | .map entries =>
    let extras := unknownKeys known entries
    if extras.isEmpty then [] else [.here (closedMessage extras) extras]
  | _ => []

def nonEmptyIssues : Data → List SchemaIssue
  | .list [] => [.here s!"{(Data.list []).quoted} should be non-empty" []]
  | _ => []

def oneOfIssues (texts : List String) (d : Data) : List SchemaIssue :=
  if isKnown texts d then [] else [.here s!"{d.quoted} is not one of {choiceText texts}" [d]]

def formIssues (f : TextForm) : Data → List SchemaIssue
  | .text s =>
    if f.accepts s.toList then []
    else [.here s!"{Text.quoted s} does not match {Text.quoted f.expression}" []]
  | _ => []

mutual
/-- The issues of a value, rule by rule. -/
def issues : Schema → Data → List SchemaIssue
  | .kind kinds, d => kindIssues kinds d
  | .required names, d => requiredIssues names d
  | .members known, d => memberIssues known d
  | .closed known, d => closedIssues known d
  | .others known schema, .map entries =>
    (entries.filter fun e => !isKnown known e.1).flatMap fun e =>
      (issues schema e.2).map (.under (PathStep.ofKey e.1))
  | .keys schema, .map entries => entries.flatMap fun e => issues schema e.1
  | .items schema, .list xs =>
    xs.zipIdx.flatMap fun x => (issues schema x.1).map (.under [.index x.2])
  | .nonEmpty, d => nonEmptyIssues d
  | .oneOf texts, d => oneOfIssues texts d
  | .form f, d => formIssues f d
  | .all rules, d => allIssues rules d
  | .others .., _ | .keys _, _ | .items _, _ => []

/-- The issues of the members that have a schema of their own. -/
def memberIssues : List (String × Schema) → Data → List SchemaIssue
  | [], _ => []
  | (name, schema) :: rest, d =>
    (match d.member? name with
      | some x => (issues schema x).map (.under [.key (.text name)])
      | none => []) ++ memberIssues rest d

def allIssues : List Schema → Data → List SchemaIssue
  | [], _ => []
  | rule :: rest, d => issues rule d ++ allIssues rest d
end

/-- The issues of a value in the order of their paths. -/
def check (s : Schema) (d : Data) : List SchemaIssue := (s.issues d).mergeSort SchemaIssue.le

end Schema

end Cnd
