import Cnd.Definition
import Cnd.Schema.Basic

/-!
The schemas of the two documents: exported definitions, and files of namespace prefixes.
-/

namespace Cnd.Schema

def text : Schema := .kind [.string]
def flag : Schema := .kind [.boolean]
def textOrNull : Schema := .kind [.string, .null]
def arrayOf (item : Schema) : Schema := .all [.kind [.array], .items item]

def versionAction : Schema := .oneOf (VersionAction.all.map (·.text))

/-- A mapping that has the members of a record and no others. -/
def record (required : List String) (known : List (String × Schema)) : Schema :=
  .all [.kind [.object], .required required, .closed (known.map (·.1)), .members known]

def property : Schema :=
  record ["name", "required_type"]
    [("name", text),
     ("required_type", .oneOf (PropertyType.all.map (·.text))),
     ("default_values", arrayOf text),
     ("value_constraints", arrayOf text),
     ("autocreated", flag),
     ("mandatory", flag),
     ("protected", flag),
     ("multiple", flag),
     ("primary", flag),
     ("on_parent_version", versionAction)]

def childNode : Schema :=
  record ["name", "required_primary_types"]
    [("name", text),
     ("required_primary_types", .all [.kind [.array], .items text, .nonEmpty]),
     ("default_primary_type", textOrNull),
     ("autocreated", flag),
     ("mandatory", flag),
     ("protected", flag),
     ("primary", flag),
     ("same_name_siblings", flag),
     ("on_parent_version", versionAction)]

def nodeType : Schema :=
  record ["name", "supertypes", "orderable", "mixin", "properties", "child_nodes"]
    [("name", text),
     ("supertypes", arrayOf text),
     ("orderable", flag),
     ("mixin", flag),
     ("primary_item", textOrNull),
     ("properties", arrayOf property),
     ("child_nodes", arrayOf childNode)]

/-- Exported definitions. Members of other names are allowed at the top and among the metadata. -/
def definitions : Schema :=
  .all
    [.kind [.object],
     .required ["schema_version", "metadata", "namespaces", "node_types"],
     .members
       [("schema_version", text),
        ("metadata", .all
          [.kind [.object], .members [("sources", arrayOf text), ("generated_at", text)]]),
        ("namespaces", .all [.kind [.object], .others [] text]),
        ("node_types", arrayOf nodeType)]]

/-- An empty text or a prefix; a line break behind it is let through. -/
def isPrefixForm (s : List Char) : Bool :=
  let stem := match s.reverse with
    | '\n' :: rest => rest.reverse
    | _ => s
  stem.isEmpty || Namespaces.isPrefixText stem

def prefixForm : TextForm := ⟨"^([^\\W\\d][\\w.\\-]*)?$", isPrefixForm⟩

/-- A file of namespace prefixes. -/
def seedFile : Schema :=
  .all
    [.kind [.object],
     .required ["namespaces"],
     .closed ["namespaces"],
     .members
       [("namespaces", .all
          [.kind [.object],
           .keys (.all [text, .form prefixForm]),
           .others [] text])]]

/-- The schema of a name. -/
def ofName? (name : String) : Option Schema :=
  if name == "definitions" then some definitions
  else if name == "namespaces" then some seedFile
  else none

end Cnd.Schema
