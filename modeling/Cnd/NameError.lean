import Cnd.Data

/-!
Why a prefix cannot be declared, or a text is not a name.
-/

namespace Cnd

inductive NameError where
  /-- A declaration whose prefix or URI is no text. -/
  | notText (pfx uri : Data)
  | invalidPrefix (pfx : String)
  | emptyUri (pfx : String)
  /-- A prefix bound to another URI, under the policy that forbids it. -/
  | conflict (pfx current uri : String)
  | unknownPrefix (pfx : String)
  | unboundUri (uri : String)
  | emptyName
  | blankAround (text : String)
  | emptyPrefix (text : String)
  | invalidPrefixIn (pfx text : String)
  | unknownPrefixIn (pfx text : String)
  | emptyLocal (text : String)
  | dotLocal (localName text : String)
  | illegalChar (c : Char) (text : String)

namespace NameError

def message : NameError → String
  | .notText pfx uri =>
    s!"Namespace prefix and URI must be strings, got {pfx.quoted} = {uri.quoted}"
  | .invalidPrefix pfx => s!"Invalid namespace prefix '{pfx}'"
  | .emptyUri pfx => s!"Namespace prefix '{pfx}' cannot be mapped to an empty URI"
  | .conflict pfx current uri =>
    s!"Namespace prefix '{pfx}' is already mapped to '{current}', cannot remap it to '{uri}'"
  | .unknownPrefix pfx => s!"Unknown namespace prefix '{pfx}'"
  | .unboundUri uri => s!"No prefix declared for namespace '{uri}'"
  | .emptyName => "Empty name"
  | .blankAround text => s!"Illegal leading or trailing whitespace in name '{text}'"
  | .emptyPrefix text => s!"Empty namespace prefix in name '{text}'"
  | .invalidPrefixIn pfx text => s!"Invalid namespace prefix '{pfx}' in name '{text}'"
  | .unknownPrefixIn pfx text => s!"Unknown namespace prefix '{pfx}' in name '{text}'"
  | .emptyLocal text => s!"Empty local name in '{text}'"
  | .dotLocal localName text => s!"'{localName}' is not a valid local name in '{text}'"
  | .illegalChar c text =>
    s!"Illegal character {Text.quoted (String.singleton c)} in name '{text}'"

/-- Whether the error is a redeclaration that the policy forbids, rather than a malformed or
unknown name. -/
def isConflict : NameError → Bool
  | .conflict .. => true
  | _ => false

end NameError

end Cnd
