import Cnd.Constraint
import Cnd.Location
import Cnd.Outline.Basic
import Cnd.Token.Scan

/-!
Why a definition text cannot be read, and where.
-/

namespace Cnd

inductive ParseFault where
  /-- The file cannot be read. -/
  | unreadable (reason : String)
  | scan (fault : ScanFault)
  | grammar (fault : GrammarFault) (found : Token)
  /-- A token that should be a name. -/
  | name (text : String) (e : NameError)
  | declaration (e : NameError)
  | conversion (e : ConversionError)
  | constraint (e : ConstraintError)
  /-- A second primary item of the node type. -/
  | secondPrimary (typeName : String)

def ParseFault.message : ParseFault → String
  | .unreadable reason => "Failed to read CND file: " ++ reason
  | .scan fault => fault.message
  | .grammar fault found => fault.message found
  | .name text e => s!"Error while parsing '{text}': {e.message}"
  | .declaration e => e.message
  | .conversion e => e.message
  | .constraint e => e.message
  | .secondPrimary typeName => s!"More than one primary item specified in node type '{typeName}'"

structure ParseError where
  fault : ParseFault
  location : Location

namespace ParseError

def message (e : ParseError) : String := e.fault.message

/-- The message with the place behind it. -/
def text (e : ParseError) : String := e.message ++ e.location.suffix

end ParseError

/-- Why reading stops: an error in the text or the file, or one of two faults that are passed on as
they are, a number in a pattern that is too large and a path that holds a null character. -/
inductive Failure where
  | parse (e : ParseError)
  | patternOverflow (o : Pattern.Overflow)
  | nullInPath

def Failure.message : Failure → String
  | .parse e => e.text
  | .patternOverflow o => o.message
  | .nullInPath => "embedded null byte"

end Cnd
