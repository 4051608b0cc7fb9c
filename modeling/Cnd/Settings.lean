import Cnd.Event

/-!
Settings, as the variables of the environment give them. Only the policy for prefix conflicts can be
wrong; whether that is an error or a warning is up to the caller.
-/

namespace Cnd

/-- A text that names no policy. -/
structure UnknownPolicy where
  text : String
  deriving DecidableEq, Repr

namespace ConflictPolicy

def all : List ConflictPolicy := [.error, .ignore, .override]

/-- The policy of a name in letters of either case, with blanks around it. -/
def ofName (text : String) : Except UnknownPolicy ConflictPolicy :=
  let name := String.ofList ((Text.trim text.toList).map Char.toLower)
  match all.find? (·.text == name) with
  | some p => .ok p
  | none => .error ⟨text⟩

end ConflictPolicy

def UnknownPolicy.message (e : UnknownPolicy) : String :=
  s!"Invalid namespace conflict policy '{e.text}'. Valid policies: " ++
    ", ".intercalate (ConflictPolicy.all.map (·.text))

/-- The variables of a process with their values. -/
abbrev Environment := List (String × String)

structure Settings where
  logLevel : String
  printLevel : String
  conflict : ConflictPolicy
  cacheEnabled : Bool
  deriving DecidableEq, Repr

namespace Settings

def logLevelVariable : String := "NODETYPE_CND_LOG_LEVEL"
def printLevelVariable : String := "NODETYPE_CND_PRINT_LEVEL"
def conflictVariable : String := "NODETYPE_CND_NAMESPACE_CONFLICT"
def cacheVariable : String := "NODETYPE_CND_CACHE_ENABLED"

/-- The value of a variable, or another one if it is not set. -/
def variableOr (env : Environment) (name fallback : String) : String := (env.lookup name).getD fallback

/-- The settings with a given policy. -/
def withPolicy (env : Environment) (conflict : ConflictPolicy) : Settings where
  logLevel := variableOr env logLevelVariable "INFO"
  printLevel := variableOr env printLevelVariable "WARNING"
  conflict := conflict
  cacheEnabled :=
    (variableOr env cacheVariable "false").toList.map Char.toLower == "true".toList

/-- The settings of an environment, unless it names an unknown policy. -/
def read (env : Environment) : Except UnknownPolicy Settings :=
  match ConflictPolicy.ofName (variableOr env conflictVariable "error") with
  | .ok p => .ok (withPolicy env p)
  | .error e => .error e

/-- The settings of an environment. An unknown policy is reported and replaced. -/
def readLenient (env : Environment) : Settings × List Event :=
  match read env with
  | .ok s => (s, [])
  | .error e => (withPolicy env .error, [.policyReplaced e.message ConflictPolicy.error.text])

/-- The streams of the settings; an unknown level name stands for the usual level. -/
def streams (s : Settings) : Log.Streams :=
  ⟨(Log.levelOfName? s.logLevel).getD Log.info, (Log.levelOfName? s.printLevel).getD Log.warning⟩

end Settings

end Cnd
