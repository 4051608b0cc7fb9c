import Cnd.Text.Digit

/-!
Log records and where they go. A record below the threshold is dropped; of the others those below
a second level go to standard output and the rest to standard error, so that no record is written
twice.
-/

namespace Cnd.Log

/-- The weight of a record; the named levels are ten apart. -/
abbrev Level := Int

def debug : Level := 10
def info : Level := 20
def warning : Level := 30
def error : Level := 40
def critical : Level := 50

/-- The name under which a level is printed. -/
def levelName (l : Level) : String :=
  if l == critical then "CRITICAL"
  else if l == error then "ERROR"
  else if l == warning then "WARNING"
  else if l == info then "INFO"
  else if l == debug then "DEBUG"
  else if l == 0 then "NOTSET"
  else "Level " ++ Text.decimalInt l

/-- A letter as an ASCII capital; the dotless i and the long s have one too. -/
def capital (c : Char) : Char :=
  if c == 'ı' then 'I' else if c == 'ſ' then 'S' else c.toUpper

/-- The level of a name in letters of either case. -/
def levelOfName? (name : String) : Option Level :=
  let capitals := String.ofList (name.toList.map capital)
  [("CRITICAL", critical), ("FATAL", critical), ("ERROR", error), ("WARNING", warning),
   ("WARN", warning), ("INFO", info), ("DEBUG", debug), ("NOTSET", 0)].lookup capitals

/-- One message of a part of the program. -/
structure Record where
  source : String
  level : Level
  message : String
  deriving DecidableEq, Repr

/-- The two thresholds: what is written at all, and what goes to standard error. -/
structure Streams where
  threshold : Level
  errorLevel : Level

/-- Levels below the lowest named one cannot be sent to standard error apart. -/
def Streams.errorFrom (s : Streams) : Level := if s.errorLevel < debug then debug else s.errorLevel

/-- A record of positive level at or above the threshold. -/
def Streams.passes (s : Streams) (r : Record) : Bool := 0 < r.level && s.threshold ≤ r.level

/-- A passing record that goes to standard output. -/
def Streams.toOutput (s : Streams) (r : Record) : Bool :=
  s.passes r && debug ≤ r.level && r.level < s.errorFrom

/-- A passing record that goes to standard error. -/
def Streams.toError (s : Streams) (r : Record) : Bool := s.passes r && s.errorFrom ≤ r.level

/-- The line of a record; a nameless source is the root of all. -/
def Record.line (r : Record) : String :=
  let source := if r.source.isEmpty then "root" else r.source
  source ++ " - " ++ levelName r.level ++ " - " ++ r.message ++ "\n"

end Cnd.Log
