import Cnd.Lint.Report

/-!
The arguments of the command line.

A long option may be cut short as long as no other one begins like that, and its value may follow
behind an equals sign or as the next argument. The paths are the arguments that are not taken by an
option, but only the first run of them; two hyphens end the options. Errors come in the order of
the arguments; only an ambiguous option is found before all others.
-/

namespace Cnd.CommandLine

/-- The options. -/
inductive Switch where
  | help
  | namespaces
  | format
  | exportTo
  deriving DecidableEq, Repr

namespace Switch

/-- The names of the options, in their order. -/
def names : List (String × Switch) :=
  [("-h", .help), ("--help", .help), ("--namespaces", .namespaces), ("--format", .format),
   ("--export", .exportTo)]

/-- How messages name an option. -/
def text (s : Switch) : String :=
  "/".intercalate ((names.filter (·.2 == s)).map (·.1))

end Switch

/-- A value that is attached to an option: behind an equals sign, or to a letter. -/
structure Attached where
  isMarked : Bool
  value : String
  deriving DecidableEq, Repr

/-- What an argument is. -/
inductive Word where
  | text (s : String)
  /-- The two hyphens that end the options. -/
  | separator
  | option (s : Switch) (name : String) (attached : Option Attached)
  | unknown (s : String)
  deriving DecidableEq, Repr

inductive ArgumentError where
  | ambiguous (given : String) (names : List String)
  | noValue (s : Switch)
  | unexpectedValue (s : Switch) (value : String)
  | badFormat (given : String)
  | unrecognized (given : List String)
  deriving DecidableEq, Repr

def ArgumentError.message : ArgumentError → String
  | .ambiguous given names =>
    let all := ", ".intercalate names
    s!"ambiguous option: {given} could match {all}"
  | .noValue s => s!"argument {s.text}: expected one argument"
  | .unexpectedValue s value =>
    s!"argument {s.text}: ignored explicit argument {Text.quoted value}"
  | .badFormat given =>
    let choices := ", ".intercalate (Lint.Format.all.map fun f => Text.quoted f.text)
    s!"argument {Switch.text .format}: invalid choice: {Text.quoted given} (choose from {choices})"
  | .unrecognized given => "unrecognized arguments: " ++ " ".intercalate given

/-! ## Words -/

/-- A text before its first equals sign, and what follows it. -/
def splitEquals (s : List Char) : List Char × Option (List Char) :=
  match s.dropWhile (· != '=') with
  | [] => (s, none)
  | _ :: value => (s.takeWhile (· != '='), some value)

/-- The options that an argument may stand for. -/
def candidates (s : List Char) : List (Switch × String × Option Attached) :=
  match s with
  | '-' :: '-' :: _ =>
    let (name, value) := splitEquals s
    (Switch.names.filter fun n => name.isPrefixOf n.1.toList).map fun n =>
      (n.2, n.1, value.map fun v => ⟨true, String.ofList v⟩)
  | _ =>
    Switch.names.filterMap fun n =>
      if n.1.toList == s.take 2 then some (n.2, n.1, some ⟨false, String.ofList (s.drop 2)⟩)
      else if s.isPrefixOf n.1.toList then some (n.2, n.1, none)
      else none

/-- Whether a text looks like a negative number; a line feed at its end does not count. -/
def isNegativeNumber (s : List Char) : Bool :=
  let body := if s.getLast? == some '\n' then s.dropLast else s
  match body with
  | '-' :: rest =>
    let whole := rest.takeWhile Text.isDigit
    match rest.drop whole.length with
    | [] => !whole.isEmpty
    | '.' :: fraction => !fraction.isEmpty && fraction.all Text.isDigit
    | _ => false
  | _ => false

/-- An option of the given name with the value behind the equals sign, if the argument is that. -/
def marked? (arg : String) : Option Word :=
  let (name, value) := splitEquals arg.toList
  match value, Switch.names.lookup (String.ofList name) with
  | some v, some s => some (.option s (String.ofList name) (some ⟨true, String.ofList v⟩))
  | _, _ => none

/-- What one argument is. -/
def word (arg : String) : Except ArgumentError Word :=
  let s := arg.toList
  if s.head? != some '-' then .ok (.text arg)
  else match Switch.names.lookup arg with
    | some o => .ok (.option o arg none)
    | none =>
      if s.length == 1 then .ok (.text arg)
      else match marked? arg with
        | some w => .ok w
        | none =>
          match candidates s with
          | [(o, name, attached)] => .ok (.option o name attached)
          | [] =>
            if isNegativeNumber s || s.contains ' ' then .ok (.text arg) else .ok (.unknown arg)
          | many => .error (.ambiguous arg (many.map fun c => c.2.1))

/-- What the arguments are. -/
def words : List String → Except ArgumentError (List Word)
  | [] => .ok []
  | arg :: rest =>
    if arg == "--" then .ok (.separator :: rest.map .text)
    else do
      let w ← word arg
      return w :: (← words rest)

/-! ## Arguments -/

/-- What is asked for. -/
structure Arguments where
  paths : List String
  namespaces : Option String
  format : Lint.Format
  exportTo : Option String
  deriving DecidableEq, Repr

/-- What has been taken of the arguments so far: the paths, once they have been met, and what
nothing could take. -/
structure Taken where
  paths : Option (List String)
  namespaces : Option String
  format : Lint.Format
  exportTo : Option String
  extras : List String

def Taken.start : Taken := ⟨none, none, .human, none, []⟩

/-- What the arguments amount to. -/
inductive Request where
  | help
  | lint (a : Arguments)
  | refused (e : ArgumentError)
  deriving DecidableEq, Repr

/-- The text of an argument that is no option. -/
def plainText? : Word → Option String
  | .text s => some s
  | .separator => some "--"
  | _ => none

/-- The texts of a run of paths, without the two hyphens. -/
def pathsOf (run : List Word) : List String :=
  (run.filter (· != .separator)).filterMap plainText?

/-- A run of arguments that are no options: the paths, or arguments that nothing takes. -/
def Taken.run (t : Taken) (run : List Word) : Taken :=
  match t.paths with
  | none => { t with paths := some (pathsOf run) }
  | some _ => { t with extras := t.extras ++ run.filterMap plainText? }

/-- A value for an option that has one. -/
def Taken.value (t : Taken) (s : Switch) (v : String) : Except ArgumentError Taken :=
  match s with
  | .help => .ok t
  | .namespaces => .ok { t with namespaces := some v }
  | .exportTo => .ok { t with exportTo := some v }
  | .format =>
    match Lint.Format.all.find? (·.text == v) with
    | some f => .ok { t with format := f }
    | none => .error (.badFormat v)

/-- Whether letters behind the short option for help are refused: the first is a hyphen, or the
letters are marked as a value. The letter of the option itself may come again. -/
def helpRefuses : Bool → List Char → Option (List Char)
  | isMarked, [] => if isMarked then some [] else none
  | isMarked, c :: rest =>
    if isMarked || c == '-' then some (c :: rest)
    else if c == 'h' then
      match rest with
      | '=' :: more => some more
      | [] => none
      | _ => helpRefuses false rest
    else none

/-- What asking for help amounts to: a value is refused. -/
def helpRequest (name : String) : Option Attached → Request
  | none => .help
  | some a =>
    if name == "-h" then
      match helpRefuses a.isMarked a.value.toList with
      | some rest => .refused (.unexpectedValue .help (String.ofList rest))
      | none => .help
    else .refused (.unexpectedValue .help a.value)

/-- The request of what has been taken. -/
def Taken.request (t : Taken) : Request :=
  if t.extras.isEmpty then .lint ⟨t.paths.getD [], t.namespaces, t.format, t.exportTo⟩
  else .refused (.unrecognized t.extras)

/-- What has been taken, with the run since the last option, which is in reverse. -/
def Taken.close (t : Taken) (run : List Word) : Taken :=
  if run.isEmpty then t else t.run run.reverse

/-- Goes through the words, with the run since the last option in reverse. -/
def take (t : Taken) (run : List Word) : List Word → Request
  | [] => (t.close run).request
  | .unknown s :: rest =>
    let t := t.close run
    take { t with extras := t.extras ++ [s] } [] rest
  | .option .help name attached :: _ => helpRequest name attached
  | .option s _ (some a) :: rest =>
    match (t.close run).value s a.value with
    | .ok t => take t [] rest
    | .error e => .refused e
  | .option s _ none :: .text v :: rest =>
    match (t.close run).value s v with
    | .ok t => take t [] rest
    | .error e => .refused e
  | .option s _ none :: _ => .refused (.noValue s)
  | w :: rest => take t (w :: run) rest

/-- The request of arguments. -/
def Request.ofArguments (args : List String) : Request :=
  match words args with
  | .error e => .refused e
  | .ok ws => take .start [] ws

/-! ## Texts -/

/-- The name of the program. -/
def programName : String := "nodetype-cnd-lint"

def usage : String :=
  String.join (List.map (· ++ "\n")
    ["usage: " ++ programName ++ " [-h] [--namespaces FILE]",
     "                         [--format \x7bhuman,json,github-actions\x7d]",
     "                         [--export FILE]",
     "                         [paths ...]"])

def help : String :=
  usage ++ String.join (List.map (· ++ "\n")
    ["",
     "Lint compact node type definition (CND) files",
     "",
     "positional arguments:",
     "  paths                 File paths or directories to lint (default: current",
     "                        directory)",
     "",
     "options:",
     "  -h, --help            show this help message and exit",
     "  --namespaces FILE     YAML file with namespace prefixes available to every",
     "                        CND file",
     "  --format \x7bhuman,json,github-actions\x7d",
     "                        Output format (default: human)",
     "  --export FILE         Write the parsed definitions to FILE (JSON, or YAML",
     "                        for .yaml/.yml)"])

/-- What is written about arguments that are refused. -/
def ArgumentError.report (e : ArgumentError) : String :=
  usage ++ s!"{programName}: error: {e.message}\n"

end Cnd.CommandLine
