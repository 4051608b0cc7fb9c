import Cnd.CommandLine.Run
import Std.Time.DateTime

/-!
The linter as a program. It works on the tree below the current directory: the tree is read, the
run is worked out, and what it wrote is written.
-/

namespace Cnd.Program

/-- The variables that settings are read from. -/
def variableNames : List String :=
  [Settings.logLevelVariable, Settings.printLevelVariable, Settings.conflictVariable,
   Settings.cacheVariable]

def environment : IO Environment := do
  let found ← variableNames.mapM fun name => do
    return (← IO.getEnv name).map fun value => (name, value)
  return found.filterMap id

/-- Whether a run with the given arguments may read a file: it holds definitions, or its name is
that of an argument. -/
def mayRead (args : List String) (name : String) : Bool :=
  name.endsWith Lint.extension || args.any (·.endsWith name)

/-- The entries of a directory entry and of what is below it. -/
partial def entriesBelow (args names : List String) (e : IO.FS.DirEntry) :
    IO (List (List String × FileEntry)) := do
  let here := names ++ [e.fileName]
  if ← e.path.isDir then
    let inner ← (← e.path.readDir).toList.mapM (entriesBelow args here)
    return (here, .directory) :: inner.flatten
  else if mayRead args e.fileName then
    return [(here, .file (← IO.FS.readBinFile e.path))]
  else return [(here, .file .empty)]

/-- The tree below the current directory. -/
def currentTree (args : List String) : IO FileTree := do
  let top ← (← IO.currentDir).readDir
  return ⟨(← top.toList.mapM (entriesBelow args [])).flatten⟩

def writeFile (names : List String) (bytes : ByteArray) : IO Unit := do
  if 1 < names.length then IO.FS.createDirAll ("/".intercalate names.dropLast)
  IO.FS.writeBinFile ("/".intercalate names) bytes

def print (p : CommandLine.Piece) : IO Unit := do
  let stream ← if p.isError then IO.getStderr else IO.getStdout
  stream.putStr p.text
  stream.flush

/-- The present time of UTC. -/
def now : IO String := do
  let t ← Std.Time.Timestamp.now
  return (LocalTime.ofEpoch (t.toNanosecondsSinceUnixEpoch.val / 1000).toNat).stampText

/-- A run as a whole. A fault without a status is reported as a failure. -/
def run (args : List String) : IO UInt32 := do
  let tree ← currentTree args
  let outcome := CommandLine.run (← environment) (← now) args tree
  outcome.pieces.forM print
  (outcome.tree.changedFrom tree).forM fun (names, bytes) => writeFile names bytes
  match outcome.status with
  | .ok status => return status.toUInt32
  | .error e =>
    IO.eprintln e.message
    return CommandLine.failed.toUInt32

end Cnd.Program

def main (args : List String) : IO UInt32 := Cnd.Program.run args
