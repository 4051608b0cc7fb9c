import Cnd.Elaboration
import Cnd.TextFile

/-!
Reading definitions from files. The path of a file is its name in locations.
-/

namespace Cnd.Definitions

/-- What it means that a file cannot be read. -/
def unreadable (p : FilePath) (e : TextFileError) : Failure :=
  match e with
  | .file ⟨.nullChar, _⟩ => .nullInPath
  | _ => .parse ⟨.unreadable e.message, .ofFile p⟩

/-- Read the definitions of a file, from a given prefix table or from the built-in prefixes. -/
def load (tree : FileTree) (policy : ConflictPolicy) (seed : Option Namespaces)
    (p : FilePath) : Elaboration.Result Definitions :=
  match tree.readChars p with
  | .error e => ⟨[.readingFile p.text], .error (unreadable p e)⟩
  | .ok text =>
    let r := readWith p.text policy seed (String.ofList text)
    ⟨.readingFile p.text :: r.events, r.outcome⟩

/-- Read the definitions of a file, and report an error in it. -/
def tryLoad (tree : FileTree) (policy : ConflictPolicy) (seed : Option Namespaces)
    (p : FilePath) : Elaboration.Result Definitions :=
  let r := load tree policy seed p
  match r.outcome with
  | .error (.parse e) => ⟨r.events ++ [.readFailed p.text e.text], r.outcome⟩
  | _ => r

end Cnd.Definitions
