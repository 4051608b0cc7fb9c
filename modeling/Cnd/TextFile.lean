import Cnd.FileTree
import Cnd.Text.Lines
import Cnd.Text.Utf8

/-!
Text files: bytes of UTF-8 with any kind of line breaks.
-/

namespace Cnd

/-- Why a text file cannot be read. -/
inductive TextFileError where
  | file (e : FileError)
  | encoding (f : Text.Utf8.Fault)
  deriving DecidableEq, Repr

def TextFileError.message : TextFileError → String
  | .file e => e.message
  | .encoding f => f.message

/-- The text of bytes, with one kind of line break. -/
def Text.ofBytes (bytes : ByteArray) : Except Text.Utf8.Fault (List Char) :=
  (Text.Utf8.decode bytes).map Text.unifyLineBreaks

/-- The text of the file that a path leads to. -/
def FileTree.readChars (t : FileTree) (p : FilePath) : Except TextFileError (List Char) :=
  match t.read p with
  | .error e => .error (.file e)
  | .ok bytes =>
    match Text.ofBytes bytes with
    | .error f => .error (.encoding f)
    | .ok chars => .ok chars

end Cnd
