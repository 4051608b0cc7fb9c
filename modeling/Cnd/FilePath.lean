import Cnd.Text.Order

/-!
File paths: a root, if the path is absolute, and the names below it. Empty names and single dots
are dropped when a text is read; two dots stay. Exactly two slashes in front are a root of their
own.
-/

namespace Cnd

/-- A path with its root (empty for a relative path) and its names. -/
structure FilePath where
  root : String
  names : List String
  deriving DecidableEq, Repr, Inhabited

namespace FilePath

/-- The pieces of a text between slashes. -/
def splitSlash : List Char → List (List Char)
  | [] => [[]]
  | c :: rest =>
    match splitSlash rest with
    | [] => [[c]]
    | piece :: pieces => if c == '/' then [] :: piece :: pieces else (c :: piece) :: pieces

/-- The root that a text starts with. -/
def rootOf (s : List Char) : String :=
  match s with
  | '/' :: '/' :: '/' :: _ => "/"
  | '/' :: '/' :: _ => "//"
  | '/' :: _ => "/"
  | _ => ""

def ofString (s : String) : FilePath :=
  let pieces := (splitSlash s.toList).map String.ofList
  ⟨rootOf s.toList, pieces.filter fun p => p != "" && p != "."⟩

/-- The text of a path; the empty relative path is a single dot. -/
def text (p : FilePath) : String :=
  let body := "/".intercalate p.names
  if p.root.isEmpty && p.names.isEmpty then "." else p.root ++ body

/-- The last name of a path. -/
def name (p : FilePath) : String := p.names.getLastD ""

/-- The last dot of a name and what follows it, unless the dot is the first or the last
character. -/
def suffixOf (name : List Char) : List Char :=
  let tail := (name.reverse.takeWhile (· != '.')).reverse
  let before := name.length - tail.length
  if tail.isEmpty || before < 2 then [] else '.' :: tail

def suffix (p : FilePath) : String := String.ofList (suffixOf p.name.toList)

/-- The path of a name below a directory. -/
def child (p : FilePath) (name : String) : FilePath := ⟨p.root, p.names ++ [name]⟩

/-- The key by which paths are ordered: root and names, each by code points. -/
def sortKey (p : FilePath) : List String := if p.root.isEmpty then p.names else p.root :: p.names

def le (p q : FilePath) : Bool := Text.listLe p.sortKey q.sortKey

end FilePath

end Cnd
