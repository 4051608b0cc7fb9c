import Cnd.FilePath
import Cnd.Namespaces.Basic
import Cnd.Numeral

/-!
Item paths: names with optional indexes, and the two special segments, between slashes. A path is
absolute if a slash stands in front; a single slash is the root.
-/

namespace Cnd

/-- Why a text is not a path. -/
inductive PathError where
  | empty
  | emptySegment (text : String)
  | badIndex (index : Nat) (text : String)
  | indexTooLong (digits : Nat)
  | name (e : NameError)

def PathError.message : PathError → String
  | .empty => "Empty path"
  | .emptySegment text => s!"Empty path segment in '{text}'"
  | .badIndex index text =>
    s!"Invalid index {Text.decimal index} in path '{text}', indexes start at 1"
  | .indexTooLong digits => Numeral.tooLongMessage digits
  | .name e => e.message

/-- One segment of a path. -/
inductive PathSegment where
  | item (name : Name) (index : Option Nat)
  | current
  | parent
  deriving DecidableEq, Repr

structure ItemPath where
  absolute : Bool
  segments : List PathSegment
  deriving DecidableEq, Repr

namespace PathSegment

/-- The name and the digits of `name[digits]`. The name has no line break. -/
def splitIndex? (segment : List Char) : Option (List Char × List Char) :=
  match segment.reverse with
  | ']' :: rest =>
    let digits := (rest.takeWhile (· != '[')).reverse
    let name := ((rest.dropWhile (· != '[')).drop 1).reverse
    if !digits.isEmpty && digits.all Text.isDigit && !name.isEmpty && !name.contains '\n' then
      some (name, digits)
    else none
  | _ => none

/-- The segment that a text between slashes stands for. -/
def ofText (ns : Namespaces) (path : String) (segment : List Char) : Except PathError PathSegment :=
  if segment.isEmpty then .error (.emptySegment path)
  else if segment == ['.'] then .ok .current
  else if segment == ['.', '.'] then .ok .parent
  else
    match splitIndex? segment with
    | none => match ns.resolve (String.ofList segment) with
      | .error e => .error (.name e)
      | .ok name => .ok (.item name none)
    | some (name, digits) => match Numeral.ofDigits digits with
      | .error count => .error (.indexTooLong count)
      | .ok index =>
        if index < 1 then .error (.badIndex index path)
        else match ns.resolve (String.ofList name) with
          | .error e => .error (.name e)
          | .ok name => .ok (.item name (some index))

def render (ns : Namespaces) : PathSegment → String
  | .current => "."
  | .parent => ".."
  | .item name none => ns.render name
  | .item name (some index) => ns.render name ++ "[" ++ Text.decimal index ++ "]"

end PathSegment

namespace ItemPath

/-- The segments of a list of texts, up to the first that is none. -/
def segmentsOf (ns : Namespaces) (path : String) :
    List (List Char) → Except PathError (List PathSegment)
  | [] => .ok []
  | s :: rest => match PathSegment.ofText ns path s with
    | .error e => .error e
    | .ok segment => match segmentsOf ns path rest with
      | .error e => .error e
      | .ok segments => .ok (segment :: segments)

/-- The path that a text stands for. -/
def parse (ns : Namespaces) (text : String) : Except PathError ItemPath :=
  match text.toList with
  | [] => .error .empty
  | ['/'] => .ok ⟨true, []⟩
  | '/' :: rest => (segmentsOf ns text (FilePath.splitSlash rest)).map (⟨true, ·⟩)
  | cs => (segmentsOf ns text (FilePath.splitSlash cs)).map (⟨false, ·⟩)

/-- Whether the path is the single slash. -/
def isRoot (p : ItemPath) : Bool := p.absolute && p.segments.isEmpty

/-- Whether the other path continues this one by at least one segment. -/
def isAncestorOf (p q : ItemPath) : Bool :=
  p.absolute == q.absolute && p.segments.length < q.segments.length &&
    p.segments.isPrefixOf q.segments

def render (ns : Namespaces) (p : ItemPath) : String :=
  let body := "/".intercalate (p.segments.map (PathSegment.render ns))
  if p.absolute then "/" ++ body else body

end ItemPath

end Cnd
