import Cnd.FilePath
import Cnd.Text.Quoted

/-!
A tree of directories and files, known by the names that lead to them from the root, and what
becomes of a path in it.

The root is a directory, and nothing is known of what lies outside of it. A path is followed name
by name, so that a name behind a file is an error even if it is two dots.
-/

namespace Cnd

inductive FileEntry where
  | file (bytes : ByteArray)
  | directory

structure FileTree where
  entries : List (List String × FileEntry)

/-- Why a path cannot be followed, read or written. -/
inductive FileFault where
  | missing
  | isDirectory
  | notDirectory
  | alreadyThere
  | tooLong
  /-- The path holds a null character. -/
  | nullChar
  deriving DecidableEq, Repr

/-- A fault with the path as it was given. -/
structure FileError where
  fault : FileFault
  path : String
  deriving DecidableEq, Repr

/-- The number and the wording of a fault that the system reports. -/
def FileFault.report : FileFault → Nat × String
  | .missing => (2, "No such file or directory")
  | .isDirectory => (21, "Is a directory")
  | .notDirectory => (20, "Not a directory")
  | .alreadyThere => (17, "File exists")
  | .tooLong => (36, "File name too long")
  | .nullChar => (0, "embedded null byte")

def FileError.message (e : FileError) : String :=
  let (number, wording) := e.fault.report
  if e.fault == .nullChar then wording
  else s!"[Errno {Text.decimal number}] {wording}: {Text.quoted e.path}"

namespace FileTree

def empty : FileTree := ⟨[]⟩

/-- What the names lead to. -/
def entry? (t : FileTree) (names : List String) : Option FileEntry :=
  if names.isEmpty then some .directory else t.entries.lookup names

def isDirectory (t : FileTree) (names : List String) : Bool :=
  match t.entry? names with
  | some .directory => true
  | _ => false

/-! ## Following paths -/

/-- The most bytes of a name, and the least of a path that is too long. -/
def nameLimit : Nat := 255
def pathLimit : Nat := 4096

/-- Follow names from a place in the tree. -/
def follow (t : FileTree) : List String → List String → Except FileFault (List String)
  | here, [] => .ok here
  | here, name :: rest =>
    if !t.isDirectory here then .error .notDirectory
    else if name == ".." then
      if here.isEmpty then .error .missing else follow t here.dropLast rest
    else if nameLimit < name.utf8ByteSize then .error .tooLong
    else match t.entry? (here ++ [name]) with
      | none => .error .missing
      | some _ => follow t (here ++ [name]) rest

/-- A path is followed name by name. -/
theorem follow_append (t : FileTree) (here names more : List String) :
    t.follow here (names ++ more) = t.follow here names >>= fun place => t.follow place more := by
  fun_induction follow t here names with
  | case1 here => rfl
  | case2 here name rest hd => rw [List.cons_append, follow, if_pos hd]; rfl
  | case3 here name rest hd hname hempty =>
    rw [List.cons_append, follow, if_neg hd, if_pos hname, if_pos hempty]; rfl
  | case4 here name rest hd hname hempty ih =>
    rw [List.cons_append, follow, if_neg hd, if_pos hname, if_neg hempty, ih]
  | case5 here name rest hd hname hlen =>
    rw [List.cons_append, follow, if_neg hd, if_neg hname, if_pos hlen]; rfl
  | case6 here name rest hd hname hlen he =>
    rw [List.cons_append, follow, if_neg hd, if_neg hname, if_neg hlen, he]; rfl
  | case7 here name rest hd hname hlen e he ih =>
    rw [List.cons_append, follow, if_neg hd, if_neg hname, if_neg hlen, he]
    exact ih

/-- The faults of a path as a text. -/
def checkText (text : String) : Except FileFault Unit :=
  if text.contains '\x00' then .error .nullChar
  else if pathLimit ≤ text.utf8ByteSize then .error .tooLong
  else .ok ()

/-- The names of what a path leads to. Nothing is known below another root. -/
def locate (t : FileTree) (p : FilePath) : Except FileFault (List String) := do
  checkText p.text
  if p.root.isEmpty then t.follow [] p.names else .error .missing

/-- What a path leads to; nothing if it leads nowhere. A name that no path may have is an error. -/
def find? (t : FileTree) (p : FilePath) : Except FileError (Option FileEntry) :=
  match t.locate p with
  | .ok names => .ok (t.entry? names)
  | .error .tooLong => .error ⟨.tooLong, p.text⟩
  | .error _ => .ok none

/-! ## Reading -/

/-- Whether a text asks for a directory by the way it ends. -/
def endsAsDirectory (text : String) : Bool := text.endsWith "/" || text.endsWith "/."

/-- The bytes of the file that a path given as a text leads to. -/
def readText (t : FileTree) (text : String) : Except FileError ByteArray :=
  if text.isEmpty then .error ⟨.missing, text⟩
  else match t.locate (.ofString text) with
    | .error f => .error ⟨f, text⟩
    | .ok names =>
      match t.entry? names with
      | some (.file bytes) =>
        if endsAsDirectory text then .error ⟨.notDirectory, text⟩ else .ok bytes
      | some .directory => .error ⟨.isDirectory, text⟩
      | none => .error ⟨.missing, text⟩

/-- The bytes of the file that a path leads to. -/
def read (t : FileTree) (p : FilePath) : Except FileError ByteArray := t.readText p.text

/-! ## Writing -/

/-- The tree with an entry put in place of what the names lead to. -/
def put (t : FileTree) (names : List String) (e : FileEntry) : FileTree :=
  if names.isEmpty then t
  else if (t.entries.lookup names).isSome then
    ⟨t.entries.map fun x => if x.1 == names then (names, e) else x⟩
  else ⟨t.entries ++ [(names, e)]⟩

/-- The tree with the directories above some names, as far as they are not there. -/
def putParents (t : FileTree) (names : List String) : FileTree :=
  ((List.range names.length).map fun n => names.take n).foldl
    (fun t names => if (t.entry? names).isSome then t else t.put names .directory) t

/-- The tree with an entry and the directories above it. -/
def putDeep (t : FileTree) (names : List String) (e : FileEntry) : FileTree :=
  (t.putParents names).put names e

def remove (t : FileTree) (names : List String) : FileTree :=
  ⟨t.entries.filter fun x => x.1 != names⟩

/-- Where a new entry of a path would stand: in the directory that the rest of the path leads
to. -/
def place (t : FileTree) (p : FilePath) : Except FileFault (List String) := do
  checkText p.text
  if !p.root.isEmpty then .error .missing
  else if p.names.isEmpty || p.name == ".." then t.follow [] p.names
  else do
    let parent ← t.follow [] p.names.dropLast
    if !t.isDirectory parent then .error .notDirectory
    else if nameLimit < p.name.utf8ByteSize then .error .tooLong
    else return parent ++ [p.name]

/-- Make a directory, which must not be there. -/
def makeDirectory (t : FileTree) (p : FilePath) (shown : String) : Except FileError FileTree :=
  match t.place p with
  | .error f => .error ⟨f, shown⟩
  | .ok names =>
    if (t.entry? names).isSome then .error ⟨.alreadyThere, shown⟩
    else .ok (t.put names .directory)

/-- The directories on the way of a path and at its end, with their texts. -/
def stepsOf (text : String) : List (FilePath × String) :=
  let pieces := FilePath.splitSlash text.toList
  let texts := (List.range pieces.length).map fun n =>
    String.ofList (['/'].intercalate (pieces.take (n + 1)))
  let steps := (pieces.zip texts).filter fun s => !s.1.isEmpty && s.1 != ['.']
  steps.map fun s => (.ofString s.2, s.2)

/-- Make the directories of a path as far as they are not there. What is on the way may be there
in any form, what is at its end must be a directory. -/
def makeAll (t : FileTree) : List (FilePath × String) → Except FileError FileTree
  | [] => .ok t
  | (p, shown) :: rest =>
    match t.find? p, rest with
    | .error e, _ => .error ⟨e.fault, shown⟩
    | .ok (some .directory), _ => makeAll t rest
    | .ok (some (.file _)), _ :: _ => makeAll t rest
    | .ok _, _ =>
      match t.makeDirectory p shown with
      | .error e => .error e
      | .ok t => makeAll t rest

/-- The text of a path before its last slash, without the slashes at its end. -/
def parentText (text : String) : String :=
  let head := text.toList.reverse.dropWhile (· != '/')
  let trimmed := head.dropWhile (· == '/')
  String.ofList (if trimmed.isEmpty then head else trimmed).reverse

/-- Make the directories above a path. -/
def makeParents (t : FileTree) (text : String) : Except FileError FileTree :=
  t.makeAll (stepsOf (parentText text))

/-- Write a file. -/
def writeText (t : FileTree) (text : String) (bytes : ByteArray) : Except FileError FileTree :=
  if text.isEmpty then .error ⟨.missing, text⟩
  else match t.place (.ofString text) with
    | .error f => .error ⟨f, text⟩
    | .ok names =>
      if t.isDirectory names then .error ⟨.isDirectory, text⟩
      else if endsAsDirectory text then
        .error ⟨if (t.entry? names).isSome then .notDirectory else .isDirectory, text⟩
      else .ok (t.put names (.file bytes))

/-! ## Below a directory -/

/-- The names of everything below a directory, from there on. -/
def below (t : FileTree) (names : List String) : List (List String) :=
  (t.entries.map (·.1)).filterMap fun p =>
    if names.isPrefixOf p && names.length < p.length then some (p.drop names.length) else none

/-- The files of the tree. -/
def files (t : FileTree) : List (List String × ByteArray) :=
  t.entries.filterMap fun
    | (names, .file bytes) => some (names, bytes)
    | (_, .directory) => none

/-- The files that another tree does not hold with the same bytes. -/
def changedFrom (t before : FileTree) : List (List String × ByteArray) :=
  t.files.filter fun (names, bytes) =>
    match before.entry? names with
    | some (.file b) => b != bytes
    | _ => true

end FileTree

end Cnd
