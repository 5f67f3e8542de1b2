import ProseMath.Path

/-!
# File trees

A file tree says which files and directories there are below the working directory and around it.
Its operations follow a path element by element, and fail as the operating system does.
-/

namespace ProseMath

/-! ## Failures -/

/-- The system operations that can fail. -/
inductive FileOperation where
  | stat
  | openFile
  | read
  | makeDirectory
deriving DecidableEq, Repr

/-- Why a system operation fails. -/
inductive FileReason where
  | missing
  | notDirectory
  | isDirectory
  | other (description : Text)
deriving DecidableEq, Repr

/-- A failed system operation. -/
structure PathError where
  operation : FileOperation
  path : Text
  reason : FileReason
deriving DecidableEq, Repr

/-- The name of an operation. -/
def FileOperation.name : FileOperation → Text
  | .stat => "stat".toList
  | .openFile => "open".toList
  | .read => "read".toList
  | .makeDirectory => "mkdir".toList

/-- The text of a reason. -/
def FileReason.message : FileReason → Text
  | .missing => "no such file or directory".toList
  | .notDirectory => "not a directory".toList
  | .isDirectory => "is a directory".toList
  | .other description => description

/-- The text of a failed operation. -/
def PathError.message (e : PathError) : Text :=
  e.operation.name ++ [' '] ++ e.path ++ ": ".toList ++ e.reason.message

/-! ## Trees -/

/-- Where paths are counted from. -/
inductive Origin where
  | root
  /-- The directory that many levels above the working directory. -/
  | above (levels : Nat)
deriving DecidableEq, Repr

/-- A place in a tree, by the names on the way to it. -/
structure Location where
  origin : Origin
  names : List Text
deriving DecidableEq, Repr

namespace Location

/-- The working directory. -/
def working : Location := ⟨.above 0, []⟩

/-- Where a path starts. -/
def ofStart (p : Text) : Location := if Path.isAbsolute p then ⟨.root, []⟩ else working

/-- The directory above. -/
def parent (place : Location) : Location :=
  match place.names, place.origin with
  | [], .root => place
  | [], .above levels => ⟨.above (levels + 1), []⟩
  | names, origin => ⟨origin, names.dropLast⟩

/-- One element further. -/
def child (place : Location) (element : Text) : Location :=
  if element = [] ∨ element = Path.here then place
  else if element = Path.above then place.parent
  else ⟨place.origin, place.names ++ [element]⟩

end Location

/-- What stands at a place. -/
inductive Entry where
  | directory
  | file (content : ByteArray)

/-- Two files are equal if their bytes are. -/
instance : DecidableEq Entry
  | .directory, .directory => isTrue rfl
  | .directory, .file _ => isFalse nofun
  | .file _, .directory => isFalse nofun
  | .file a, .file b =>
    decidable_of_iff (a.data = b.data) (by rw [Entry.file.injEq, ByteArray.ext_iff])

/-- The files and directories that there are. Where paths start there is always a directory. -/
structure FileTree where
  entries : List (Location × Entry)

namespace FileTree

/-- No files. -/
def empty : FileTree := ⟨[]⟩

/-- What stands at a place. -/
def entry? (tree : FileTree) (place : Location) : Option Entry :=
  if place.names.isEmpty then some .directory
  else (tree.entries.find? fun item => item.1 = place).map Prod.snd

/-- The tree with an entry at a place, instead of what stood there. -/
def insert (tree : FileTree) (place : Location) (entry : Entry) : FileTree :=
  if (tree.entries.any fun item => item.1 = place) then
    ⟨tree.entries.map fun item => if item.1 = place then (place, entry) else item⟩
  else ⟨tree.entries ++ [(place, entry)]⟩

/-- Follows elements from a place. Whatever is passed on the way has to be a directory. -/
def walk (tree : FileTree) (place : Location) : List Text → Except FileReason Location
  | [] => .ok place
  | element :: rest =>
    match tree.entry? place with
    | none => .error .missing
    | some (.file _) => .error .notDirectory
    | some .directory => tree.walk (place.child element) rest

/-- The place that a path leads to, at which there may be nothing. -/
def locate (tree : FileTree) (path : Text) : Except FileReason Location :=
  if path.isEmpty then .error .missing
  else tree.walk (.ofStart path) (path.splitOn '/')

/-- What stands at the end of a path. -/
def lookup (tree : FileTree) (path : Text) : Except FileReason Entry := do
  let place ← tree.locate path
  match tree.entry? place with
  | some entry => return entry
  | none => .error .missing

/-- Whether a path leads to a directory. -/
def stat (tree : FileTree) (path : Text) : Except PathError Bool :=
  match tree.lookup path with
  | .ok .directory => .ok true
  | .ok (.file _) => .ok false
  | .error reason => .error ⟨.stat, path, reason⟩

/-- The content of a file. -/
def read (tree : FileTree) (path : Text) : Except PathError ByteArray :=
  match tree.lookup path with
  | .ok (.file content) => .ok content
  | .ok .directory => .error ⟨.read, path, .isDirectory⟩
  | .error reason => .error ⟨.openFile, path, reason⟩

/-- The tree after a file has been written, newly or instead of its old content. -/
def write (tree : FileTree) (path : Text) (content : ByteArray) : Except PathError FileTree :=
  match tree.locate path with
  | .error reason => .error ⟨.openFile, path, reason⟩
  | .ok place =>
    match tree.entry? place with
    | some .directory => .error ⟨.openFile, path, .isDirectory⟩
    | some (.file _) => .ok (tree.insert place (.file content))
    | none =>
      match tree.entry? place.parent with
      | some .directory => .ok (tree.insert place (.file content))
      | some (.file _) => .error ⟨.openFile, path, .notDirectory⟩
      | none => .error ⟨.openFile, path, .missing⟩

/-- The tree with a directory at the end of a path whose directory above is there. -/
def makeDirectory (tree : FileTree) (path : Text) : Except PathError FileTree :=
  match tree.locate path with
  | .error reason => .error ⟨.makeDirectory, path, reason⟩
  | .ok place =>
    match tree.entry? place with
    | some .directory => .ok tree
    | some (.file _) => .error ⟨.makeDirectory, path, .notDirectory⟩
    | none => .ok (tree.insert place .directory)

/-- The tree with all directories on the way to a path and one at its end. -/
def makeDirectories (tree : FileTree) (path : Text) : Except PathError FileTree :=
  (Path.ancestors path).foldlM makeDirectory tree

/-- The places at which the second tree has an entry that the first has not. -/
def changes (before after : FileTree) : List (Location × Entry) :=
  after.entries.filter fun item => before.entry? item.1 ≠ some item.2

end FileTree

end ProseMath
