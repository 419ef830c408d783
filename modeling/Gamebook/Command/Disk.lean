/-
# Gamebook.Command.Disk — files in memory

A disk is one directory with files in it, and with the directories that their paths name. Paths are
followed step by step from there: empty steps and `.` stay, `..` goes up, a name goes down. Of what is
outside only the directories above are known.
-/
import Gamebook.Command.Files

namespace Gamebook

/-- What a file holds. -/
inductive Content where
  | text (text : String)
  /-- Bytes that are no text. -/
  | bytes (bytes : List UInt8)
  deriving DecidableEq, Inhabited

/-- Files by path. A path is the list of its names. -/
structure Disk where
  files : List (List String × Content)
  deriving DecidableEq, Inhabited

/-- Where a path leads. -/
inductive Place where
  | directory
  | file (path : List String) (content : Content)
  /-- Nothing yet, in a directory that is there. -/
  | free (path : List String)
  deriving DecidableEq, Inhabited

namespace Disk

/-- The content of a file. -/
def get? (d : Disk) (path : List String) : Option Content := d.files.lookup path

/-- Sets the content of a file. -/
def put (d : Disk) (path : List String) (content : Content) : Disk :=
  ⟨(path, content) :: d.files.filter fun f => f.1 ≠ path⟩

/-- Whether some file is below the path. -/
def isDirectory (d : Disk) (path : List String) : Bool :=
  path.isEmpty || d.files.any fun f => path.isPrefixOf f.1 && f.1 ≠ path

/-- What has the path. -/
def place (d : Disk) (path : List String) : Place :=
  if d.isDirectory path then .directory
  else
    match d.get? path with
    | some content => .file path content
    | none => .free path

/-- Follows steps from a directory, `none` for one outside the disk. -/
def follow (d : Disk) : Option (List String) → List String → Except FileError Place
  | _, [] => .ok .directory
  | none, step :: steps =>
    if step = ".." || step = "." then d.follow none steps else .error .missing
  | some here, step :: steps =>
    if step = "." then d.follow (some here) steps
    else if step = ".." then
      d.follow (if here.isEmpty then none else some here.dropLast) steps
    else
      match d.place (here ++ [step]), steps with
      | .directory, _ => d.follow (some (here ++ [step])) steps
      | found, [] => .ok found
      | .file _ _, _ => .error .notDirectory
      | .free _, _ => .error .missing

/-- Follows a path. -/
def find (d : Disk) (path : String) : Except FileError Place :=
  let steps := (path.splitOn "/").filter (· ≠ "")
  d.follow (if path.startsWith "/" then none else some []) steps

/-- Whether a path must lead to a directory. -/
def namesDirectory (path : String) : Bool := path.endsWith "/"

/-- Reads a file. -/
def read (d : Disk) (path : String) : Except FileError String := do
  match ← d.find path with
  | .directory => throw .isDirectory
  | .free _ => throw .missing
  | .file _ content =>
    if namesDirectory path then throw .notDirectory
    else
      match content with
      | .text text => return text
      | .bytes _ => throw .undecodable

/-- Writes a file. -/
def write (d : Disk) (path text : String) : Except FileError Disk := do
  match ← d.find path with
  | .directory => throw .isDirectory
  | .free target | .file target _ =>
    if namesDirectory path then throw .isDirectory else return d.put target (.text text)

/-- Whether there is something at the path. -/
def present (d : Disk) (path : String) : Bool :=
  match d.find path with
  | .ok .directory => true
  | .ok (.file _ _) => !namesDirectory path
  | .ok (.free _) | .error _ => false

/-- The files that are new or have other content than before. -/
def changes (before after : Disk) : List (List String × Content) :=
  after.files.filter fun f => before.get? f.1 ≠ some f.2

/-- Access to the files of a disk. -/
def access : FileAccess (StateM Disk) where
  read path := do return (← get).read path
  write path text := do
    match (← get).write path text with
    | .ok d => set d; return .ok ()
    | .error e => return .error e
  present path := do return (← get).present path

end Disk

end Gamebook
