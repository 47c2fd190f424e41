import ScopedFn.Path

/-!
# Files

A tree of directories and files, and the directory that relative paths start from.

* `Files.locate` follows a path, segment by segment; the last segment need not exist;
* `Files.read` and `Files.write` read and write a file, `Files.present` tells whether a path leads
  anywhere. A written file can be read and written by its owner only.
-/

set_option autoImplicit false

namespace ScopedFn

/-- The segments from the root to a place in the tree. -/
abbrev Location := List (List Char)

/-- What stands at a place. -/
inductive FileEntry where
  /-- A directory. -/
  | directory
  /-- A file with its contents and its permission bits. -/
  | file (contents : List UInt8) (mode : Nat)
  deriving DecidableEq, Repr

/-- Why a path cannot be used. -/
inductive FileFault where
  /-- A part of the path does not exist. -/
  | notFound
  /-- A part of the path that has to be a directory is a file. -/
  | notDirectory
  /-- The path leads to a directory. -/
  | isDirectory
  /-- A segment or the whole path is too long. -/
  | nameTooLong
  deriving DecidableEq, Repr

/-- The wording of the fault. -/
def FileFault.message : FileFault → String
  | notFound => "No such file or directory"
  | notDirectory => "Not a directory"
  | isDirectory => "Is a directory"
  | nameTooLong => "File name too long"

/-- A tree of directories and files. -/
structure Files where
  /-- What stands where; the root is not listed. -/
  entries : List (Location × FileEntry)
  /-- Where relative paths start. -/
  here : Location
  deriving Repr

namespace Files

/-- The longest segment, in bytes. -/
def segmentLimit : Nat := 255

/-- The longest path, in bytes. -/
def pathLimit : Nat := 4095

/-- The permission bits of a file that nobody restricted. -/
def usualMode : Nat := 0o644

/-- The permission bits of a file that only its owner may read and write. -/
def ownerMode : Nat := 0o600

/-- A tree in which the working directory is empty. -/
def empty : Files := ⟨[(["work".toList], .directory)], ["work".toList]⟩

/-- What stands at a place. -/
def get? (fs : Files) (l : Location) : Option FileEntry :=
  if l = [] then some .directory else fs.entries.lookup l

/-- Puts something at a place. -/
def put (fs : Files) (l : Location) (e : FileEntry) : Files :=
  { fs with entries := (l, e) :: fs.entries.filter (·.1 != l) }

/-- How many bytes a text has in UTF-8. -/
def byteLength (cs : List Char) : Nat := (String.ofList cs).utf8ByteSize

/-- Follows segments from a place. -/
def walk (fs : Files) : Location → List (List Char) → Except FileFault Location
  | l, [] => .ok l
  | l, s :: rest =>
    match fs.get? l with
    | none => .error .notFound
    | some (.file _ _) => .error .notDirectory
    | some .directory =>
      if s = Path.parentSegment then walk fs l.dropLast rest
      else if segmentLimit < byteLength s then .error .nameTooLong
      else walk fs (l ++ [s]) rest

/-- The place that a path leads to. -/
def locate (fs : Files) (p : Path.Lexical) : Except FileFault Location :=
  if pathLimit < byteLength p.text then .error .nameTooLong
  else fs.walk (if p.root = 0 then fs.here else []) p.parts

/-- The path leads to a file or directory. -/
def present (fs : Files) (p : Path.Lexical) : Except FileFault Bool :=
  match fs.locate p with
  | .ok l => .ok (fs.get? l).isSome
  | .error .nameTooLong => .error .nameTooLong
  | .error _ => .ok false

/-- The contents of a file. -/
def read (fs : Files) (p : Path.Lexical) : Except FileFault (List UInt8) := do
  match fs.get? (← fs.locate p) with
  | none => throw .notFound
  | some .directory => throw .isDirectory
  | some (.file contents _) => return contents

/-- Contents and permission bits of a file, if the path leads to one. -/
def file? (fs : Files) (p : Path.Lexical) : Option (List UInt8 × Nat) :=
  match (fs.locate p).toOption.bind fs.get? with
  | some (.file contents mode) => some (contents, mode)
  | _ => none

/-- Writes a file that only its owner may read and write. -/
def write (fs : Files) (p : Path.Lexical) (contents : List UInt8) : Except FileFault Files := do
  let l ← fs.locate p
  match fs.get? l with
  | some .directory => throw .isDirectory
  | _ => return fs.put l (.file contents ownerMode)

/-- Makes the directories on the way through some segments. -/
def makeDirectories (fs : Files) (l : Location) : List (List Char) → Files
  | [] => fs
  | s :: rest =>
    let next := l ++ [s]
    makeDirectories (if (fs.get? next).isNone then fs.put next .directory else fs) next rest

/-- Makes a directory and those around it. -/
def addDirectory (fs : Files) (p : Path.Lexical) : Files := fs.makeDirectories fs.here p.parts

/-- Makes a file and the directories around it. -/
def addFile (fs : Files) (p : Path.Lexical) (contents : List UInt8) : Files :=
  (fs.makeDirectories fs.here p.parts.dropLast).put (fs.here ++ p.parts)
    (.file contents usualMode)

end Files

end ScopedFn
