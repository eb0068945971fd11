import ClassLang.Table

/-!
# Files

A working directory with files in it, and how a path leads to one of them. The only directories are
the working directory, those above it, and the root; a path that passes through anything else fails.
A path is followed part by part, so the first part that fails decides the error.
-/

namespace ClassLang

/-- Why a file could not be read or written, or a program not started. -/
inductive IoError where
  | notFound | permissionDenied | notADirectory | isADirectory | nameTooLong
  /-- A path with a character that ends a path. -/
  | nulInPath
  /-- A command with a character that ends a word. -/
  | nulInCommand
deriving DecidableEq, Repr, Inhabited

def IoError.message : IoError → String
  | notFound => "No such file or directory (os error 2)"
  | permissionDenied => "Permission denied (os error 13)"
  | notADirectory => "Not a directory (os error 20)"
  | isADirectory => "Is a directory (os error 21)"
  | nameTooLong => "File name too long (os error 36)"
  | nulInPath => "file name contained an unexpected NUL byte"
  | nulInCommand => "nul byte found in provided data"

/-! ## Paths -/

namespace Path

/-- Whether a text holds the character that ends texts outside. -/
def hasNul (text : String) : Bool := text.toList.contains '\x00'

/-- The parts of a path between its slashes. -/
def parts (path : String) : List String := (path.splitOn "/").filter (· != "")

def isAbsolute (path : String) : Bool := path.toList.head? == some '/'

def endsInSlash (path : String) : Bool := path.toList.getLast? == some '/'

/-- How many bytes a part may have. -/
def maxPart : Nat := 255

/-- How many bytes a path may have. -/
def maxSize : Nat := 4095

/-- The last part of a path, if it is a name; single dots do not count. -/
def fileName? (path : String) : Option String :=
  ((parts path).filter (· != ".")).getLast?.filter (· != "..")

/-- The part of a name after its last dot, unless the name has no dot but a first one. -/
def extension? (path : String) : Option String :=
  (fileName? path).bind fun name =>
    let tail := (name.toList.reverse.takeWhile (· != '.')).reverse
    let head := name.toList.length - tail.length
    if head ≤ 1 then none else some (.ofList tail)

end Path

/-! ## Disks -/

/-- The files of the directories that there are, each under its directory's text and its name. -/
structure Disk where
  files : Table String := {}
deriving Repr, Inhabited

/-- Where a path leads. -/
inductive Disk.Target where
  | directory
  /-- A name in a directory; after `slash` only a directory may have it. -/
  | name (dir name : String) (slash : Bool)
deriving Repr, Inhabited

namespace Disk

/-- The directory above one. The working directory has an empty text, the root is above itself. -/
def parent (dir : String) : String := if dir == "/" then dir else "../" ++ dir

/-- The directory that parts of a path lead to from another. -/
def walk (d : Disk) : (dir : String) → (parts : List String) → Except IoError String
  | dir, [] => .ok dir
  | dir, part :: parts =>
    if part == "." then d.walk dir parts
    else if part == ".." then d.walk (parent dir) parts
    else if Path.maxPart < part.utf8ByteSize then .error .nameTooLong
    else if d.files.contains (dir ++ part) then .error .notADirectory
    else .error .notFound

/-- Where a path leads. -/
def target (d : Disk) (path : String) : Except IoError Target := do
  if Path.hasNul path then throw .nulInPath
  if path.isEmpty then throw .notFound
  if Path.maxSize < path.utf8ByteSize then throw .nameTooLong
  let parts := Path.parts path
  let dir ← d.walk (if Path.isAbsolute path then "/" else "") parts.dropLast
  match parts.getLast? with
  | none => return .directory
  | some part =>
    if part == "." || part == ".." then return .directory
    else return .name dir part (Path.endsInSlash path)

/-- What the file at a path holds. -/
def read (d : Disk) (path : String) : Except IoError String := do
  match ← d.target path with
  | .directory => throw .isADirectory
  | .name dir name slash =>
    if Path.maxPart < name.utf8ByteSize then throw .nameTooLong
    match d.files.find? (dir ++ name) with
    | some text => if slash then throw .notADirectory else return text
    | none => throw .notFound

/-- What a path holds, if it is a file. -/
def read? (d : Disk) (path : String) : Option String := (d.read path).toOption

/-- Whether a path leads to a file or a directory. -/
def contains (d : Disk) (path : String) : Bool :=
  match d.read path with
  | .ok _ | .error .isADirectory => true
  | .error _ => false

/-- Puts a text into the file at a path, which is made if it does not exist. -/
def write (d : Disk) (path text : String) : Except IoError Disk := do
  match ← d.target path with
  | .directory => throw .isADirectory
  | .name dir name slash =>
    if slash then throw .isADirectory
    if Path.maxPart < name.utf8ByteSize then throw .nameTooLong
    return { d with files := d.files.insert (dir ++ name) text }

end Disk

end ClassLang
