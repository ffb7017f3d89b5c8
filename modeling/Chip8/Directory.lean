import Chip8.Surroundings

/-!
# Directories

The files that a program can reach from its working directory. A path is followed
name by name, from the left, and the first name that leads nowhere decides what is
wrong with it. What is made outside the working directory is kept as well, beside
what the host has there anyway (`Surroundings`).
-/

namespace Chip8

/-- What can be wrong with a file. -/
inductive FileError where
  | notFound
  | notDirectory
  | isDirectory
  | nameTooLong
  /-- The path contains a zero byte. -/
  | zeroInPath
  deriving DecidableEq, Repr, Inhabited

/-- The wording of a file error. -/
def FileError.message : FileError → String
  | .notFound => "No such file or directory (os error 2)"
  | .notDirectory => "Not a directory (os error 20)"
  | .isDirectory => "Is a directory (os error 21)"
  | .nameTooLong => "File name too long (os error 36)"
  | .zeroInPath => "file name contained an unexpected NUL byte"

/-- A place that a path can lead to. -/
inductive Place where
  /-- In or below the working directory; the names begin there. -/
  | inside (names : List FileName)
  /-- Elsewhere; the names begin at the root. -/
  | outside (names : List FileName)
  deriving DecidableEq, Repr

/-- What is in a working directory, and what there is and was made around it. -/
structure Directory where
  directories : List Place := []
  files : List (Place × List UInt8) := []
  /-- What the host has outside. -/
  around : Surroundings := default
  deriving DecidableEq, Repr, Inhabited

namespace Directory

/-- Whether there is always a directory at a place. -/
def isGiven (d : Directory) : Place → Bool
  | .inside names => names.isEmpty
  | .outside names => d.around.isDirectory names

/-- What is always read at a place, if the host has a file there. -/
def device? (d : Directory) : Place → Option (List UInt8)
  | .inside _ => none
  | .outside names => d.around.file? names

/-- The contents of the file at a place, if there is a file. -/
def file? (d : Directory) (place : Place) : Option (List UInt8) :=
  (d.device? place).or (d.files.lookup place)

/-- Whether there is a directory at a place. -/
def isDirectory (d : Directory) (place : Place) : Bool :=
  d.isGiven place || d.directories.contains place

/-- Whether there is anything at a place. -/
def contains (d : Directory) (place : Place) : Bool :=
  d.isDirectory place || (d.file? place).isSome

/-- Whether files can be made in the directory at a place. -/
def takesFiles (d : Directory) : Place → Bool
  | .inside _ => true
  | .outside names => d.around.takesFiles names

/-- Where the name of the directory above leads; above the root is the root. -/
def parent (d : Directory) : Place → Place
  | .inside [] => .outside d.around.home
  | .inside names => .inside names.dropLast
  | .outside names => .outside names.dropLast

/-- Where a name leads from a directory, whether something is there or not. -/
def child (d : Directory) (place : Place) (name : FileName) : Place :=
  if name = PathName.here then place
  else if name = PathName.above then d.parent place
  else match place with
    | .inside names => .inside (names ++ [name])
    | .outside names =>
      if d.around.wayBack = some (names ++ [name]) then .inside []
      else .outside (names ++ [name])

/-- Follow one name. -/
def step (d : Directory) (place : Place) (name : FileName) : Except FileError Place :=
  if !d.isDirectory place then .error .notDirectory
  else if PathName.maxName < name.length then .error .nameTooLong
  else if d.contains (d.child place name) then .ok (d.child place name)
  else .error .notFound

/-- Follow names one after the other. -/
def walk (d : Directory) (place : Place) (names : List FileName) : Except FileError Place :=
  names.foldlM d.step place

/-- Whether a path may be followed at all. -/
def admissible (path : List UInt8) : Except FileError Unit :=
  if path.contains 0 then .error .zeroInPath
  else if PathName.maxLength < path.length then .error .nameTooLong
  else .ok ()

/-- Where a path begins. -/
def start (path : List UInt8) : Place :=
  if PathName.isAbsolute path then .outside [] else .inside []

/-- The contents of the file that a path leads to. -/
def read (d : Directory) (path : List UInt8) : Except FileError (List UInt8) := do
  admissible path
  if path.isEmpty then throw .notFound
  let place ← d.walk (start path) (PathName.names path)
  match d.file? place with
  | none => throw .isDirectory
  | some contents => if PathName.endsInSlash path then throw .notDirectory else pure contents

/-- The directory with other contents in the file at a place; what is written to a
device is lost. -/
def fill (d : Directory) (place : Place) (contents : List UInt8) : Directory :=
  if (d.device? place).isSome then d
  else { d with files := (place, contents) :: d.files.filter (·.1 != place) }

/-- The directory with an empty file where a path leads to, and that place. -/
def create (d : Directory) (path : List UInt8) : Except FileError (Place × Directory) := do
  admissible path
  if path.isEmpty then throw .notFound
  match (PathName.names path).reverse with
  | [] => throw .isDirectory
  | name :: before =>
    let directory ← d.walk (start path) before.reverse
    if !d.isDirectory directory then throw .notDirectory
    if PathName.endsInSlash path then throw .isDirectory
    if name = PathName.here ∨ name = PathName.above then throw .isDirectory
    if PathName.maxName < name.length then throw .nameTooLong
    let place := d.child directory name
    if d.isDirectory place then throw .isDirectory
    if !(d.contains place || d.takesFiles directory) then throw .notFound
    pure (place, d.fill place [])

/-- Go where a name leads, making a directory there if there is nothing. -/
def enter (d : Directory) (place : Place) (name : FileName) : Place × Directory :=
  let place := d.child place name
  (place, if d.contains place then d else { d with directories := place :: d.directories })

/-- The directory with another directory where a path leads to, and all those that are
missing on the way there. -/
def addDirectory (d : Directory) (path : List UInt8) : Directory :=
  ((PathName.names path).foldl (fun (place, d) name => d.enter place name) (start path, d)).2

/-- The directory with a file where a path leads to, if a file can be there. -/
def addFile (d : Directory) (path : List UInt8) (contents : List UInt8) : Directory :=
  match d.create path with
  | .ok (place, d) => d.fill place contents
  | .error _ => d

/-- The name of a place right in the working directory. -/
def entryName? : Place → Option FileName
  | .inside [name] => some name
  | _ => none

/-- The names right in the directory, each with the size of the file, zero for a directory. -/
def entries (d : Directory) : List (FileName × Nat) :=
  let directories := d.directories.filterMap fun place =>
    (entryName? place).map fun name => (name, 0)
  let files := d.files.filterMap fun (place, contents) =>
    (entryName? place).map fun name => (name, contents.length)
  (directories ++ files).mergeSort fun a b => decide (a.1 ≤ b.1)

end Directory

end Chip8
