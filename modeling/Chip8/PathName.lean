import Chip8.Bytes

/-!
# Path names

A path name, or path, is a list of bytes: names with slashes between them. A path
that begins with a slash starts at the root, any other at the working directory;
how many slashes stand together does not matter.
-/

namespace Chip8

/-- The name of a file or directory, as bytes. -/
abbrev FileName := List UInt8

namespace PathName

/-- The byte between names. -/
def slash : UInt8 := 0x2F

/-- The byte of a dot. -/
def dot : UInt8 := 0x2E

/-- The name that stands for the directory itself. -/
def here : FileName := [dot]

/-- The name that stands for the directory above. -/
def above : FileName := [dot, dot]

/-- The longest name. -/
def maxName : Nat := 255

/-- The longest path. -/
def maxLength : Nat := 4095

/-- The names of a path. -/
def names (path : List UInt8) : List FileName := (Bytes.split slash path).filter (!·.isEmpty)

/-- Whether a path starts at the root. -/
def isAbsolute (path : List UInt8) : Bool := path.head? == some slash

/-- Whether a path says that it leads to a directory. -/
def endsInSlash (path : List UInt8) : Bool := path.getLast? == some slash

end PathName

end Chip8
