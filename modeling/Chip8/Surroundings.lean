import Chip8.PathName

/-!
# Around the working directory

What lies outside the working directory belongs to the host on which a program is
called: directories, and files such as devices, which read the same whatever is
written into them. The working directory itself lies in a directory of the host,
under a name that nobody knows beforehand; the system may offer a path from the root
that leads back to it all the same.
-/

namespace Chip8

/-- What a host has outside the working directory; places are told by the names that
lead there from the root. -/
structure Surroundings where
  /-- The directory in which the working directory lies. -/
  home : List FileName := []
  /-- Where the system leads back to the working directory, if it does. -/
  wayBack : Option (List FileName) := none
  /-- The directories, besides the root. -/
  directories : List (List FileName) := []
  /-- The files, with what is read from them. -/
  files : List (List FileName × List UInt8) := []
  /-- Directories whose contents the system alone decides on; no file can be made there. -/
  closed : List (List FileName) := []
  deriving DecidableEq, Repr

namespace Surroundings

/-- The names that lead to a place, from the text of its path. -/
def namesOf (path : String) : List FileName := PathName.names (Bytes.ofString path)

/-- A host with temporary files, programs, processes, and the null device. -/
def plain : Surroundings where
  home := namesOf "/tmp"
  wayBack := some (namesOf "/proc/self/cwd")
  directories := ["/dev", "/proc", "/proc/self", "/tmp", "/usr", "/usr/bin"].map namesOf
  files := [(namesOf "/dev/null", [])]
  closed := ["/proc", "/proc/self"].map namesOf

instance : Inhabited Surroundings := ⟨plain⟩

variable (s : Surroundings)

/-- Whether names lead to a directory. -/
def isDirectory (names : List FileName) : Bool := names.isEmpty || s.directories.contains names

/-- What is read where names lead to a file. -/
def file? (names : List FileName) : Option (List UInt8) := s.files.lookup names

/-- Whether files can be made in a directory. -/
def takesFiles (names : List FileName) : Bool := !s.closed.contains names

end Surroundings

end Chip8
