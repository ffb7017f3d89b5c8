import Chip8.Dialect
import Chip8.PathName

/-!
# Names of program files

Games carry the dialect that they were written for in the extension of their
file: `.l` for shifts in place, `.s` for an index that stays, `.sl` or `.ls` for
both. The extension is taken from the bytes of the path. It belongs to the last
component of the path, once slashes and single dots at its end are dropped; it is
what follows the last dot of that component, if something stands before the dot.
-/

namespace Chip8

namespace RomName

open PathName (slash dot)

/-- The components of a path that count for its name: empty pieces and single dots do not. -/
def components (path : List UInt8) : List (List UInt8) :=
  (Bytes.split slash path).filter fun piece => !(piece.isEmpty || piece == [dot])

/-- The last component, unless there is none or it is the way up, `..`. -/
def fileName? (path : List UInt8) : Option (List UInt8) :=
  (components path).getLast?.filter (· != [dot, dot])

/-- What follows the last dot, if there is a dot and something stands before it. -/
def extension? (name : List UInt8) : Option (List UInt8) :=
  let reversed := name.reverse
  match reversed.dropWhile (· != dot) with
  | [] => none
  | [_] => none
  | _ :: _ :: _ => some (reversed.takeWhile (· != dot)).reverse

/-- A byte with the ASCII letters in lower case. -/
def lower (byte : UInt8) : UInt8 :=
  if 0x41 ≤ byte ∧ byte ≤ 0x5A then byte + 0x20 else byte

/-- The byte of the letter `l`. -/
def letterL : UInt8 := 0x6C

/-- The byte of the letter `s`. -/
def letterS : UInt8 := 0x73

end RomName

open RomName in
/-- The dialect that the name of a program file asks for. -/
def Dialect.ofRomName (path : List UInt8) : Dialect :=
  let suffix := ((fileName? path).bind extension?).map (·.map lower)
  let both := suffix == some [letterS, letterL] || suffix == some [letterL, letterS]
  { shiftInPlace := both || suffix == some [letterL]
    keepIndex := both || suffix == some [letterS] }

end Chip8
