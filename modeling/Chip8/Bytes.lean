/-!
# Lists of bytes

Paths and what a terminal sends are lists of bytes. This module cuts such a list
at a separator and reads decimal numbers from it.
-/

namespace Chip8.Bytes

/-- The bytes of a text. -/
def ofString (text : String) : List UInt8 := text.toUTF8.toList

/-- The pieces between the separators, at least one. -/
def split (separator : UInt8) : List UInt8 → List (List UInt8)
  | [] => [[]]
  | byte :: rest =>
    if byte = separator then [] :: split separator rest
    else match split separator rest with
      | [] => [[byte]]
      | piece :: others => (byte :: piece) :: others

/-- Whether a byte is a decimal digit. -/
def isDigit (byte : UInt8) : Bool := 0x30 ≤ byte && byte ≤ 0x39

/-- Whether the bytes encode a text in UTF-8. -/
def isText (bytes : List UInt8) : Bool := (String.fromUTF8? ⟨bytes.toArray⟩).isSome

/-- The sign that a number may begin with. -/
def plus : UInt8 := 0x2B

/-- The number that decimal digits denote, with or without a plus sign before them. -/
def number? (bytes : List UInt8) : Option Nat :=
  let digits := if bytes.head? = some plus then bytes.tail else bytes
  if digits.isEmpty || !digits.all isDigit then none
  else some (digits.foldl (fun n digit => n * 10 + (digit.toNat - 0x30)) 0)

/-- The same, for a number that must be below a bound. -/
def numberBelow? (bound : Nat) (bytes : List UInt8) : Option Nat :=
  (number? bytes).filter (· < bound)

end Chip8.Bytes
