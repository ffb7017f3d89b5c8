import Chip8.Terminal.Screen

/-!
# Operations as text

A terminal carries out an operation when it is sent a control sequence: escape, an
opening bracket, parameters between semicolons and a letter. `Op.text` is the
sequence of an operation. Raw mode is not a matter of text, so switching it sends
nothing.
-/

namespace Chip8.Terminal

/-- The control sequence with the given parameters and last letters. -/
def sequence (parameters : List String) (last : String) : String :=
  "\x1b[" ++ String.intercalate ";" parameters ++ last

/-- A mode of the terminal, by its number, switched on or off. -/
def modeText (number : Nat) (on : Bool) : String :=
  sequence ["?" ++ toString number] (if on then "h" else "l")

/-- The parameters that choose a colour, after the number for what it is the colour of. -/
def colourParameters (ground : String) : Colour → List String
  | none => []
  | some colour => [ground, "5", toString colour.toNat]

/-- The sequence that chooses the colours of a cell. -/
def Cell.pen (cell : Cell) : String :=
  sequence ("0" :: colourParameters "38" cell.foreground ++ colourParameters "48" cell.background)
    "m"

/-- What to send for an operation. -/
def Op.text : Op → String
  | .enterAlternate => modeText 1049 true
  | .leaveAlternate => modeText 1049 false
  | .hideCursor => modeText 25 false
  | .showCursor => modeText 25 true
  | .clear => sequence ["0"] "m" ++ sequence ["2"] "J"
  | .setRaw _ => ""
  | .put x y cell =>
    sequence [toString (y + 1), toString (x + 1)] "H" ++ cell.pen ++ cell.character.toString

/-- What to send for operations in order. -/
def textOf (ops : List Op) : String := String.join (ops.map Op.text)

end Chip8.Terminal
