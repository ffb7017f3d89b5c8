/-!
# A terminal as its user sees it

A terminal has two screens of coloured characters, one of which is shown, a cursor
that can be hidden, and a raw mode in which keys go to the program as they are
typed. A program changes it by operations (`Op`), and what it did is the list of
its operations, in order: `Terminal.applyAll` gives the terminal after them. The
terminal remembers what the alternate screen showed when it was last emptied or
left.
-/

namespace Chip8.Terminal

/-- A colour, by its number in the palette; nothing stands for the default. -/
abbrev Colour := Option UInt8

/-- One character on a screen. -/
structure Cell where
  character : Char := ' '
  foreground : Colour := none
  background : Colour := none
  deriving DecidableEq, Repr, Inhabited

/-- An empty place. -/
def Cell.blank : Cell := {}

/-- The characters of a screen, row by row; what is missing is blank. -/
structure Grid where
  rows : Array (Array Cell) := #[]
  deriving DecidableEq, Repr, Inhabited

namespace Grid

/-- The grid with nothing on it. -/
def blank : Grid := {}

/-- The cell in a column of a row. -/
def get (g : Grid) (x y : Nat) : Cell := (g.rows.getD y #[]).getD x .blank

/-- A list that is made long enough to hold a place. -/
def padTo {α : Type} (filler : α) (size : Nat) (xs : Array α) : Array α :=
  xs ++ Array.replicate (size - xs.size) filler

/-- The grid with one cell changed. -/
def set (g : Grid) (x y : Nat) (cell : Cell) : Grid :=
  ⟨(padTo #[] (y + 1) g.rows).modify y fun row => (padTo .blank (x + 1) row).setIfInBounds x cell⟩

/-- The part of the grid that a terminal of a size can show. -/
def crop (g : Grid) (columns rows : Nat) : Grid :=
  ⟨(g.rows.take rows).map fun row => row.take columns⟩

/-- The cells of a row up to the last one that is not blank. -/
def line (g : Grid) (y : Nat) : List Cell :=
  ((g.rows.getD y #[]).toList.reverse.dropWhile (· == .blank)).reverse

/-- Whether nothing is on the grid. -/
def isBlank (g : Grid) : Bool := g.rows.all fun row => row.all (· == .blank)

end Grid

/-- Something that a program does to a terminal. -/
inductive Op where
  /-- Show the alternate screen, blank. -/
  | enterAlternate
  /-- Show the main screen as it was. -/
  | leaveAlternate
  | hideCursor
  | showCursor
  /-- Empty the screen that is shown. -/
  | clear
  /-- Switch raw mode. -/
  | setRaw (on : Bool)
  /-- Write one character. -/
  | put (x y : Nat) (cell : Cell)
  deriving DecidableEq, Repr

end Chip8.Terminal

namespace Chip8

open Terminal

/-- A terminal. -/
structure Terminal where
  columns : Nat := 80
  rows : Nat := 40
  main : Grid := .blank
  alternate : Grid := .blank
  onAlternate : Bool := false
  cursor : Bool := true
  raw : Bool := false
  /-- What the alternate screen showed when it was last emptied or left, if anything. -/
  lastPainted : Option Grid := none
  deriving DecidableEq, Repr, Inhabited

namespace Terminal

/-- The screen that is shown. -/
def shown (t : Terminal) : Grid := if t.onAlternate then t.alternate else t.main

/-- Remember the alternate screen, if it shows anything. -/
def remember (t : Terminal) : Terminal :=
  if t.onAlternate && !t.alternate.isBlank then { t with lastPainted := some t.alternate } else t

/-- The terminal after one operation. -/
def apply (t : Terminal) : Op → Terminal
  | .enterAlternate => { t with alternate := .blank, onAlternate := true }
  | .leaveAlternate => { t.remember with onAlternate := false }
  | .hideCursor => { t with cursor := false }
  | .showCursor => { t with cursor := true }
  | .clear =>
    if t.onAlternate then { t.remember with alternate := .blank } else { t with main := .blank }
  | .setRaw on => { t with raw := on }
  | .put x y cell =>
    if t.columns ≤ x ∨ t.rows ≤ y then t
    else if t.onAlternate then { t with alternate := t.alternate.set x y cell }
    else { t with main := t.main.set x y cell }

/-- The terminal after operations in order. -/
def applyAll (t : Terminal) (ops : List Op) : Terminal := ops.foldl apply t

theorem applyAll_append (t : Terminal) (first second : List Op) :
    t.applyAll (first ++ second) = (t.applyAll first).applyAll second :=
  List.foldl_append

/-- The terminal after its user gave it another size; the cells that remain keep
what is on them. -/
def resize (t : Terminal) (columns rows : Nat) : Terminal :=
  { t with
    columns, rows
    main := t.main.crop columns rows
    alternate := t.alternate.crop columns rows }

/-- The operations that write lines in default colours, from the first row on. -/
def printOps (lines : List String) : List Op :=
  lines.zipIdx.flatMap fun (line, y) =>
    line.toList.zipIdx.map fun (character, x) => .put x y { character }

/-- The operations that give a terminal back whatever was done to it. -/
def restoreOps : List Op := [.setRaw false, .showCursor, .leaveAlternate]

end Terminal

end Chip8
