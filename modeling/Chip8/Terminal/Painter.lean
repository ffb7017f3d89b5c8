import Chip8.Terminal.Canvas
import Chip8.Terminal.Screen

/-!
# Painting on a terminal

The picture is painted in the top left corner of the alternate screen, in a box
with a title. Inside, each pixel is one cell: first the pixels that are off are
painted black, then those that are on white. A `Painter` knows what it has put on
the screen and writes only the cells that changed; when the area that it uses of
the terminal is another than before, it starts afresh. It takes the screen over at
first and gives it back once, when it is told to or when it is closed. The terminal
is to have the columns and rows of the box, 66 and 34; on a smaller one the cells
outside it would be lost, and that is not what the program is made for.
-/

namespace Chip8.Terminal

/-- A size of a terminal, in columns and rows. -/
abbrev Size := Nat × Nat

/-- The most cells that are used of a terminal. -/
def maxCells : Nat := 65535

/-- The area that is used of a terminal of a size: all of it, or where that has too
many cells, an area of the same shape with as many as there may be. -/
def usedArea (size : Size) : Size :=
  if size.1 * size.2 ≤ maxCells then size
  else
    let ratio := size.1.toFloat / size.2.toFloat
    let rows := (maxCells.toFloat / ratio).sqrt
    ((rows * ratio).toUInt16.toNat, rows.toUInt16.toNat)

/-- The title of the box. -/
def title : String := "CHIP-8 - ESC to exit"

/-- The colour of pixels that are off, and of the background of the border. -/
def black : UInt8 := 0

/-- The colour of pixels that are on. -/
def white : UInt8 := 15

/-- The character of a pixel. -/
def dotCharacter : Char := '▄'

/-- How many columns the box has, its border included. -/
def boxColumns : Nat := Picture.width + 2

/-- How many rows the box has, its border included. -/
def boxRows : Nat := Picture.height + 2

/-! ## The picture as cells -/

/-- The colours of the dots inside the box, row by row. -/
abbrev Dots := Array Colour

/-- Where a dot is among all dots. -/
def dotIndex (column row : Nat) : Nat := row * Picture.width + column

/-- The dots after points were painted in a colour. -/
def paintPoints (colour : UInt8) (points : List Point) (dots : Dots) : Dots :=
  points.foldl (fun dots p =>
    match Resolution.screen.dot? p with
    | some (column, row) => dots.setIfInBounds (dotIndex column row) (some colour)
    | none => dots) dots

/-- The dots of a picture. -/
def dotsOf (picture : Picture) : Dots :=
  paintPoints white (picture.points true)
    (paintPoints black (picture.points false)
      (Array.replicate (Picture.width * Picture.height) none))

/-- The character of the border at a place of the box. -/
def borderCharacter (x y : Nat) : Char :=
  if y = 0 then
    if x = 0 then '┌'
    else if x = boxColumns - 1 then '┐'
    else (title.toList[x - 1]?).getD '─'
  else if y = boxRows - 1 then
    if x = 0 then '└' else if x = boxColumns - 1 then '┘' else '─'
  else '│'

/-- Whether a place of the box belongs to its border. -/
def onBorder (x y : Nat) : Bool :=
  x == 0 || y == 0 || x == boxColumns - 1 || y == boxRows - 1

/-- The cell at a place of the box. -/
def boxCell (dots : Dots) (x y : Nat) : Cell :=
  if onBorder x y then
    { character := borderCharacter x y, background := some black }
  else match dots.getD (dotIndex (x - 1) (y - 1)) none with
    | some colour => { character := dotCharacter, foreground := some colour }
    | none => .blank

/-- The places of the box, row by row. -/
def boxPlaces : List (Nat × Nat) :=
  (List.range boxRows).flatMap fun y => (List.range boxColumns).map fun x => (x, y)

/-- The operations that turn what is on the screen into what is to be there. -/
def changes (before after : Nat → Nat → Cell) : List Op :=
  boxPlaces.filterMap fun (x, y) =>
    if before x y = after x y then none else some (.put x y (after x y))

/-! ## The painter -/

/-- What a painter knows. -/
structure Painter where
  /-- The area that is used of the terminal. -/
  area : Size
  /-- The dots of the picture that is on the screen, if one is. -/
  sent : Option Dots := none
  released : Bool := false
  cursorHidden : Bool := true
  deriving DecidableEq, Repr, Inhabited

namespace Painter

/-- Take over a terminal of a size. -/
def takeOver (size : Size) : Painter × List Op :=
  ({ area := usedArea size }, [.enterAlternate, .hideCursor, .clear])

/-- The cells that are on the screen. -/
def sentCell (p : Painter) : Nat → Nat → Cell :=
  match p.sent with
  | some dots => boxCell dots
  | none => fun _ _ => .blank

/-- Look at the size of the terminal, and start afresh if another area is used of it. -/
def fit (p : Painter) (size : Size) : Painter × List Op :=
  if usedArea size = p.area then (p, [])
  else ({ p with area := usedArea size, sent := none }, [.clear])

/-- Paint a picture on a terminal of a size. -/
def draw (p : Painter) (size : Size) (picture : Picture) : Painter × List Op :=
  let (p, clearing) := p.fit size
  let dots := dotsOf picture
  ({ p with sent := some dots, cursorHidden := true },
    clearing ++ changes p.sentCell (boxCell dots) ++ [.hideCursor])

/-- Give the terminal back, unless that was done before. -/
def release (p : Painter) : Painter × List Op :=
  if p.released then (p, [])
  else
    ({ p with sent := none, released := true, cursorHidden := false },
      [.clear, .showCursor, .leaveAlternate])

/-- Give the terminal back for good. -/
def close (p : Painter) : List Op :=
  let (p, ops) := p.release
  ops ++ (if p.cursorHidden then [.showCursor] else [])

/-- Paint pictures in order. -/
def drawAll (p : Painter) (size : Size) : List Picture → Painter × List Op
  | [] => (p, [])
  | picture :: rest =>
    let (p, ops) := p.draw size picture
    let (p, others) := p.drawAll size rest
    (p, ops ++ others)

end Painter

end Chip8.Terminal
