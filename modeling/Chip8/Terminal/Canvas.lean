import Chip8.Decimal.Shortest
import Chip8.Frame

/-!
# Points on a canvas

To be painted, a picture is taken apart into points of the plane: the pixel in
column `x` of row `y` is the point `(x, -y)`, so that the first row is on top. A
canvas of given bounds paints each point as one dot of a grid of columns and rows;
points outside the bounds are not painted. Bounds are measured quantities, so large
ones are rounded.
-/

namespace Chip8.Terminal

/-- A point of the plane. -/
structure Point where
  x : Int
  y : Int
  deriving DecidableEq, Repr, Inhabited

/-- Below this number coordinates are written in full, from it on with an exponent. -/
def fullBelow : Nat := 10000000000000000

/-- The text of a coordinate of the given size. One that is counted downwards has a
sign, zero too. -/
def coordinateText (downwards : Bool) (size : Nat) : String :=
  let digits := Decimal.digits (Decimal.shortest size)
  let shown := (digits.reverse.dropWhile (· == '0')).reverse
  let fraction := if shown.length ≤ 1 then [] else '.' :: shown.drop 1
  (if downwards then "-" else "") ++
    if size < fullBelow then String.ofList (Decimal.digits size) ++ ".0"
    else String.ofList (shown.take 1 ++ fraction ++ 'e' :: Decimal.digits (digits.length - 1))

/-- The text of a point, whose `y` is counted downwards. -/
def Point.text (p : Point) : String :=
  coordinateText false p.x.natAbs ++ " " ++ coordinateText true p.y.natAbs

/-- The resolution of a picture, in columns and rows. -/
structure Resolution where
  columns : UInt64
  rows : UInt64
  deriving DecidableEq, Repr

namespace Resolution

/-- The resolution of the machine's screen. -/
def screen : Resolution := ⟨UInt64.ofNat Picture.width, UInt64.ofNat Picture.height⟩

/-- The greatest coordinate where there are `count` of them from zero on. -/
def greatest (count : UInt64) : Nat := Decimal.round (count - 1).toNat

/-- The least and the greatest `x` of a point. -/
def xBounds (r : Resolution) : Int × Int := (0, greatest r.columns)

/-- The least and the greatest `y` of a point. -/
def yBounds (r : Resolution) : Int × Int := (-greatest r.rows, 0)

/-- The texts of the least and the greatest `x`. -/
def xBoundTexts (r : Resolution) : String × String :=
  (coordinateText false r.xBounds.1.natAbs, coordinateText false r.xBounds.2.natAbs)

/-- The texts of the least `y`, which is counted downwards, and the greatest. -/
def yBoundTexts (r : Resolution) : String × String :=
  (coordinateText true r.yBounds.1.natAbs, coordinateText false r.yBounds.2.natAbs)

/-- The place of a coordinate between bounds on a scale of `steps` dots. -/
def scale (low high : Int) (steps : Nat) (c : Int) : Option Nat :=
  if c < low ∨ high < c ∨ high = low then none
  else some (((c - low) * ((steps : Int) - 1) / (high - low)).toNat)

/-- The column and row of the dot that a point is painted as, if it is painted. -/
def dot? (r : Resolution) (p : Point) : Option (Nat × Nat) :=
  match scale r.xBounds.1 r.xBounds.2 r.columns.toNat p.x,
    scale (-r.yBounds.2) (-r.yBounds.1) r.rows.toNat (-p.y) with
  | some column, some row => some (column, row)
  | _, _ => none

end Resolution

end Chip8.Terminal

namespace Chip8.Picture

open Terminal

/-- The points of all pixels that are on, or of all that are off, row by row. -/
def points (p : Picture) (lit : Bool) : List Point :=
  p.rows.zipIdx.flatMap fun (row, y) =>
    (row.zipIdx.filter fun (pixel, _) => pixel == lit).map fun (_, x) =>
      { x := (x : Int), y := -(y : Int) }

end Chip8.Picture
