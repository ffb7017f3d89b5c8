/-!
# The frame

The screen of the machine is a `Picture` of 64 by 32 pixels, each on or off. A
sprite is drawn by turning over the pixels under its set bits; its left and right
edges meet, and so do its top and bottom, as on a torus. A sprite thus draws and
erases, and it *collides* if it turned off a pixel that was on. A `Frame` is a
picture together with the mark that says whether it was cleared or drawn on since
it was last shown.
-/

namespace Chip8

/-- The pixels of a screen, row by row from the top left corner. -/
structure Picture where
  pixels : Vector Bool 2048
  deriving DecidableEq, Repr

namespace Picture

/-- How many pixels a row has. -/
def width : Nat := 64

/-- How many rows there are. -/
def height : Nat := 32

/-- Every pixel off. -/
def blank : Picture := ⟨Vector.replicate 2048 false⟩

instance : Inhabited Picture := ⟨blank⟩

/-- The place of a pixel among all pixels; columns and rows wrap. -/
def place (x y : Nat) : Fin 2048 := Fin.ofNat 2048 (y % 32 * 64 + x % 64)

/-- Whether the pixel in column `x` of row `y` is on. -/
def pixel (p : Picture) (x y : Nat) : Bool := p.pixels[place x y]

/-- The picture with one pixel turned over. -/
def toggle (p : Picture) (x y : Nat) : Picture :=
  ⟨p.pixels.set (place x y) (!p.pixel x y)⟩

/-- The pixels of a row, left to right. -/
def row (p : Picture) (y : Nat) : List Bool :=
  (List.range width).map fun x => p.pixel x y

/-- All rows, from the top. -/
def rows (p : Picture) : List (List Bool) :=
  (List.range height).map p.row

theorem place_eq_iff {x y x' y' : Nat} :
    place x y = place x' y' ↔ x % 64 = x' % 64 ∧ y % 32 = y' % 32 := by
  simp only [place, Fin.ext_iff, Fin.val_ofNat]
  omega

theorem pixel_toggle (p : Picture) (x y x' y' : Nat) :
    (p.toggle x y).pixel x' y' =
      if x % 64 = x' % 64 ∧ y % 32 = y' % 32 then !p.pixel x' y' else p.pixel x' y' := by
  simp only [← place_eq_iff]
  by_cases h : place x y = place x' y'
  · simp [pixel, toggle, h]
  · have h' : (place x y).val ≠ (place x' y').val := fun e => h (Fin.ext e)
    simp [pixel, toggle, h, h']

end Picture

namespace Sprite

/-- The columns of the set bits of one row; the highest bit is leftmost. -/
def columns (bits : UInt8) : List Nat :=
  (List.range 8).filter fun column => bits.toNat.testBit (7 - column)

/-- The pixels under the set bits of a sprite whose top left corner is at `x` and
`y`, row by row; they are not wrapped yet. -/
def pixels (x y : Nat) : List UInt8 → List (Nat × Nat)
  | [] => []
  | bits :: rest => (columns bits).map (fun column => (x + column, y)) ++ pixels x (y + 1) rest

end Sprite

namespace Picture

/-- A picture that is being drawn on, and whether a pixel went off so far. -/
structure Stroke where
  picture : Picture
  collided : Bool

/-- One pixel more is turned over. -/
def Stroke.toggle (s : Stroke) (spot : Nat × Nat) : Stroke :=
  let collided := s.collided || s.picture.pixel spot.1 spot.2
  ⟨s.picture.toggle spot.1 spot.2, collided⟩

/-- The picture with a sprite drawn on it, one byte for each of its rows. -/
def draw (p : Picture) (x y : UInt8) (sprite : List UInt8) : Stroke :=
  (Sprite.pixels x.toNat y.toNat sprite).foldl Stroke.toggle ⟨p, false⟩

end Picture

/-- A picture, and whether it was cleared or drawn on since it was last shown. -/
structure Frame where
  picture : Picture := .blank
  pending : Bool := false
  deriving DecidableEq, Repr, Inhabited

namespace Frame

/-- Every pixel off, to be shown. -/
def cleared : Frame := ⟨.blank, true⟩

/-- The same picture, taken as shown. -/
def shown (f : Frame) : Frame := { f with pending := false }

/-- The frame with a sprite drawn on it, and whether the sprite collided. A sprite
without a set bit leaves the picture as it is, but it is to be shown again. -/
def draw (f : Frame) (x y : UInt8) (sprite : List UInt8) : Bool × Frame :=
  let stroke := f.picture.draw x y sprite
  (stroke.collided, ⟨stroke.picture, true⟩)

end Frame

end Chip8
