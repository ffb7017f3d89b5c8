import Chip8.Memory.Basic

/-!
# The font

Below the program lie the glyphs of the sixteen hexadecimal digits, five rows of
four pixels each. `Memory.initial` is the memory of a machine that has just been
switched on: the font in its place, and zero everywhere else.
-/

namespace Chip8

namespace Font

/-- Where the glyph of the digit zero begins. -/
def start : UInt16 := 0x080

/-- How many rows a glyph has. -/
def rows : UInt16 := 5

/-- The rows of all glyphs, in the order of the digits. -/
def glyphs : List UInt8 := [
  0xF0, 0x90, 0x90, 0x90, 0xF0,
  0x20, 0x60, 0x20, 0x20, 0x70,
  0xF0, 0x10, 0xF0, 0x80, 0xF0,
  0xF0, 0x10, 0xF0, 0x10, 0xF0,
  0x90, 0x90, 0xF0, 0x10, 0x10,
  0xF0, 0x80, 0xF0, 0x10, 0xF0,
  0xF0, 0x80, 0xF0, 0x90, 0xF0,
  0xF0, 0x10, 0x20, 0x40, 0x40,
  0xF0, 0x90, 0xF0, 0x90, 0xF0,
  0xF0, 0x90, 0xF0, 0x10, 0xF0,
  0xF0, 0x90, 0xF0, 0x90, 0x90,
  0xE0, 0x90, 0xE0, 0x90, 0xE0,
  0xF0, 0x80, 0x80, 0x80, 0xF0,
  0xE0, 0x90, 0x90, 0x90, 0xE0,
  0xF0, 0x80, 0xF0, 0x80, 0xF0,
  0xF0, 0x80, 0xF0, 0x80, 0x80]

/-- The address of the glyph of a byte's last digit. -/
def address (digit : UInt8) : UInt16 :=
  start + UInt16.ofNat (digit.toNat % 16) * rows

end Font

namespace Memory

/-- The memory of a machine that has just been switched on. -/
def initial : Memory :=
  (Memory.mk (Vector.replicate 4096 0)).write Font.start Font.glyphs

instance : Inhabited Memory := ⟨initial⟩

end Memory

end Chip8
