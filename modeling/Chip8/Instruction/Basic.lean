import Chip8.Digit

/-!
# Instructions

The thirty-five instructions of the machine. Operands are typed by what an
instruction word can hold: a register number or a row count has four bits, an
immediate eight, an address twelve, so that no operand is ever out of range.
-/

namespace Chip8

/-- One of the sixteen registers. -/
abbrev Register := Digit

/-- The register that receives carries, borrows, shifted-out bits and collisions. -/
def Register.flag : Register := 0xF

/-- An address as an instruction word holds it, twelve bits wide. -/
abbrev Target := ThreeDigits

/-- One instruction; the comment in front of each gives the form of its word. -/
inductive Instruction where
  /-- A call into the host machine's own code, which is ignored (`0NNN`). -/
  | hostCall (target : Target)
  /-- Turn every pixel off (`00E0`). -/
  | clear
  /-- Go back to the newest address on the stack (`00EE`). -/
  | ret
  /-- Go to NNN (`1NNN`). -/
  | jump (target : Target)
  /-- Go to NNN and remember where to come back to (`2NNN`). -/
  | call (target : Target)
  /-- Skip if VX is NN (`3XNN`). -/
  | skipIfByte (x : Register) (byte : UInt8)
  /-- Skip unless VX is NN (`4XNN`). -/
  | skipUnlessByte (x : Register) (byte : UInt8)
  /-- Skip if VX is VY (`5XY0`). -/
  | skipIfSame (x y : Register)
  /-- VX becomes NN (`6XNN`). -/
  | load (x : Register) (byte : UInt8)
  /-- NN is added to VX; no carry is kept (`7XNN`). -/
  | increase (x : Register) (byte : UInt8)
  /-- VX becomes VY (`8XY0`). -/
  | copy (x y : Register)
  /-- VX becomes VX or VY, bit by bit (`8XY1`). -/
  | or (x y : Register)
  /-- VX becomes VX and VY, bit by bit (`8XY2`). -/
  | and (x y : Register)
  /-- VX becomes the exclusive or of VX and VY (`8XY3`). -/
  | xor (x y : Register)
  /-- VX becomes VX + VY; VF tells of a carry (`8XY4`). -/
  | add (x y : Register)
  /-- VX becomes VX - VY; VF tells that nothing was borrowed (`8XY5`). -/
  | sub (x y : Register)
  /-- VX becomes a shift to the right; VF is the bit shifted out (`8XY6`). -/
  | shiftRight (x y : Register)
  /-- VX becomes VY - VX; VF tells that nothing was borrowed (`8XY7`). -/
  | subFrom (x y : Register)
  /-- VX becomes a shift to the left; VF is the bit shifted out (`8XYE`). -/
  | shiftLeft (x y : Register)
  /-- Skip unless VX is VY (`9XY0`). -/
  | skipUnlessSame (x y : Register)
  /-- I becomes NNN (`ANNN`). -/
  | loadIndex (target : Target)
  /-- Go to NNN plus a register (`BNNN`). -/
  | jumpOffset (target : Target)
  /-- VX becomes a random byte under the mask NN (`CXNN`). -/
  | random (x : Register) (mask : UInt8)
  /-- Draw the N rows at I as a sprite at (VX, VY) (`DXYN`). -/
  | draw (x y : Register) (rows : Digit)
  /-- Skip if the key named by VX is down (`EX9E`). -/
  | skipIfKey (x : Register)
  /-- Skip unless the key named by VX is down (`EXA1`). -/
  | skipUnlessKey (x : Register)
  /-- VX becomes the delay timer (`FX07`). -/
  | readDelay (x : Register)
  /-- Wait for a key and put it into VX (`FX0A`). -/
  | waitKey (x : Register)
  /-- The delay timer becomes VX (`FX15`). -/
  | setDelay (x : Register)
  /-- The sound timer becomes VX (`FX18`). -/
  | setSound (x : Register)
  /-- VX is added to I (`FX1E`). -/
  | addIndex (x : Register)
  /-- I becomes the address of the glyph of VX's last digit (`FX29`). -/
  | loadGlyph (x : Register)
  /-- The three decimal digits of VX are stored at I (`FX33`). -/
  | storeDecimal (x : Register)
  /-- V0 to VX are stored at I (`FX55`). -/
  | storeRegisters (x : Register)
  /-- V0 to VX are loaded from I (`FX65`). -/
  | loadRegisters (x : Register)
  deriving DecidableEq, Repr, Inhabited

end Chip8
