/-!
# Arithmetic on registers

The results of the instructions that set the flag, each with the flag it sets.
Both are functions of the operands alone.
-/

namespace Chip8

/-- A byte and the flag that goes with it. -/
structure Flagged where
  result : UInt8
  flag : Bool
  deriving DecidableEq, Repr

namespace Flagged

/-- The flag as a register holds it. -/
def flagByte (f : Flagged) : UInt8 := if f.flag then 1 else 0

/-- The sum, and whether there is a carry. -/
def add (a b : UInt8) : Flagged := ⟨a + b, 256 ≤ a.toNat + b.toNat⟩

/-- The difference, and whether nothing was borrowed. -/
def sub (a b : UInt8) : Flagged := ⟨a - b, b ≤ a⟩

/-- Half of a byte, and the bit that is lost. -/
def shiftRight (s : UInt8) : Flagged := ⟨s >>> 1, s.toNat % 2 = 1⟩

/-- Twice a byte, and the bit that is lost. -/
def shiftLeft (s : UInt8) : Flagged := ⟨s <<< 1, 128 ≤ s.toNat⟩

end Flagged

end Chip8
