/-!
# Dialects

Programs for the machine were written against interpreters that differ in a few
instructions. A `Dialect` says which of the known differences hold; it is fixed
for the whole of a run. `union` switches on what either side switches on.
-/

namespace Chip8

/-- The ways in which interpreters differ; every switch is off at first. -/
structure Dialect where
  /-- Shifts (`8XY6`, `8XYE`) work on VX itself and do not look at VY. -/
  shiftInPlace : Bool := false
  /-- Storing and loading registers (`FX55`, `FX65`) leaves I where it was. -/
  keepIndex : Bool := false
  /-- Bitwise logic (`8XY1`, `8XY2`, `8XY3`) leaves zero in VF. -/
  resetFlag : Bool := false
  /-- The jump with an offset (`BNNN`) adds the register named by the first digit of NNN, not V0. -/
  jumpByDigit : Bool := false
  /-- The order in which a result and its flag are written; it shows nowhere. -/
  carryOrder : Bool := false
  deriving DecidableEq, Repr, Inhabited

namespace Dialect

/-- A switch is on if either side has it on. -/
def union (a b : Dialect) : Dialect where
  shiftInPlace := a.shiftInPlace || b.shiftInPlace
  keepIndex := a.keepIndex || b.keepIndex
  resetFlag := a.resetFlag || b.resetFlag
  jumpByDigit := a.jumpByDigit || b.jumpByDigit
  carryOrder := a.carryOrder || b.carryOrder

instance : Union Dialect := ⟨union⟩

end Dialect

end Chip8
