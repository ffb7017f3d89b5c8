import Chip8.Dialect

/-!
# Configuration

What is fixed for the whole of a run before it starts.
-/

namespace Chip8

/-- How a run keeps to sixty frames a second. -/
inductive Pacing where
  /-- Sleep until the next frame is due. -/
  | sleep
  /-- Run a calibrated number of empty iterations. -/
  | busyLoop
  deriving DecidableEq, Repr, Inhabited

/-- The settings of a run. -/
structure Config where
  /-- How many instructions a frame executes. -/
  cycles : Nat := 20
  dialect : Dialect := {}
  pacing : Pacing := .sleep
  /-- Where the random bytes start; left to chance if absent. -/
  seed : Option UInt64 := none
  deriving DecidableEq, Repr, Inhabited

end Chip8
