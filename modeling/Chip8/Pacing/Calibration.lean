/-!
# Calibration

A busy loop fills the rest of a frame with empty iterations. How many of them a
frame holds is found out once, against a clock that reads whole milliseconds:
run a number of iterations, see how much time went by, and try ten times as many
as long as the clock does not show any. What a frame holds is then reduced by the
work done in it. A clock may stand still or go back; `calibrate` therefore takes
the number of attempts it may make and answers nothing when none of them was seen.
-/

namespace Chip8

/-- A millisecond clock, by the number of the reading. -/
abbrev Clock := Nat → UInt64

namespace Clock

/-- The largest number of 64 bits; counts stay there. -/
def limit : Nat := 0xFFFFFFFFFFFFFFFF

/-- A clock that shows given readings and then goes up by one each time. -/
def ofReadings (readings : List UInt64) : Clock := fun k =>
  match readings[k]? with
  | some reading => reading
  | none =>
    let last := (readings.getLast?.getD 0).toNat
    UInt64.ofNat (min (last + (k + 1 - readings.length)) limit)

end Clock

/-- What a calibration found. -/
structure Calibration where
  /-- The iterations of the attempt that the clock could see. -/
  iterations : Nat
  /-- The milliseconds that they took. -/
  elapsed : Nat
  /-- How many iterations fill what the work of a frame leaves. -/
  idle : Nat
  /-- How many times the clock was read. -/
  readings : Nat
  deriving DecidableEq, Repr

namespace Calibration

/-- How many frames there are in a second. -/
def framesPerSecond : Nat := 60

/-- The iterations of the first attempt. -/
def firstIterations : Nat := 100000

/-- The iterations that the loop around a frame is worth. -/
def frameOverhead : Nat := 100

/-- How many iterations a frame holds if `iterations` of them took `elapsed` milliseconds. -/
def perFrame (iterations elapsed : Nat) : Nat :=
  min (iterations * 1000 / (elapsed * framesPerSecond)) Clock.limit

/-- Attempts from the given reading of the clock on, each with ten times the
iterations of the one before. -/
def attempts (clock : Clock) (cycles : Nat) : Nat → Nat → Nat → Option Calibration
  | 0, _, _ => none
  | left + 1, reading, iterations =>
    let elapsed := (clock (reading + 1)).toNat - (clock reading).toNat
    if elapsed = 0 then
      attempts clock cycles left (reading + 2) (min (iterations * 10) Clock.limit)
    else
      some
        { iterations, elapsed
          idle := perFrame iterations elapsed - cycles - frameOverhead
          readings := reading + 2 }

end Calibration

/-- Calibrate for frames of the given number of cycles, with at most `limit` attempts. -/
def calibrate (clock : Clock) (cycles limit : Nat) : Option Calibration :=
  Calibration.attempts clock cycles limit 0 Calibration.firstIterations

end Chip8
