import Chip8.Pacing.Calibration

/-!
# The clocks of a host

Two clocks can be calibrated against. The preferred one counts the milliseconds
since it was started and never goes back. The other one tells the time of day, in
milliseconds too, but moves by whole seconds, so that a calibration against it is
coarse; before 1970 it stands at zero. A host gets the second clock if the first
one is not seen to move while it is looked at many times in a row.
-/

namespace Chip8

/-- A clock that a host offers. -/
inductive HostClock where
  /-- Counts from its start, given in nanoseconds. -/
  | elapsed (start : Nat)
  /-- Tells the time of day in whole seconds. -/
  | wholeSeconds
  deriving DecidableEq, Repr

/-- What a host knows about the time. -/
structure Moment where
  /-- Nanoseconds by a count that never goes back. -/
  count : Nat
  /-- Seconds since the beginning of 1970. -/
  seconds : Int
  deriving DecidableEq, Repr, Inhabited

namespace HostClock

/-- How often the preferred clock is looked at before it is given up. -/
def looks : Nat := 10000000

/-- What a clock reads at a moment, in milliseconds. -/
def reading (clock : HostClock) (m : Moment) : UInt64 :=
  match clock with
  | .elapsed start => UInt64.ofNat ((m.count - start) / 1000000)
  | .wholeSeconds => UInt64.ofNat (m.seconds.toNat * 1000)

/-- The clock to take on a host where the `k`-th look shows `counts k` nanoseconds
since the first one, if at most `left` looks are made from the `k`-th on. -/
def detectFrom (counts : Nat → Nat) (start : Nat) : Nat → Nat → HostClock
  | 0, _ => .wholeSeconds
  | left + 1, k => if 0 < counts k then .elapsed start else detectFrom counts start left (k + 1)

/-- The clock to take on a host. -/
def detect (counts : Nat → Nat) (start : Nat) : HostClock := detectFrom counts start looks 0

end HostClock

end Chip8
