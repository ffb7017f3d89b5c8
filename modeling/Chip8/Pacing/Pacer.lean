import Chip8.Config
import Chip8.Pacing.Calibration

/-!
# Pacers

A pacer idles away what is left of a frame. The sleeping pacer keeps a deadline
for each frame: it sleeps until then and moves the deadline on by one frame, so
that the frames do not drift. A frame that ends late is caught up with, but only
if it is late by no more than a frame; otherwise the deadlines start afresh from
the present. The spinning pacer runs a fixed number of empty iterations.
-/

namespace Chip8

/-- An instant, in nanoseconds. -/
abbrev Instant := Int

/-- How the rest of a frame is idled away. -/
inductive Pacer where
  /-- Sleep until the deadline; a frame lasts `frame` nanoseconds. -/
  | sleep (frame : Nat) (deadline : Instant)
  /-- Run this many empty iterations. -/
  | busyLoop (iterations : Nat)
  deriving DecidableEq, Repr, Inhabited

/-- What there is to do before the next frame. -/
inductive Rest where
  | none
  | sleep (nanoseconds : Nat)
  | spin (iterations : Nat)
  deriving DecidableEq, Repr

namespace Pacer

/-- The length of a frame, in nanoseconds. -/
def frameLength : Nat := 1000000000 / Calibration.framesPerSecond

/-- A sleeping pacer whose first deadline is a frame away. -/
def sleeping (now : Instant) : Pacer := .sleep frameLength (now + frameLength)

/-- The pacer of a run that starts now. A busy loop is calibrated against a clock with
at most `limit` attempts; there is no pacer if the clock is not seen to move. -/
def ofPacing (pacing : Pacing) (now : Instant) (clock : Clock) (cycles limit : Nat) :
    Option Pacer :=
  match pacing with
  | .sleep => some (sleeping now)
  | .busyLoop => (calibrate clock cycles limit).map fun c => .busyLoop c.idle

/-- What to do at the end of a frame, and the pacer for the next one. -/
def idle (p : Pacer) (now : Instant) : Rest × Pacer :=
  match p with
  | .sleep frame deadline =>
    if now < deadline then (.sleep (deadline - now).toNat, .sleep frame (deadline + frame))
    else if now - deadline > frame then (.none, .sleep frame (now + frame))
    else (.none, .sleep frame (deadline + frame))
  | .busyLoop iterations => (.spin iterations, p)

/-- A length of time in units of `unit` nanoseconds, without zeros at the end of its fraction. -/
def lengthIn (unit : Nat) (name : String) (nanoseconds : Nat) : String :=
  -- of the digits of `unit + rest` the first is that of `unit`, the others fill its zeros
  let places := (Nat.toDigits 10 (unit + nanoseconds % unit)).drop 1
  let shown := (places.reverse.dropWhile (· == '0')).reverse
  let fraction := if shown.isEmpty then "" else "." ++ String.ofList shown
  toString (nanoseconds / unit) ++ fraction ++ name

/-- How a length of time appears in the log: in the largest unit that it fills. -/
def lengthText (nanoseconds : Nat) : String :=
  if 1000000000 ≤ nanoseconds then lengthIn 1000000000 "s" nanoseconds
  else if 1000000 ≤ nanoseconds then lengthIn 1000000 "ms" nanoseconds
  else if 1000 ≤ nanoseconds then lengthIn 1000 "µs" nanoseconds
  else lengthIn 1 "ns" nanoseconds

/-- How an instant appears in the log: whole seconds, and the nanoseconds behind them. -/
def instantText (instant : Instant) : String :=
  "Instant \x7b tv_sec: " ++ toString (instant / 1000000000)
    ++ ", tv_nsec: " ++ toString (instant % 1000000000) ++ " \x7d"

/-- How a pacer appears in the log. -/
def text : Pacer → String
  | .sleep frame deadline =>
    "Sleep \x7b frame: " ++ lengthText frame ++ ", deadline: " ++ instantText deadline ++ " \x7d"
  | .busyLoop iterations => "BusyLoop \x7b idle_iterations: " ++ toString iterations ++ " \x7d"

end Pacer

end Chip8
