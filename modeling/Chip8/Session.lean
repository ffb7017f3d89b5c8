import Chip8.CommandLine.Options
import Chip8.Scheduler
import Chip8.Terminal.KeyReader
import Chip8.Terminal.Painter

/-!
# Sessions

A session is a run of a program on a terminal, with keys that were typed ahead.
What it did to the terminal is a list of operations: raw mode is switched on, the
painter takes the screen over, the pictures are painted, then the screen is given
back and raw mode is switched off, whatever ended the run. A session may still be
going on when it was watched for the given number of frames; a signal can end it
then, and the terminal is restored in one go.
-/

namespace Chip8

open Terminal

/-- A run on a terminal. -/
structure Session where
  /-- How it ended, if it has ended. -/
  result : Option (Except Fault Unit)
  /-- What was done to the terminal up to the end of the run. -/
  painting : List Op := []
  /-- What was done to the terminal after that. -/
  closing : List Op := []
  log : Log := {}

namespace Session

/-- A session that ended before it touched the terminal. -/
def failed (fault : Fault) (log : Log := {}) : Session := { result := some (.error fault), log }

/-- Everything that was done to the terminal. -/
def ops (s : Session) : List Op := s.painting ++ s.closing

/-- Everything that was done to the terminal if a signal ended the session. -/
def interruptedOps (s : Session) : List Op := s.painting ++ restoreOps

/-- A console with the machine switched on and the keys at hand. -/
def console (config : Config) (chance : UInt64) (codes : List (Option UInt8)) : Console :=
  { machine := .new (.ofSeed (config.seed.getD chance)), keys := { entries := codes } }

/-- Run a program on a terminal of the given size and watch it for at most `limit`
frames. Where the configuration has no seed, `chance` is taken. -/
def play (config : Config) (chance : UInt64) (program : List UInt8)
    (codes : List (Option UInt8)) (size : Size) (limit : Nat) : Session :=
  match (console config chance codes).load program with
  | (.error fault, c) => failed fault c.log
  | (.ok (), console) =>
    let scheduler : Scheduler := { console, dialect := config.dialect, cycles := config.cycles }
    let (result, scheduler) := scheduler.run limit
    let display := scheduler.console.display
    let (painter, taking) := Painter.takeOver size
    let (painter, drawing) := painter.drawAll size display.shown.reverse
    let (painter, releasing) := if display.releases = 0 then (painter, []) else painter.release
    { result
      painting := .setRaw true :: taking ++ drawing
      closing :=
        if result.isSome then releasing ++ painter.close ++ [.setRaw false] else []
      log := scheduler.console.log }

/-- Whether the session is at work, or waits for a key that was not typed: it has
not ended, or it ended without an exit key to end it. -/
def goesOn (s : Session) (codes : List (Option UInt8)) : Bool :=
  match s.result with
  | none => true
  | some (.ok ()) => !codes.contains (some exitKey)
  | some (.error _) => false

end Session

end Chip8
