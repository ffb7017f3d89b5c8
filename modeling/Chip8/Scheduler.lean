import Chip8.Console

/-!
# The scheduler

A run is a sequence of frames, sixty to a second. A frame executes a batch of
instructions, shows the picture if it changed, counts the timers down and looks
for a key. It ends early when the exit key is read or something fails, and then
does not count. `run` makes frames until one ends early, then shuts the console
down; the fault of a frame is reported before one of the shutdown. Whether a run
ends at all is up to the program and the keys, so `run` takes the number of frames
it may try and has no result when they did not suffice. Idling between the
frames is the pacer's business and left to whoever has a clock.
-/

namespace Chip8

/-- A console and the way to run it. -/
structure Scheduler where
  console : Console
  dialect : Dialect := {}
  /-- How many instructions a frame executes. -/
  cycles : Nat
  pacer : Pacer := .busyLoop 0
  /-- How many frames were completed. -/
  frames : Nat := 0
  deriving Inhabited

namespace Scheduler

/-- Execute up to `count` instructions, as long as nothing fails or asks to stop. -/
def batch (dialect : Dialect) : Nat → Console → Except Fault Flow × Console
  | 0, c => (.ok .proceed, c)
  | count + 1, c =>
    match c.cycle dialect with
    | (.ok .proceed, c) => batch dialect count c
    | (result, c) => (result, c)

/-- What a frame does after its instructions: show, count down, look for a key. -/
def afterBatch (c : Console) : Except Fault Flow × Console :=
  match c.render with
  | (.error fault, c) => (.error fault, c)
  | (.ok (), c) => c.tick.poll

/-- Run one frame. -/
def frame (s : Scheduler) : Except Fault Flow × Scheduler :=
  match batch s.dialect s.cycles s.console with
  | (.ok .proceed, c) =>
    match afterBatch c with
    | (.ok .proceed, c) => (.ok .proceed, { s with console := c, frames := s.frames + 1 })
    | (result, c) => (result, { s with console := c })
  | (result, c) => (result, { s with console := c })

/-- Run frames until one ends early, at most `limit` of them; no result means that
none of these did. -/
def runFrames : Nat → Scheduler → Option (Except Fault Unit) × Scheduler
  | 0, s => (none, s)
  | limit + 1, s =>
    match s.frame with
    | (.ok .proceed, s) => runFrames limit s
    | (.ok .exit, s) => (some (.ok ()), s)
    | (.error fault, s) => (some (.error fault), s)

/-- The scheduler with an entry in its log. -/
def tell (s : Scheduler) (entry : Log.Entry) : Scheduler :=
  { s with console := { s.console with log := s.console.log.add entry } }

/-- End a run whose frames ended with the given result. -/
def finish (result : Except Fault Unit) (s : Scheduler) : Except Fault Unit × Scheduler :=
  let s := s.tell (.stopped s.frames)
  let (teardown, console) := s.console.shutdown
  (match result with
    | .error fault => .error fault
    | .ok () => teardown,
    { s with console })

/-- Run frames until one ends early, at most `limit` of them, and shut down. If none
of these does, the run goes on and has no result yet. -/
def run (limit : Nat) (s : Scheduler) : Option (Except Fault Unit) × Scheduler :=
  match runFrames limit (s.tell (.running s.cycles s.pacer)) with
  | (none, s) => (none, s)
  | (some result, s) =>
    let (result, s) := finish result s
    (some result, s)

end Scheduler

end Chip8
