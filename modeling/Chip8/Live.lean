import Chip8.Session

/-!
# Live runs

A live run takes its keys as they are typed, frame by frame. `feed` hands it what
was typed since, `advance` makes one frame. A frame in which the program waits for
a key that was not typed yet cannot be completed; the run is then left as it was
before the frame, and the frame is made again when there are more keys. As a frame
depends on nothing but the run and its keys, this cannot be told from a wait, and
a live run comes to what a session comes to that has the keys from the start. A
`round` is both, and takes the log; `idle` stands between completed frames.
-/

namespace Chip8

open Terminal

/-- A run that is under way. -/
structure Live where
  scheduler : Scheduler
  painter : Painter
  reader : KeyReader := {}

/-- What became of a frame. -/
inductive Progress where
  /-- It was completed. -/
  | completed
  /-- It cannot be completed before a key is typed. -/
  | waiting
  /-- It was the last one. -/
  | ended (result : Except Fault Unit)

namespace Live

/-- Start a run of a program on a terminal of the given size. -/
def start (config : Config) (pacer : Pacer) (chance : UInt64) (program : List UInt8)
    (size : Size) : Except Fault (Live × List Op) :=
  match (Session.console config chance []).load program with
  | (.error fault, _) => .error fault
  | (.ok (), console) =>
    let scheduler : Scheduler :=
      { console, dialect := config.dialect, cycles := config.cycles, pacer }
    let (painter, taking) := Painter.takeOver size
    .ok ({ scheduler := scheduler.tell (.running config.cycles pacer), painter },
      .setRaw true :: taking)

/-- The run with another console. -/
def withConsole (live : Live) (console : Console) : Live :=
  { live with scheduler := { live.scheduler with console } }

/-- Hand over what was typed. -/
def feed (live : Live) (typed : List UInt8) : Live :=
  let (codes, reader) := (live.reader.type typed).drain
  let console := live.scheduler.console
  { live with reader }.withConsole
    { console with keys := { console.keys with entries := console.keys.entries ++ codes } }

/-- Take the log of the run. -/
def takeLog (live : Live) : Log × Live :=
  let console := live.scheduler.console
  (console.log, live.withConsole { console with log := console.log.emptied })

/-- The run without a memory of the pictures it has shown and the calls it has made. -/
def relieved (live : Live) : Live :=
  let console := live.scheduler.console
  live.withConsole { console with display := { console.display with shown := [] }, calls := [] }

/-- Whether the exit key has been typed and not been read. -/
def exitTyped (live : Live) : Bool := live.scheduler.console.keys.entries.contains (some exitKey)

/-- Paint the newest picture that was shown. -/
def paint (live : Live) (size : Size) : Live × List Op :=
  match live.scheduler.console.display.shown.head? with
  | some picture =>
    let (painter, ops) := live.painter.draw size picture
    ({ live with painter }, ops)
  | none => (live, [])

/-- End the run and give the terminal back. -/
def finish (live : Live) (result : Except Fault Unit) : Progress × List Op × Live :=
  let (result, scheduler) := live.scheduler.finish result
  (.ended result, live.painter.close ++ [.setRaw false], { live with scheduler })

/-- Make one frame on a terminal of the given size. -/
def advance (live : Live) (size : Size) : Progress × List Op × Live :=
  let (result, scheduler) := live.scheduler.frame
  let (after, painting) := { live with scheduler }.paint size
  match result with
  | .ok .proceed => (.completed, painting, after.relieved)
  | .ok .exit =>
    if live.exitTyped then
      let (progress, closing, after) := after.finish (.ok ())
      (progress, painting ++ closing, after)
    else (.waiting, painting, { live with painter := after.painter })
  | .error fault =>
    let (progress, closing, after) := after.finish (.error fault)
    (progress, painting ++ closing, after)

/-- Hand over what was typed, make one frame and take the log. -/
def round (live : Live) (size : Size) (typed : List UInt8) : Progress × List Op × Log × Live :=
  let (progress, ops, live) := (live.feed typed).advance size
  let (log, live) := live.takeLog
  (progress, ops, log, live)

/-- Idle after a frame that was completed at this instant. -/
def idle (live : Live) (now : Instant) : Rest × Live :=
  let (rest, pacer) := live.scheduler.pacer.idle now
  (rest, { live with scheduler := { live.scheduler with pacer } })

end Live

end Chip8
