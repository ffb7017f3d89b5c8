import Chip8.Live
import Chip8.Pacing.HostClock
import Chip8.Program
import Chip8.Terminal.Escape
import Std.Time.DateTime.Timestamp

/-!
# The command

The program on a real terminal. Here is nothing but reading and writing: arguments,
files, keys, the time, and what is sent to the terminal. What all of it means is
decided by `CommandLine.parse`, `Program`, `Live` and `Pacer`. Keys are read beside
the frames, as soon as the terminal hands them over; when no more can come, the
exit key is taken to have been typed.
-/

namespace Chip8.Command

/-- Report on the error output. -/
def complain (text : String) : IO Unit := IO.eprintln (Program.name ++ ": " ++ text)

/-- The error of a file that the host reports by its number, which may be negated. -/
def fileError? (number : UInt32) : Option FileError :=
  let is (n : UInt32) : Bool := number == n || number == 0 - n
  if is 2 then some .notFound
  else if is 20 then some .notDirectory
  else if is 21 then some .isDirectory
  else if is 36 then some .nameTooLong
  else none

/-- The wording of an error of the host. -/
def wording (e : IO.Error) : String :=
  let known := match e with
    | .noFileOrDirectory _ number _ => fileError? number
    | .inappropriateType _ number _ => fileError? number
    | .invalidArgument _ number _ => fileError? number
    | _ => none
  (known.map FileError.message).getD (toString e)

/-! ## Time -/

/-- The time, in seconds since the beginning of 1970. -/
def now : IO Int := return (← Std.Time.Timestamp.now).toSecondsSinceUnixEpoch.toInt

/-- What the host knows about the time. -/
def moment : IO Moment := return { count := ← IO.monoNanosNow, seconds := ← now }

/-- Run empty iterations. -/
def spin (iterations : Nat) : IO Unit := do
  for _ in [0:iterations] do
    pure ()

/-- The clock that this host offers. -/
def detectClock : IO HostClock := do
  let start ← IO.monoNanosNow
  let mut looks := 0
  while looks < HostClock.looks do
    looks := looks + 1
    if start < (← IO.monoNanosNow) then return .elapsed start
  return .wholeSeconds

/-- Calibrate against a clock: repeat until what it showed so far is enough. -/
partial def calibrateWith (clock : HostClock) (cycles iterations : Nat)
    (readings : List UInt64) : IO Calibration := do
  let before := clock.reading (← moment)
  spin iterations
  let readings := readings ++ [before, clock.reading (← moment)]
  match calibrate (.ofReadings readings) cycles (readings.length / 2) with
  | some calibration => return calibration
  | none => calibrateWith clock cycles (iterations * 10) readings

/-- The pacer of a run. -/
def pacerFor (config : Config) : IO Pacer := do
  match config.pacing with
  | .sleep => return .sleeping (← IO.monoNanosNow)
  | .busyLoop =>
    let calibration ←
      calibrateWith (← detectClock) config.cycles Calibration.firstIterations []
    return .busyLoop calibration.idle

/-- Do what there is to do before the next frame. -/
def rest : Rest → IO Unit
  | .none => pure ()
  | .sleep nanoseconds => IO.sleep (UInt32.ofNat (nanoseconds / 1000000))
  | .spin iterations => spin iterations

/-! ## Keys and screen -/

/-- Read keys one byte at a time until no more can come. -/
partial def readKeys (input : IO.FS.Stream) (typed : IO.Ref (List UInt8)) : IO Unit := do
  let bytes ← input.read 1
  if bytes.isEmpty then typed.modify (· ++ [exitKey])
  else
    typed.modify (· ++ bytes.toList)
    unless bytes.toList.contains exitKey do readKeys input typed

/-- A size that the environment tells, if it does. -/
def sizeFrom (name : String) (default : Nat) : IO Nat :=
  return ((← IO.getEnv name).bind String.toNat?).getD default

/-- The size of the terminal. -/
def terminalSize : IO Terminal.Size := return (← sizeFrom "COLUMNS" 80, ← sizeFrom "LINES" 40)

/-- Send operations to the terminal. -/
def send (output : IO.FS.Stream) (ops : List Terminal.Op) : IO Unit := do
  output.putStr (Terminal.textOf ops)
  output.flush

/-! ## Runs -/

/-- Write what a log holds to where the log goes. -/
def writeLog (record : IO.FS.Stream) (log : Log) : IO Unit := do
  unless log.newest.isEmpty do
    record.putStr (log.record (← now).toNat)
    record.flush

/-- Make rounds until the run ends. -/
partial def rounds (output record : IO.FS.Stream) (typed : IO.Ref (List UInt8)) (live : Live) :
    IO (Except Fault Unit) := do
  let (progress, ops, log, live) :=
    live.round (← terminalSize) (← typed.modifyGet fun bytes => (bytes, []))
  send output ops
  writeLog record log
  match progress with
  | .ended result => return result
  | .waiting =>
    IO.sleep 5
    rounds output record typed live
  | .completed =>
    let (idling, live) := live.idle (← IO.monoNanosNow)
    rest idling
    rounds output record typed live

/-- The bytes of the program's file. -/
def readProgram (rom : String) : IO (Except Fault (List UInt8)) := do
  match ← (IO.FS.readBinFile rom).toBaseIO with
  | .error e => return .error (.unreadable rom (wording e))
  | .ok bytes => return if bytes.isEmpty then .error .emptyProgram else .ok bytes.toList

/-- A random number to start the random bytes with. -/
def chance : IO UInt64 := do
  let bytes ← IO.getRandomBytes 8
  return bytes.toList.foldl (fun n b => n * 256 + b.toUInt64) 0

/-- Run the program that the options name; the log goes to `record`. -/
def session (record : IO.FS.Stream) (options : Options) : IO (Except Fault Unit) := do
  match ← readProgram options.rom with
  | .error fault => return .error fault
  | .ok program =>
    let config := options.config
    match Live.start config (← pacerFor config) (← chance) program (← terminalSize) with
    | .error fault => return .error fault
    | .ok (live, ops) =>
      let output ← IO.getStdout
      send output ops
      let (log, live) := live.takeLog
      writeLog record log
      let typed ← IO.mkRef ([] : List UInt8)
      let _ ← IO.asTask (readKeys (← IO.getStdin) typed) .dedicated
      rounds output record typed live

/-- Where the log goes. -/
def openLog (options : Options) : IO IO.FS.Stream := do
  match options.logFile with
  | none => IO.getStderr
  | some path => return .ofHandle (← IO.FS.Handle.mk path .write)

/-- Run with options, and give the exit status. -/
def run (options : Options) : IO UInt32 := do
  match ← (openLog options).toBaseIO with
  | .error e =>
    complain ("cannot open log file: " ++ wording e)
    return 1
  | .ok record =>
    match ← session record options with
    | .ok () => return 0
    | .error fault =>
      complain fault.message
      return 1

end Chip8.Command

/-- Run the program with the arguments of the command line. -/
def main (arguments : List String) : IO UInt32 := do
  match Chip8.CommandLine.parse arguments with
  | .error .help =>
    IO.println ("\n".intercalate Chip8.CommandLine.usage)
    return 0
  | .error .version =>
    IO.println Chip8.Program.versionLine
    return 0
  | .error stop =>
    Chip8.Command.complain stop.message
    return 2
  | .ok options => Chip8.Command.run options
