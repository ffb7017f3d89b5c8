import Chip8.CommandLine.Argument
import Chip8.CommandLine.Options

/-!
# Reading a command line

Arguments are read from left to right. A value that was given is looked at only
when the next thing has been understood, so that an argument which nobody knows
is reported before the value in front of it; the first problem decides. Each
thing may be said once.
-/

namespace Chip8.CommandLine

/-- Why a command line does not lead to a run. -/
inductive Stop where
  /-- The help was asked for. -/
  | help
  /-- The version was asked for. -/
  | version
  /-- Nobody knows this argument. -/
  | unknownArgument
  /-- The same thing is said twice. -/
  | repeated
  /-- A value is not there, or it is empty where it must not be. -/
  | missingValue
  /-- A value is not of its kind, or out of range. -/
  | invalidValue
  /-- A value is attached to something that takes none. -/
  | needlessValue
  /-- No program is named. -/
  | missingProgram
  deriving DecidableEq, Repr

/-- The wording of a reason. -/
def Stop.message : Stop → String
  | .help => "the help was asked for"
  | .version => "the version was asked for"
  | .unknownArgument => "unexpected argument"
  | .repeated => "an argument is given more than once"
  | .missingValue => "a value is required"
  | .invalidValue => "invalid value"
  | .needlessValue => "an argument takes no value"
  | .missingProgram => "the program to run is not named"

/-- What a value can be for. -/
inductive Place where
  | setting (s : Setting)
  | program
  deriving DecidableEq, Repr

/-- How far a command line was read. -/
structure Reading where
  program : Option String := none
  cycles : Option Nat := none
  seed : Option UInt64 := none
  logFile : Option String := none
  /-- The switches that were named. -/
  switches : List Switch := []
  /-- A place whose value is awaited (`none`) or was not looked at yet. -/
  pending : Option (Place × Option String) := none
  /-- Whether only values can follow. -/
  onlyValues : Bool := false
  deriving DecidableEq, Repr

/-! ## Values -/

/-- The number that decimal digits denote. -/
def numberOfDigits? (digits : List Char) : Option Nat :=
  if digits.isEmpty || !digits.all Char.isDigit then none
  else some (digits.foldl (fun n d => n * 10 + (d.toNat - '0'.toNat)) 0)

/-- A number as it may be given: digits, after a plus sign if there is one. -/
def number? (text : String) : Option Nat :=
  match text.toList with
  | '+' :: digits => numberOfDigits? digits
  | digits => numberOfDigits? digits

/-- The largest count of cycles. -/
def maxCycles : Nat := 0xFFFFFFFF

/-- The largest seed. -/
def maxSeed : Nat := 0xFFFFFFFFFFFFFFFF

/-- A count of cycles: at least one. -/
def cycles? (text : String) : Option Nat :=
  (number? text).filter fun n => 1 ≤ n && n ≤ maxCycles

/-- A seed: any number of 64 bits. -/
def seed? (text : String) : Option UInt64 :=
  ((number? text).filter fun n => n ≤ maxSeed).map UInt64.ofNat

/-- A path: anything but nothing. -/
def path (text : String) : Except Stop String :=
  if text.isEmpty then .error .missingValue else .ok text

namespace Reading

/-- Put a value into its place, which must be empty. -/
def store (r : Reading) (place : Place) (text : String) : Except Stop Reading :=
  match place with
  | .program =>
    if r.program.isSome then .error .repeated
    else (path text).map fun value => { r with program := some value }
  | .setting .cycles =>
    if r.cycles.isSome then .error .repeated
    else match cycles? text with
      | some value => .ok { r with cycles := some value }
      | none => .error .invalidValue
  | .setting .seed =>
    if r.seed.isSome then .error .repeated
    else match seed? text with
      | some value => .ok { r with seed := some value }
      | none => .error .invalidValue
  | .setting .logFile =>
    if r.logFile.isSome then .error .repeated
    else (path text).map fun value => { r with logFile := some value }

/-- Look at the value that was not looked at yet. -/
def settle (r : Reading) : Except Stop Reading :=
  match r.pending with
  | none => .ok r
  | some (_, none) => .error .missingValue
  | some (place, some text) => { r with pending := none }.store place text

/-- Name a switch. -/
def switchOn (r : Reading) (s : Switch) : Except Stop Reading :=
  if r.switches.contains s then .error .repeated
  else .ok { r with switches := s :: r.switches }

/-- Take a value that stands alone: it is for the setting that awaits one, else it
names the program. -/
def takeValue (r : Reading) (text : String) : Except Stop Reading :=
  match r.pending, r.onlyValues with
  | some (place, none), false => .ok { r with pending := some (place, some text) }
  | pending, _ =>
    if r.program.isSome || (pending.map (·.1)) == some .program then .error .unknownArgument
    else r.settle.map fun r => { r with pending := some (.program, some text) }

/-- Take a name. -/
def takeName (r : Reading) : Meaning → Option String → Except Stop Reading
  | .unknown, _ => .error .unknownArgument
  | .setting s, some text => r.settle.bind (·.store (.setting s) text)
  | .setting s, none => r.settle.map fun r => { r with pending := some (.setting s, none) }
  | .switch s, none => r.settle.bind (·.switchOn s)
  | .help, none => r.settle.bind fun _ => .error .help
  | .version, none => r.settle.bind fun _ => .error .version
  | _, some _ => .error .needlessValue

/-- Take one argument. -/
def take (r : Reading) (text : String) : Except Stop Reading :=
  if r.onlyValues then r.takeValue text
  else match Argument.ofString text with
    | .onlyValues => .ok { r with onlyValues := true }
    | .named meaning attached => r.takeName meaning attached
    | .value text => r.takeValue text

/-- The dialect of the switches that were named. -/
def dialect (r : Reading) : Dialect where
  shiftInPlace := r.switches.contains .shiftInPlace
  keepIndex := r.switches.contains .keepIndex
  resetFlag := r.switches.contains .resetFlag
  jumpByDigit := r.switches.contains .jumpByDigit
  carryOrder := r.switches.contains .carryOrder

/-- The options at the end of the line. -/
def options (r : Reading) : Except Stop Options :=
  match r.program with
  | none => .error .missingProgram
  | some rom => .ok
    { rom
      cycles := r.cycles.getD ({} : Config).cycles
      dialect := r.dialect
      seed := r.seed
      busyWait := r.switches.contains .busyWait
      logFile := r.logFile }

end Reading

/-- Read a command line, given without the name of the program that was called. -/
def parse (arguments : List String) : Except Stop Options := do
  let r ← arguments.foldlM Reading.take {}
  (← r.settle).options

end Chip8.CommandLine
