import Chip8.Instruction.Mnemonic
import Chip8.Pacing.Pacer
import Chip8.TimeOfDay

/-!
# The log

What the machine has to tell about a run is kept as entries, newest first. An
entry is a cause with its details; its level and its wording are functions of it.
Entries below the level of the log are not kept.
-/

namespace Chip8

namespace Log

/-- How much an entry matters. -/
inductive Level where
  | trace
  | debug
  | info
  | warn
  deriving DecidableEq, Repr, Inhabited

/-- The place of a level among the levels, least first. -/
def Level.rank : Level → Nat
  | .trace => 0
  | .debug => 1
  | .info => 2
  | .warn => 3

/-- The name of a level. -/
def Level.name : Level → String
  | .trace => "TRACE"
  | .debug => "DEBUG"
  | .info => "INFO"
  | .warn => "WARN"

/-- Something worth telling. -/
inductive Entry where
  /-- An instruction is about to be executed. -/
  | executing (address word : UInt16) (line : Mnemonic)
  /-- A call into the host machine's code was ignored. -/
  | hostCall (target : Target) (address : UInt16)
  /-- A return found the stack empty. -/
  | emptyReturn (address : UInt16)
  /-- A code that belongs to no key was found by a poll, or by a wait for a key. -/
  | unmappedCode (code : UInt8) (waiting : Bool := false)
  /-- A program was too long, and its end was not loaded. -/
  | programCut (size room : Nat)
  /-- The busy loop was calibrated. -/
  | calibrated (calibration : Calibration)
  /-- A run began. -/
  | running (cycles : Nat) (pacer : Pacer)
  /-- A run ended. -/
  | stopped (frames : Nat)
  deriving DecidableEq, Repr

/-- The level of an entry. -/
def Entry.level : Entry → Level
  | .executing .. => .trace
  | .hostCall .. => .debug
  | .emptyReturn .. => .debug
  | .unmappedCode .. => .debug
  | .programCut .. => .warn
  | .calibrated .. => .info
  | .running .. => .info
  | .stopped .. => .info

/-- The wording of an entry. -/
def Entry.message : Entry → String
  | .executing address word line =>
    Hex.padded 3 address.toNat ++ ": " ++ Hex.padded 4 word.toNat ++ "  " ++ line.text
  | .hostCall target address =>
    "ignoring machine call " ++ Hex.word 3 target.val ++ " at " ++ Hex.word 3 address.toNat
  | .emptyReturn address => "return with empty stack at " ++ Hex.word 3 address.toNat
  | .unmappedCode code _ => "can't map " ++ Hex.word 2 code.toNat ++ " to a COSMAC key"
  | .programCut size room =>
    "program is " ++ toString size ++ " bytes; only the first " ++ toString room ++ " are loaded"
  | .calibrated c =>
    "calibrated " ++ toString c.iterations ++ " iterations in " ++ toString c.elapsed
      ++ "ms; idling " ++ toString c.idle ++ " iterations per frame"
  | .running cycles pacer =>
    "running " ++ toString cycles ++ " cycles per frame, pacing " ++ pacer.text
  | .stopped frames => "stopped after " ++ toString frames ++ " frames"

/-- An entry with its level in front. -/
def Entry.line (e : Entry) : String := e.level.name ++ " " ++ e.message

/-- The part of the program that an entry comes from, as records name it. -/
def Entry.origin : Entry → String
  | .unmappedCode _ waiting => if waiting then "chip8_tty::interpreter" else "chip8_tty::keypad"
  | .programCut .. => "chip8_tty::memory"
  | .calibrated .. => "chip8_tty::timing"
  | .running .. => "chip8_tty::scheduler"
  | .stopped .. => "chip8_tty::scheduler"
  | .executing .. => "chip8_tty::interpreter"
  | .hostCall .. => "chip8_tty::interpreter"
  | .emptyReturn .. => "chip8_tty::interpreter"

/-- An entry as a line of a record that is kept outside, written so many seconds after
the beginning of 1970. -/
def Entry.stamped (e : Entry) (seconds : Nat) : String :=
  let filler := String.ofList (List.replicate (5 - e.level.name.length) ' ')
  "[" ++ TimeOfDay.stamp seconds ++ " " ++ e.level.name ++ filler ++ " " ++ e.origin ++ "] "
    ++ e.message ++ "\n"

end Log

/-- The entries of a run that matter enough, newest first. -/
structure Log where
  /-- The least level that is kept. -/
  level : Log.Level := .warn
  newest : List Log.Entry := []
  deriving DecidableEq, Repr, Inhabited

namespace Log

/-- The log with one entry more, if it matters enough. -/
def add (log : Log) (entry : Entry) : Log :=
  if log.level.rank ≤ entry.level.rank then { log with newest := entry :: log.newest } else log

/-- The log with entries added in order. -/
def addAll (log : Log) (entries : List Entry) : Log := entries.foldl add log

/-- The entries, oldest first. -/
def entries (log : Log) : List Entry := log.newest.reverse

/-- All entries as a record, with one time for all of them. -/
def record (log : Log) (seconds : Nat) : String :=
  String.join (log.entries.map fun e => e.stamped seconds)

/-- The log without its entries. -/
def emptied (log : Log) : Log := { log with newest := [] }

end Log

end Chip8
