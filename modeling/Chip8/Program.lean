import Chip8.CommandLine.Parse
import Chip8.CommandLine.Usage
import Chip8.Directory
import Chip8.Session

/-!
# The program

What happens from the call of the program to its end: the command line is read,
the log is opened, the file is loaded, and only then is the terminal touched.
`Program.run` gives the exit status, the text on the error output, and what became
of the files and of the terminal.
-/

namespace Chip8.Program

open Terminal

/-- The name under which the program reports. -/
def name : String := "chip8-tty"

/-- The line that tells the version. -/
def versionLine : String := name ++ " 0.1.0"

/-- What the program finds where it is called. -/
structure Host where
  directory : Directory := {}
  terminal : Terminal := {}
  /-- The bytes that were typed ahead. -/
  typed : List UInt8 := []
  /-- A signal that arrives while the program is at work. -/
  signal : Option Int32 := none
  /-- Where the random bytes start if the command line does not say. -/
  chance : UInt64 := 0
  /-- The time, in seconds since the beginning of 1970. -/
  seconds : Nat := 0

/-- How the program ended. -/
structure Exit where
  status : Int32
  /-- What it wrote on the error output. -/
  errors : String := ""
  directory : Directory
  terminal : Terminal

/-- The exit status of a program that a signal ended. -/
def signalStatus (signal : Int32) : Int32 := 128 + signal

/-- The program's file. -/
def load (directory : Directory) (rom : String) : Except Fault (List UInt8) :=
  match directory.read (Bytes.ofString rom) with
  | .error e => .error (.unreadable rom e.message)
  | .ok program => if program.isEmpty then .error .emptyProgram else .ok program

/-- The run that the options ask for where polls find these codes, watched for at most
`limit` frames. -/
def sessionWith (host : Host) (directory : Directory) (options : Options)
    (codes : List (Option UInt8)) (limit : Nat) : Session :=
  match load directory options.rom with
  | .error fault => .failed fault
  | .ok program =>
    .play options.config host.chance program codes
      (host.terminal.columns, host.terminal.rows) limit

/-- The same where the keys have been typed ahead. -/
def session (host : Host) (directory : Directory) (options : Options) (limit : Nat) : Session :=
  sessionWith host directory options (KeyReader.type {} host.typed).codes limit

/-- Open the file for the log, if there is to be one. -/
def openLog (directory : Directory) (options : Options) :
    Except FileError (Option Place × Directory) :=
  match options.logFile with
  | none => .ok (none, directory)
  | some path => (directory.create (Bytes.ofString path)).map fun (place, d) => (some place, d)

/-- The error output and the files once the log of a session is written. -/
def writeLog (directory : Directory) (place : Option Place) (record : String) :
    String × Directory :=
  match place with
  | none => (record, directory)
  | some place => ("", directory.fill place (Bytes.ofString record))

/-- The program run with options, until it ends; nothing if it is still at work
after `limit` frames and no signal ends it. -/
def runWith (host : Host) (options : Options) (limit : Nat) : Option Exit :=
  match openLog host.directory options with
  | .error e => some
    { status := 1
      errors := name ++ ": cannot open log file: " ++ e.message ++ "\n"
      directory := host.directory
      terminal := host.terminal }
  | .ok (place, directory) =>
    let session := session host directory options limit
    let (errors, directory) := writeLog directory place (session.log.record host.seconds)
    let codes := (KeyReader.type {} host.typed).codes
    match host.signal, session.goesOn codes, session.result with
    | some signal, true, _ => some
      { status := signalStatus signal
        errors
        directory
        terminal := host.terminal.applyAll session.interruptedOps }
    | _, _, some result =>
      let terminal := host.terminal.applyAll session.ops
      match result with
      | .ok () => some { status := 0, errors, directory, terminal }
      | .error fault => some
        { status := 1
          errors := errors ++ name ++ ": " ++ fault.message ++ "\n"
          directory
          terminal }
    | _, _, none => none

/-- The program called with arguments. -/
def run (host : Host) (arguments : List String) (limit : Nat) : Option Exit :=
  let same : Exit := { status := 0, directory := host.directory, terminal := host.terminal }
  match CommandLine.parse arguments with
  | .ok options => runWith host options limit
  | .error .help =>
    some { same with terminal := host.terminal.applyAll (printOps CommandLine.usage) }
  | .error .version =>
    some { same with terminal := host.terminal.applyAll (printOps [versionLine]) }
  | .error stop => some { same with status := 2, errors := name ++ ": " ++ stop.message ++ "\n" }

end Chip8.Program
