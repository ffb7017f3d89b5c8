import Chip8.Display
import Chip8.KeySource
import Chip8.Log
import Chip8.Machine.Execute

/-!
# The console

A `Console` is a machine with a display and a source of keys connected to it, and
with a log. Its operations are the steps of which a run is made: `cycle` executes
one instruction, `render` shows the picture if it changed, `tick` counts the
timers down, `poll` looks for a key, `shutdown` ends a run. An operation that can
fail gives its result together with the console that it leaves behind, also when
it fails: a run may go on after a fault.
-/

namespace Chip8

/-- Whether to go on after a step. -/
inductive Flow where
  | proceed
  /-- The exit key was read. -/
  | exit
  deriving DecidableEq, Repr, Inhabited

/-- A call that was made on a device. -/
inductive DeviceCall where
  | draw
  | poll
  | read
  | release
  deriving DecidableEq, Repr

/-- A machine and what is connected to it. -/
structure Console where
  machine : Machine
  display : Display := {}
  keys : KeySource := {}
  log : Log := {}
  /-- The calls that were made on the display and the keys, newest first. -/
  calls : List DeviceCall := []
  deriving Inhabited

namespace Console

/-- Load a program. -/
def load (c : Console) (program : List UInt8) : Except Fault Unit × Console :=
  match c.machine.memory.load program with
  | .error fault => (.error fault, c)
  | .ok memory =>
    let log :=
      if Memory.programRoom < program.length then
        c.log.add (.programCut program.length Memory.programRoom)
      else c.log
    (.ok (), { c with machine := { c.machine with memory }, log })

/-- Show the picture of the machine. -/
def present (c : Console) : Except Fault Unit × Console :=
  let (result, display) := c.display.draw c.machine.frame.picture
  (result.mapError .device, { c with display, calls := .draw :: c.calls })

/-- Wait for a key of the keypad and put it into a register: the picture is shown,
no key counts as down any more and both timers stop, then codes are read until one
belongs to a key or asks to stop. Nothing of this happens if the picture cannot
be shown. -/
def waitKey (c : Console) (x : Register) : Except Fault Flow × Console :=
  match c.present with
  | (.error fault, c) => (.error fault, c)
  | (.ok (), c) =>
    let wait := c.keys.await
    let machine :=
      { c.machine with
        frame := c.machine.frame.shown
        keypad := .released
        delayTimer := 0
        soundTimer := 0 }
    let c :=
      { c with
        machine
        keys := wait.source
        log := c.log.addAll (wait.unmapped.map fun code => .unmappedCode code true)
        calls := List.replicate (wait.source.calls - c.keys.calls) .read ++ c.calls }
    match wait.result with
    | .error reason => (.error (.device reason), c)
    | .ok none => (.ok .exit, c)
    | .ok (some key) =>
      let machine := { machine with keypad := machine.keypad.press key }
      (.ok .proceed, { c with machine := machine.setRegister x (UInt8.ofNat key.val) })

/-- What there is to tell about an instruction that has no effect. -/
def remark (m : Machine) (fetched : Fetched) : List Log.Entry :=
  match fetched.instruction, m.stack with
  | .hostCall target, _ => [.hostCall target fetched.address]
  | .ret, [] => [.emptyReturn fetched.address]
  | _, _ => []

/-- Execute an instruction that was fetched. -/
def execute (dialect : Dialect) (c : Console) (fetched : Fetched) :
    Except Fault Flow × Console :=
  let line := Mnemonic.ofInstruction dialect fetched.instruction
  let log := c.log.addAll (.executing fetched.address fetched.word line :: remark c.machine fetched)
  let c := { c with log }
  match fetched.instruction with
  | .waitKey x => c.waitKey x
  | _ =>
    match c.machine.execute dialect fetched with
    | .error fault => (.error fault, c)
    | .ok machine => (.ok .proceed, { c with machine })

/-- Fetch one instruction and execute it. -/
def cycle (dialect : Dialect) (c : Console) : Except Fault Flow × Console :=
  match c.machine.fetch with
  | (.error fault, machine) => (.error fault, { c with machine })
  | (.ok fetched, machine) => execute dialect { c with machine } fetched

/-- Show the picture if it changed since it was last shown. The mark is taken off
first, and stays off if the picture cannot be shown. -/
def render (c : Console) : Except Fault Unit × Console :=
  if c.machine.frame.pending then
    { c with machine := { c.machine with frame := c.machine.frame.shown } }.present
  else (.ok (), c)

/-- Count both timers down. -/
def tick (c : Console) : Console := { c with machine := c.machine.tick }

/-- Let the keys age, then take at most one code. -/
def poll (c : Console) : Except Fault Flow × Console :=
  let keypad := c.machine.keypad.age
  let (result, keys) := c.keys.poll
  let c := { c with machine := { c.machine with keypad }, keys, calls := .poll :: c.calls }
  match result with
  | .error reason => (.error (.device reason), c)
  | .ok none => (.ok .proceed, c)
  | .ok (some code) =>
    if code = exitKey then (.ok .exit, c)
    else match Keypad.keyOf? code with
      | some key =>
        (.ok .proceed, { c with machine := { c.machine with keypad := keypad.press key } })
      | none => (.ok .proceed, { c with log := c.log.add (.unmappedCode code) })

/-- Blank the picture and hand back the display. -/
def shutdown (c : Console) : Except Fault Unit × Console :=
  let (result, display) := c.display.release
  (result.mapError .device,
    { c with
      machine := { c.machine with frame := .cleared }
      display
      calls := .release :: c.calls })

end Console

end Chip8
