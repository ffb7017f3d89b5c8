import Chip8.Memory.Font
import Chip8.Frame
import Chip8.Keypad
import Chip8.Keystream.Basic
import Chip8.Instruction.Encoding

/-!
# The machine

Everything that a program can see or change: memory, frame, keypad, sixteen
registers, the address register I, the program counter, the stack of return
addresses, the two timers and the random bytes. A satisfied skip does not move
the program counter; it leaves a mark, and the next fetch steps over one
instruction first. `fetch` gives the instruction to be executed or says why there
is none.
-/

namespace Chip8

/-- The state of the machine. -/
structure Machine where
  memory : Memory := .initial
  frame : Frame := {}
  keypad : Keypad := {}
  /-- V0 to VF. -/
  registers : Vector UInt8 16 := Vector.replicate 16 0
  /-- The address register I. -/
  index : UInt16 := 0
  counter : UInt16 := Memory.programStart
  /-- Where to return to, newest first. -/
  stack : List UInt16 := []
  delayTimer : UInt8 := 0
  soundTimer : UInt8 := 0
  /-- The next fetch steps over an instruction. -/
  skipPending : Bool := false
  /-- The word that was fetched last. -/
  lastWord : UInt16 := 0
  random : Keystream
  deriving DecidableEq, Repr, Inhabited

/-- An instruction that was fetched: where it was, its word, and what that stands for. -/
structure Fetched where
  address : UInt16
  word : UInt16
  instruction : Instruction
  deriving DecidableEq, Repr

namespace Machine

/-- A machine that has just been switched on. -/
def new (random : Keystream) : Machine := { random }

/-- How many return addresses there may be. -/
def stackLimit : Nat := 1792

/-- The value of a register. -/
def register (m : Machine) (x : Register) : UInt8 := m.registers[x]

/-- The machine with one register changed. -/
def setRegister (m : Machine) (x : Register) (value : UInt8) : Machine :=
  { m with registers := m.registers.set x value }

/-- The machine with the skipped instruction stepped over, if one was to be skipped. -/
def settleSkip (m : Machine) : Machine :=
  if m.skipPending then { m with counter := m.counter + 2, skipPending := false } else m

/-- Whether an address lies where programs are. -/
def InProgram (address : UInt16) : Prop := 0x200 ≤ address ∧ address < 0x1000

instance (address : UInt16) : Decidable (InProgram address) := by
  unfold InProgram; infer_instance

/-- Take the next instruction. The counter already points behind its word when the
word turns out to stand for nothing. -/
def fetch (m : Machine) : Except Fault Fetched × Machine :=
  let m := m.settleSkip
  let address := m.counter
  if InProgram address then
    let word := m.memory.word address
    let m := { m with counter := address + 2, lastWord := word }
    match Instruction.ofWord? word with
    | some instruction => (.ok ⟨address, word, instruction⟩, m)
    | none => (.error (.undecodable address word), m)
  else (.error (.outsideProgram address m.lastWord), m)

/-- One step of both timers, which stop at zero. -/
def tick (m : Machine) : Machine :=
  { m with
    delayTimer := if m.delayTimer = 0 then 0 else m.delayTimer - 1
    soundTimer := if m.soundTimer = 0 then 0 else m.soundTimer - 1 }

end Machine

end Chip8
