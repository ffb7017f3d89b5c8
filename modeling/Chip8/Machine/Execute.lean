import Chip8.Arithmetic
import Chip8.Instruction.Mnemonic
import Chip8.Machine.Basic

/-!
# Executing an instruction

What each instruction does to the machine. The program counter points behind the
instruction already. One instruction can fail, the call on a full stack, and then
the machine stays as it is. `waitKey` needs the devices and is left to the
console; here it changes nothing.
-/

namespace Chip8.Machine

/-! ## Parts of instructions -/

/-- Go to an address. -/
def goTo (m : Machine) (target : Target) : Machine :=
  { m with counter := UInt16.ofNat target.val }

/-- Skip the next instruction if the condition holds. -/
def skipIf (m : Machine) (condition : Bool) : Machine :=
  { m with skipPending := condition }

/-- A result of bitwise logic; the flag is reset where the dialect says so. -/
def setLogic (dialect : Dialect) (m : Machine) (x : Register) (result : UInt8) : Machine :=
  let m := m.setRegister x result
  if dialect.resetFlag then m.setRegister .flag 0 else m

/-- A result with its flag. The flag is written last: it stays if VX is VF. -/
def setFlagged (m : Machine) (x : Register) (f : Flagged) : Machine :=
  (m.setRegister x f.result).setRegister .flag f.flagByte

/-- What a shift works on. -/
def shiftSource (dialect : Dialect) (m : Machine) (x y : Register) : UInt8 :=
  if dialect.shiftInPlace then m.register x else m.register y

/-- I after registers up to VX were stored or loaded: behind the last of them. -/
def advanceIndex (dialect : Dialect) (m : Machine) (x : Register) : Machine :=
  if dialect.keepIndex then m else { m with index := m.index + UInt16.ofNat (x.val + 1) }

/-- The hundreds, the tens and the ones of a byte. -/
def decimalDigits (value : UInt8) : List UInt8 :=
  [value / 100, value / 10 % 10, value % 10]

/-- Draw the rows at I. -/
def drawSprite (m : Machine) (x y : Register) (rows : Digit) : Machine :=
  let sprite := m.memory.read m.index rows.val
  let (collided, frame) := m.frame.draw (m.register x) (m.register y) sprite
  { m with frame }.setRegister .flag (if collided then 1 else 0)

/-- Store V0 to VX at I. -/
def storeRegisters (m : Machine) (x : Register) : Machine :=
  { m with memory := m.memory.write m.index (m.registers.toList.take (x.val + 1)) }

/-- Load V0 to VX from I. -/
def loadRegisters (m : Machine) (x : Register) : Machine :=
  { m with
    registers := Vector.ofFn fun r =>
      if r ≤ x then m.memory.get (m.index + UInt16.ofNat r.val) else m.register r }

/-! ## Instructions -/

/-- The machine after an instruction that was fetched. -/
def execute (dialect : Dialect) (fetched : Fetched) (m : Machine) : Except Fault Machine :=
  match fetched.instruction with
  | .hostCall _ => .ok m
  | .clear => .ok { m with frame := .cleared }
  | .ret =>
    match m.stack with
    | [] => .ok m
    | address :: rest => .ok { m with counter := address, stack := rest }
  | .jump target => .ok (m.goTo target)
  | .call target =>
    if m.stack.length < stackLimit then
      .ok ({ m with stack := m.counter :: m.stack }.goTo target)
    else .error (.stackOverflow fetched.address fetched.word)
  | .skipIfByte x byte => .ok (m.skipIf (m.register x == byte))
  | .skipUnlessByte x byte => .ok (m.skipIf (m.register x != byte))
  | .skipIfSame x y => .ok (m.skipIf (m.register x == m.register y))
  | .skipUnlessSame x y => .ok (m.skipIf (m.register x != m.register y))
  | .load x byte => .ok (m.setRegister x byte)
  | .increase x byte => .ok (m.setRegister x (m.register x + byte))
  | .copy x y => .ok (m.setRegister x (m.register y))
  | .or x y => .ok (m.setLogic dialect x (m.register x ||| m.register y))
  | .and x y => .ok (m.setLogic dialect x (m.register x &&& m.register y))
  | .xor x y => .ok (m.setLogic dialect x (m.register x ^^^ m.register y))
  | .add x y => .ok (m.setFlagged x (.add (m.register x) (m.register y)))
  | .sub x y => .ok (m.setFlagged x (.sub (m.register x) (m.register y)))
  | .subFrom x y => .ok (m.setFlagged x (.sub (m.register y) (m.register x)))
  | .shiftRight x y => .ok (m.setFlagged x (.shiftRight (m.shiftSource dialect x y)))
  | .shiftLeft x y => .ok (m.setFlagged x (.shiftLeft (m.shiftSource dialect x y)))
  | .loadIndex target => .ok { m with index := UInt16.ofNat target.val }
  | .jumpOffset target =>
    let offset := m.register (Mnemonic.jumpRegister dialect target)
    .ok { m with counter := UInt16.ofNat target.val + offset.toUInt16 }
  | .random x mask =>
    let (byte, random) := m.random.nextByte
    .ok ({ m with random }.setRegister x (byte &&& mask))
  | .draw x y rows => .ok (m.drawSprite x y rows)
  | .skipIfKey x => .ok (m.skipIf (m.keypad.isDown (Keypad.keyOfByte (m.register x))))
  | .skipUnlessKey x => .ok (m.skipIf (!m.keypad.isDown (Keypad.keyOfByte (m.register x))))
  | .readDelay x => .ok (m.setRegister x m.delayTimer)
  | .waitKey _ => .ok m
  | .setDelay x => .ok { m with delayTimer := m.register x }
  | .setSound x => .ok { m with soundTimer := m.register x }
  | .addIndex x => .ok { m with index := m.index + (m.register x).toUInt16 }
  | .loadGlyph x => .ok { m with index := Font.address (m.register x) }
  | .storeDecimal x =>
    .ok { m with memory := m.memory.write m.index (decimalDigits (m.register x)) }
  | .storeRegisters x => .ok ((m.storeRegisters x).advanceIndex dialect x)
  | .loadRegisters x => .ok ((m.loadRegisters x).advanceIndex dialect x)

end Chip8.Machine
