import Chip8.Hex

/-!
# Faults

Everything that can end a run other than the exit key. A fault is a cause with
what is known about it; its wording is in one place, `Fault.message`.
-/

namespace Chip8

/-- Why a run, or one step of it, failed. -/
inductive Fault where
  /-- The word at `address` stands for no instruction. -/
  | undecodable (address word : UInt16)
  /-- The program counter is outside the program space; `lastWord` was fetched last. -/
  | outsideProgram (address lastWord : UInt16)
  /-- The call at `address` found the stack full. -/
  | stackOverflow (address word : UInt16)
  /-- There is no byte to load. -/
  | emptyProgram
  /-- The program's file cannot be read. -/
  | unreadable (path reason : String)
  /-- A device failed. -/
  | device (reason : String)
  deriving DecidableEq, Repr, Inhabited

instance decEqResult {ε α : Type} [DecidableEq ε] [DecidableEq α] : DecidableEq (Except ε α)
  | .ok a, .ok b =>
    if h : a = b then .isTrue (congrArg Except.ok h)
    else .isFalse fun same => h (Except.ok.inj same)
  | .error a, .error b =>
    if h : a = b then .isTrue (congrArg Except.error h)
    else .isFalse fun same => h (Except.error.inj same)
  | .ok _, .error _ => .isFalse fun same => nomatch same
  | .error _, .ok _ => .isFalse fun same => nomatch same

/-- The sentence that reports a fault. -/
def Fault.message : Fault → String
  | .undecodable address word =>
    "unknown instruction " ++ Hex.word 4 word.toNat ++ " at address " ++ Hex.word 3 address.toNat
  | .outsideProgram address lastWord =>
    "program counter left program space at " ++ Hex.word 4 address.toNat
      ++ " (after instruction " ++ Hex.word 4 lastWord.toNat ++ ")"
  | .stackOverflow address word =>
    "call stack overflow at address " ++ Hex.word 3 address.toNat
      ++ " (instruction " ++ Hex.word 4 word.toNat ++ ")"
  | .emptyProgram => "program image is empty"
  | .unreadable path reason => "cannot read program " ++ path ++ ": " ++ reason
  | .device reason => reason

end Chip8
