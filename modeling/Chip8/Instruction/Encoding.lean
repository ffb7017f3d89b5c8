import Chip8.Instruction.Basic

/-!
# Instruction words

An instruction is stored as one 16-bit word. `toWord` writes the word of an
instruction and `ofWord?` reads a word back, or refuses it. The two are one
relation seen from both sides, but for `hostCall`: its words `00E0` and `00EE`
belong to `clear` and `ret`, and `IsCanonical` leaves those two out.
-/

namespace Chip8

/-! ## The fields of a word -/

namespace Word

/-- The first digit, which names the family of the instruction. -/
def family (w : UInt16) : Nat := w.toNat / 4096

/-- The second digit, read as a register. -/
def x (w : UInt16) : Register := Fin.ofNat 16 (w.toNat / 256)

/-- The third digit, read as a register. -/
def y (w : UInt16) : Register := Fin.ofNat 16 (w.toNat / 16)

/-- The last digit. -/
def last (w : UInt16) : Digit := Fin.ofNat 16 w.toNat

/-- The last two digits. -/
def byte (w : UInt16) : UInt8 := UInt8.ofNat w.toNat

/-- The last three digits. -/
def target (w : UInt16) : Target := Fin.ofNat 4096 w.toNat

end Word

namespace Instruction

/-! ## Reading -/

/-- The family `0`: two words of its own, and calls into the host for all others. -/
def ofSystemWord (w : UInt16) : Instruction :=
  if w = 0x00E0 then .clear
  else if w = 0x00EE then .ret
  else .hostCall (Word.target w)

/-- The family `8`: arithmetic on two registers, told apart by the last digit. -/
def ofArithmeticWord? (w : UInt16) : Option Instruction :=
  let x := Word.x w
  let y := Word.y w
  match (Word.last w).val with
  | 0x0 => some (.copy x y)
  | 0x1 => some (.or x y)
  | 0x2 => some (.and x y)
  | 0x3 => some (.xor x y)
  | 0x4 => some (.add x y)
  | 0x5 => some (.sub x y)
  | 0x6 => some (.shiftRight x y)
  | 0x7 => some (.subFrom x y)
  | 0xE => some (.shiftLeft x y)
  | _ => none

/-- The family `F`: devices and memory, told apart by the last two digits. -/
def ofDeviceWord? (w : UInt16) : Option Instruction :=
  let x := Word.x w
  match (Word.byte w).toNat with
  | 0x07 => some (.readDelay x)
  | 0x0A => some (.waitKey x)
  | 0x15 => some (.setDelay x)
  | 0x18 => some (.setSound x)
  | 0x1E => some (.addIndex x)
  | 0x29 => some (.loadGlyph x)
  | 0x33 => some (.storeDecimal x)
  | 0x55 => some (.storeRegisters x)
  | 0x65 => some (.loadRegisters x)
  | _ => none

/-- The instruction that a word stands for, or nothing if it stands for none. -/
def ofWord? (w : UInt16) : Option Instruction :=
  let x := Word.x w
  let y := Word.y w
  match Word.family w with
  | 0x0 => some (ofSystemWord w)
  | 0x1 => some (.jump (Word.target w))
  | 0x2 => some (.call (Word.target w))
  | 0x3 => some (.skipIfByte x (Word.byte w))
  | 0x4 => some (.skipUnlessByte x (Word.byte w))
  | 0x5 => if Word.last w = 0 then some (.skipIfSame x y) else none
  | 0x6 => some (.load x (Word.byte w))
  | 0x7 => some (.increase x (Word.byte w))
  | 0x8 => ofArithmeticWord? w
  | 0x9 => if Word.last w = 0 then some (.skipUnlessSame x y) else none
  | 0xA => some (.loadIndex (Word.target w))
  | 0xB => some (.jumpOffset (Word.target w))
  | 0xC => some (.random x (Word.byte w))
  | 0xD => some (.draw x y (Word.last w))
  | 0xE =>
    if Word.byte w = 0x9E then some (.skipIfKey x)
    else if Word.byte w = 0xA1 then some (.skipUnlessKey x)
    else none
  | 0xF => ofDeviceWord? w
  | _ => none

/-! ## Writing -/

/-- A word from its family and an address. -/
def targetWord (family : Nat) (target : Target) : UInt16 :=
  UInt16.ofNat (family * 4096 + target.val)

/-- A word from its family, a register and a byte. -/
def byteWord (family : Nat) (x : Register) (byte : UInt8) : UInt16 :=
  UInt16.ofNat (family * 4096 + x.val * 256 + byte.toNat)

/-- A word from its family, two registers and a last digit. -/
def pairWord (family : Nat) (x y : Register) (last : Digit) : UInt16 :=
  UInt16.ofNat (family * 4096 + x.val * 256 + y.val * 16 + last.val)

/-- The word that stands for an instruction. -/
def toWord : Instruction → UInt16
  | .hostCall target => targetWord 0x0 target
  | .clear => 0x00E0
  | .ret => 0x00EE
  | .jump target => targetWord 0x1 target
  | .call target => targetWord 0x2 target
  | .skipIfByte x byte => byteWord 0x3 x byte
  | .skipUnlessByte x byte => byteWord 0x4 x byte
  | .skipIfSame x y => pairWord 0x5 x y 0x0
  | .load x byte => byteWord 0x6 x byte
  | .increase x byte => byteWord 0x7 x byte
  | .copy x y => pairWord 0x8 x y 0x0
  | .or x y => pairWord 0x8 x y 0x1
  | .and x y => pairWord 0x8 x y 0x2
  | .xor x y => pairWord 0x8 x y 0x3
  | .add x y => pairWord 0x8 x y 0x4
  | .sub x y => pairWord 0x8 x y 0x5
  | .shiftRight x y => pairWord 0x8 x y 0x6
  | .subFrom x y => pairWord 0x8 x y 0x7
  | .shiftLeft x y => pairWord 0x8 x y 0xE
  | .skipUnlessSame x y => pairWord 0x9 x y 0x0
  | .loadIndex target => targetWord 0xA target
  | .jumpOffset target => targetWord 0xB target
  | .random x mask => byteWord 0xC x mask
  | .draw x y rows => pairWord 0xD x y rows
  | .skipIfKey x => byteWord 0xE x 0x9E
  | .skipUnlessKey x => byteWord 0xE x 0xA1
  | .readDelay x => byteWord 0xF x 0x07
  | .waitKey x => byteWord 0xF x 0x0A
  | .setDelay x => byteWord 0xF x 0x15
  | .setSound x => byteWord 0xF x 0x18
  | .addIndex x => byteWord 0xF x 0x1E
  | .loadGlyph x => byteWord 0xF x 0x29
  | .storeDecimal x => byteWord 0xF x 0x33
  | .storeRegisters x => byteWord 0xF x 0x55
  | .loadRegisters x => byteWord 0xF x 0x65

/-- Whether the instruction is the one that its word is read as: a host call to
`0E0` or `0EE` has no word of its own. -/
def IsCanonical : Instruction → Prop
  | .hostCall target => target ≠ 0x0E0 ∧ target ≠ 0x0EE
  | _ => True

instance : DecidablePred IsCanonical := fun i => by
  cases i <;> unfold IsCanonical <;> infer_instance

end Instruction

end Chip8
