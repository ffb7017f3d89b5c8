import Chip8.Dialect
import Chip8.Hex
import Chip8.Instruction.Basic

/-!
# Mnemonics

The text of an instruction as an assembler listing shows it: a name, filled up
to five columns, then the operands with a comma between. An instruction is first
taken apart into its name and operands (`Mnemonic.ofInstruction`), then written
(`Mnemonic.text`). The dialect matters to one line only: the register that
`BNNN` adds is the one that it will add.
-/

namespace Chip8

/-- One operand of a listing. -/
inductive Operand where
  | register (x : Register)
  | byte (value : UInt8)
  | target (address : Target)
  | count (n : Digit)
  | index
  | atIndex
  | delayTimer
  | soundTimer
  | key
  | glyph
  | decimal
  deriving DecidableEq, Repr

/-- The text of an operand: registers by one upper-case digit, bytes and
addresses in hexadecimal, counts in decimal. -/
def Operand.text : Operand → String
  | .register x => "V" ++ String.singleton (Hex.upperDigit x)
  | .byte value => "0x" ++ String.ofList (Hex.digits 2 value.toNat)
  | .target address => "0x" ++ String.ofList (Hex.digits 3 address.val)
  | .count n => toString n.val
  | .index => "I"
  | .atIndex => "[I]"
  | .delayTimer => "DT"
  | .soundTimer => "ST"
  | .key => "K"
  | .glyph => "F"
  | .decimal => "B"

/-- A line of a listing. -/
structure Mnemonic where
  name : String
  operands : List Operand
  deriving DecidableEq, Repr

namespace Mnemonic

/-- The name in its column, then the operands; a name that stands alone is not filled up. -/
def text (m : Mnemonic) : String :=
  match m.operands with
  | [] => m.name
  | operands =>
    m.name ++ String.ofList (List.replicate (5 - m.name.length) ' ')
      ++ String.intercalate ", " (operands.map Operand.text)

/-- The register that `BNNN` adds: V0, or the one that the first digit of NNN names. -/
def jumpRegister (dialect : Dialect) (target : Target) : Register :=
  if dialect.jumpByDigit then Fin.ofNat 16 (target.val / 256) else 0

/-- An instruction as its name and operands. -/
def ofInstruction (dialect : Dialect) : Instruction → Mnemonic
  | .hostCall target => ⟨"SYS", [.target target]⟩
  | .clear => ⟨"CLS", []⟩
  | .ret => ⟨"RET", []⟩
  | .jump target => ⟨"JP", [.target target]⟩
  | .call target => ⟨"CALL", [.target target]⟩
  | .skipIfByte x byte => ⟨"SE", [.register x, .byte byte]⟩
  | .skipUnlessByte x byte => ⟨"SNE", [.register x, .byte byte]⟩
  | .skipIfSame x y => ⟨"SE", [.register x, .register y]⟩
  | .load x byte => ⟨"LD", [.register x, .byte byte]⟩
  | .increase x byte => ⟨"ADD", [.register x, .byte byte]⟩
  | .copy x y => ⟨"LD", [.register x, .register y]⟩
  | .or x y => ⟨"OR", [.register x, .register y]⟩
  | .and x y => ⟨"AND", [.register x, .register y]⟩
  | .xor x y => ⟨"XOR", [.register x, .register y]⟩
  | .add x y => ⟨"ADD", [.register x, .register y]⟩
  | .sub x y => ⟨"SUB", [.register x, .register y]⟩
  | .shiftRight x y => ⟨"SHR", [.register x, .register y]⟩
  | .subFrom x y => ⟨"SUBN", [.register x, .register y]⟩
  | .shiftLeft x y => ⟨"SHL", [.register x, .register y]⟩
  | .skipUnlessSame x y => ⟨"SNE", [.register x, .register y]⟩
  | .loadIndex target => ⟨"LD", [.index, .target target]⟩
  | .jumpOffset target => ⟨"JP", [.register (jumpRegister dialect target), .target target]⟩
  | .random x mask => ⟨"RND", [.register x, .byte mask]⟩
  | .draw x y rows => ⟨"DRW", [.register x, .register y, .count rows]⟩
  | .skipIfKey x => ⟨"SKP", [.register x]⟩
  | .skipUnlessKey x => ⟨"SKNP", [.register x]⟩
  | .readDelay x => ⟨"LD", [.register x, .delayTimer]⟩
  | .waitKey x => ⟨"LD", [.register x, .key]⟩
  | .setDelay x => ⟨"LD", [.delayTimer, .register x]⟩
  | .setSound x => ⟨"LD", [.soundTimer, .register x]⟩
  | .addIndex x => ⟨"ADD", [.index, .register x]⟩
  | .loadGlyph x => ⟨"LD", [.glyph, .register x]⟩
  | .storeDecimal x => ⟨"LD", [.decimal, .register x]⟩
  | .storeRegisters x => ⟨"LD", [.atIndex, .register x]⟩
  | .loadRegisters x => ⟨"LD", [.register x, .atIndex]⟩

end Mnemonic

/-- The text of an instruction as the given dialect runs it. -/
def Instruction.text (dialect : Dialect) (i : Instruction) : String :=
  (Mnemonic.ofInstruction dialect i).text

end Chip8
