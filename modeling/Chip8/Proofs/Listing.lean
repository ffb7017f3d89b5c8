import Chip8.Instruction.Mnemonic
import Chip8.Proofs.InstructionWord

/-!
# Reading a listing

A line of a listing can be read back: the name ends at the first blank, commas part the
operands, and the shape of an operand tells what it is. So no two instructions have the
same text, in one dialect or in two, although names such as `LD` stand for many of them.

  * `Operand.ofChars?_text`, `Mnemonic.ofText_text` and `Mnemonic.instruction?_ofInstruction`
    — an operand, a line and an instruction are read back from what was written.
  * `Instruction.ofText?_text` — hence an instruction from its text.
  * `text_determines_word` — and its text determines its word.
-/

namespace Chip8

/-! ## Digits -/

namespace Hex

/-- The digit that a lower-case character writes. -/
def ofDigit? (c : Char) : Option Digit := (List.finRange 16).find? fun d => digit d == c

/-- The digit that an upper-case character writes. -/
def ofUpperDigit? (c : Char) : Option Digit := (List.finRange 16).find? fun d => upperDigit d == c

@[simp] theorem ofDigit?_digit (d : Digit) : ofDigit? (digit d) = some d := by
  revert d
  decide

@[simp] theorem ofUpperDigit?_upperDigit (d : Digit) : ofUpperDigit? (upperDigit d) = some d := by
  revert d
  decide

end Hex

/-! ## Operands -/

namespace Operand

/-- The operand that some characters write. -/
def ofChars? : List Char → Option Operand
  | ['I'] => some .index
  | ['[', 'I', ']'] => some .atIndex
  | ['D', 'T'] => some .delayTimer
  | ['S', 'T'] => some .soundTimer
  | ['K'] => some .key
  | ['F'] => some .glyph
  | ['B'] => some .decimal
  | ['V', x] => (Hex.ofUpperDigit? x).map .register
  | ['0', 'x', a, b] => do
    let a ← Hex.ofDigit? a
    let b ← Hex.ofDigit? b
    some (.byte (UInt8.ofNat (a.val * 16 + b.val)))
  | ['0', 'x', a, b, c] => do
    let a ← Hex.ofDigit? a
    let b ← Hex.ofDigit? b
    let c ← Hex.ofDigit? c
    some (.target (Fin.ofNat 4096 (a.val * 256 + b.val * 16 + c.val)))
  | numeral => ((List.finRange 16).find? fun n => (toString n.val).toList == numeral).map .count

theorem toList_text_register (x : Register) :
    (register x).text.toList = ['V', Hex.upperDigit x] := by
  rw [text, String.toList_append, String.toList_singleton]
  rfl

theorem toList_text_byte (value : UInt8) :
    (byte value).text.toList = '0' :: 'x' :: Hex.digits 2 value.toNat := by
  rw [text, String.toList_append]
  exact congrArg (['0', 'x'] ++ ·) String.toList_ofList

theorem toList_text_target (address : Target) :
    (target address).text.toList = '0' :: 'x' :: Hex.digits 3 address.val := by
  rw [text, String.toList_append]
  exact congrArg (['0', 'x'] ++ ·) String.toList_ofList

/-- An operand is read back from its text. -/
theorem ofChars?_text (o : Operand) : ofChars? o.text.toList = some o := by
  cases o with
  | register x =>
    rw [toList_text_register]
    simp [ofChars?]
  | byte value =>
    have hv := value.toNat_lt
    have joined : value.toNat / 16 % 16 * 16 + value.toNat % 16 = value.toNat := by omega
    rw [toList_text_byte]
    simp only [ofChars?, Hex.digits, List.nil_append, List.cons_append, Hex.ofDigit?_digit,
      Option.bind_eq_bind, Option.bind_some, Fin.val_ofNat, joined, UInt8.ofNat_toNat]
  | target address =>
    have ha := address.isLt
    have joined :
        address.val / 16 / 16 % 16 * 256 + address.val / 16 % 16 * 16 + address.val % 16 =
          address.val := by omega
    rw [toList_text_target]
    simp only [ofChars?, Hex.digits, List.nil_append, List.cons_append, Hex.ofDigit?_digit,
      Option.bind_eq_bind, Option.bind_some, Fin.val_ofNat, joined, Fin.ofNat_val_eq_self]
  | count n =>
    revert n
    decide
  | index | atIndex | delayTimer | soundTimer | key | glyph | decimal => decide

/-- The text of an operand holds no blank and no comma, which part operands. -/
theorem solid_text (o : Operand) : ' ' ∉ o.text.toList ∧ ',' ∉ o.text.toList := by
  have digit (d : Digit) : ' ' ≠ Hex.digit d ∧ ',' ≠ Hex.digit d := by
    revert d
    decide
  have upperDigit (d : Digit) : ' ' ≠ Hex.upperDigit d ∧ ',' ≠ Hex.upperDigit d := by
    revert d
    decide
  cases o with
  | register x =>
    rw [toList_text_register]
    simp [upperDigit]
  | byte value =>
    rw [toList_text_byte]
    simp [Hex.digits, digit]
  | target address =>
    rw [toList_text_target]
    simp [Hex.digits, digit]
  | count n =>
    revert n
    decide
  | index | atIndex | delayTimer | soundTimer | key | glyph | decimal => decide

end Operand

/-! ## Lines -/

theorem ne_blank {chars : List Char} (solid : ' ' ∉ chars) :
    ∀ c ∈ chars, decide (c ≠ ' ') = true := by
  intro c mem
  apply decide_eq_true
  rintro rfl
  exact solid mem

/-- Without blanks, pieces are parted by their commas alone. -/
theorem filter_intercalate {pieces : List (List Char)}
    (solid : ∀ piece ∈ pieces, ' ' ∉ piece) :
    ([',', ' '].intercalate pieces).filter (· ≠ ' ') = [','].intercalate pieces := by
  induction pieces with
  | nil => rfl
  | cons first rest ih =>
    have kept : first.filter (· ≠ ' ') = first :=
      List.filter_eq_self.mpr (ne_blank (solid first List.mem_cons_self))
    -- nothing stands between pieces unless there are two of them
    cases rest with
    | nil => rw [List.intercalate_singleton, List.intercalate_singleton, kept]
    | cons second rest =>
      have others := ih fun piece mem => solid piece (List.mem_cons_of_mem _ mem)
      rw [List.intercalate_cons_cons, List.intercalate_cons_cons, List.filter_append,
        List.filter_append, kept, others]
      rfl

namespace Mnemonic

/-- The line that a text is read as: its name ends at the first blank and commas part its
operands, among which blanks do not count. -/
def ofText (text : String) : Mnemonic where
  name := String.ofList (text.toList.takeWhile (· ≠ ' '))
  operands :=
    (((text.toList.dropWhile (· ≠ ' ')).filter (· ≠ ' ')).splitOn ',').filterMap Operand.ofChars?

/-- A name that fits into its column and holds no blank. -/
def IsName (name : String) : Prop := name.length < 5 ∧ ' ' ∉ name.toList

theorem ofText_of_toList {text name : String} {tail : List Char}
    (chars : text.toList = name.toList ++ tail) (solid : ' ' ∉ name.toList)
    (ends : tail.takeWhile (· ≠ ' ') = []) :
    ofText text =
      ⟨name, ((tail.filter (· ≠ ' ')).splitOn ',').filterMap Operand.ofChars?⟩ := by
  have left : tail.dropWhile (· ≠ ' ') = tail := by
    have whole :=
      List.takeWhile_append_dropWhile (p := fun c : Char => decide (c ≠ ' ')) (l := tail)
    rwa [ends, List.nil_append] at whole
  rw [ofText, chars, List.takeWhile_append_of_pos (ne_blank solid), ends, List.append_nil,
    String.ofList_toList, List.dropWhile_append_of_pos (ne_blank solid), left]

theorem toList_text {m : Mnemonic} (h : m.operands ≠ []) :
    m.text.toList =
      m.name.toList ++ (List.replicate (5 - m.name.length) ' ' ++
        [',', ' '].intercalate (m.operands.map fun o => o.text.toList)) := by
  obtain ⟨name, operands⟩ := m
  cases operands with
  | nil => exact absurd rfl h
  | cons first rest =>
    simp only [text]
    rw [String.toList_append, String.toList_append, List.append_assoc, String.toList_intercalate,
      List.map_map]
    congr 2
    exact String.toList_ofList

theorem splitOn_operands {operands : List Operand} (h : operands ≠ []) :
    ([','].intercalate (operands.map fun o => o.text.toList)).splitOn ',' =
      operands.map fun o => o.text.toList := by
  apply List.splitOn_intercalate
  · intro piece mem comma
    obtain ⟨o, -, rfl⟩ := List.mem_map.mp mem
    exact o.solid_text.2 comma
  · rwa [ne_eq, List.map_eq_nil_iff]

/-- A line is read back from its text. -/
theorem ofText_text {m : Mnemonic} (h : IsName m.name) : ofText m.text = m := by
  obtain ⟨short, solid⟩ := h
  by_cases bare : m.operands = []
  · obtain ⟨name, operands⟩ := m
    obtain rfl : operands = [] := bare
    exact ofText_of_toList (List.append_nil _).symm solid rfl
  · -- the name does not fill its column, so that a blank follows it
    have room : 5 - m.name.length = (4 - m.name.length) + 1 := by omega
    have blank : ∀ piece ∈ m.operands.map fun o => o.text.toList, ' ' ∉ piece := by
      intro piece mem
      obtain ⟨o, -, rfl⟩ := List.mem_map.mp mem
      exact o.solid_text.1
    have ends : (List.replicate (5 - m.name.length) ' ' ++
        [',', ' '].intercalate (m.operands.map fun o => o.text.toList)).takeWhile (· ≠ ' ') = [] := by
      rw [room]
      rfl
    have read : Operand.ofChars? ∘ (fun o => o.text.toList) = some :=
      funext Operand.ofChars?_text
    rw [ofText_of_toList (toList_text bare) solid ends, List.filter_append,
      List.filter_replicate_of_neg (by decide), List.nil_append, filter_intercalate blank,
      splitOn_operands bare, List.filterMap_map, read, List.filterMap_some]

/-! ## Instructions -/

/-- The instruction that a line stands for. The register of a jump with an offset says
nothing that its address does not say. -/
def instruction? : Mnemonic → Option Instruction
  | ⟨"SYS", [.target target]⟩ => some (.hostCall target)
  | ⟨"CLS", []⟩ => some .clear
  | ⟨"RET", []⟩ => some .ret
  | ⟨"JP", [.target target]⟩ => some (.jump target)
  | ⟨"JP", [.register _, .target target]⟩ => some (.jumpOffset target)
  | ⟨"CALL", [.target target]⟩ => some (.call target)
  | ⟨"SE", [.register x, .byte byte]⟩ => some (.skipIfByte x byte)
  | ⟨"SE", [.register x, .register y]⟩ => some (.skipIfSame x y)
  | ⟨"SNE", [.register x, .byte byte]⟩ => some (.skipUnlessByte x byte)
  | ⟨"SNE", [.register x, .register y]⟩ => some (.skipUnlessSame x y)
  | ⟨"LD", [.register x, .byte byte]⟩ => some (.load x byte)
  | ⟨"LD", [.register x, .register y]⟩ => some (.copy x y)
  | ⟨"LD", [.index, .target target]⟩ => some (.loadIndex target)
  | ⟨"LD", [.register x, .delayTimer]⟩ => some (.readDelay x)
  | ⟨"LD", [.register x, .key]⟩ => some (.waitKey x)
  | ⟨"LD", [.delayTimer, .register x]⟩ => some (.setDelay x)
  | ⟨"LD", [.soundTimer, .register x]⟩ => some (.setSound x)
  | ⟨"LD", [.glyph, .register x]⟩ => some (.loadGlyph x)
  | ⟨"LD", [.decimal, .register x]⟩ => some (.storeDecimal x)
  | ⟨"LD", [.atIndex, .register x]⟩ => some (.storeRegisters x)
  | ⟨"LD", [.register x, .atIndex]⟩ => some (.loadRegisters x)
  | ⟨"ADD", [.register x, .byte byte]⟩ => some (.increase x byte)
  | ⟨"ADD", [.register x, .register y]⟩ => some (.add x y)
  | ⟨"ADD", [.index, .register x]⟩ => some (.addIndex x)
  | ⟨"OR", [.register x, .register y]⟩ => some (.or x y)
  | ⟨"AND", [.register x, .register y]⟩ => some (.and x y)
  | ⟨"XOR", [.register x, .register y]⟩ => some (.xor x y)
  | ⟨"SUB", [.register x, .register y]⟩ => some (.sub x y)
  | ⟨"SUBN", [.register x, .register y]⟩ => some (.subFrom x y)
  | ⟨"SHR", [.register x, .register y]⟩ => some (.shiftRight x y)
  | ⟨"SHL", [.register x, .register y]⟩ => some (.shiftLeft x y)
  | ⟨"RND", [.register x, .byte mask]⟩ => some (.random x mask)
  | ⟨"DRW", [.register x, .register y, .count rows]⟩ => some (.draw x y rows)
  | ⟨"SKP", [.register x]⟩ => some (.skipIfKey x)
  | ⟨"SKNP", [.register x]⟩ => some (.skipUnlessKey x)
  | _ => none

/-- An instruction is read back from its line. -/
theorem instruction?_ofInstruction (dialect : Dialect) (i : Instruction) :
    (ofInstruction dialect i).instruction? = some i := by
  cases i <;> rfl

theorem isName_ofInstruction (dialect : Dialect) (i : Instruction) :
    IsName (ofInstruction dialect i).name := by
  cases i with
  | _ =>
    simp only [IsName, ofInstruction]
    decide

end Mnemonic

namespace Instruction

/-- The instruction that a text is read as. -/
def ofText? (text : String) : Option Instruction := (Mnemonic.ofText text).instruction?

/-- An instruction is read back from its text, in whatever dialect that was written. -/
theorem ofText?_text (dialect : Dialect) (i : Instruction) :
    ofText? (i.text dialect) = some i := by
  rw [ofText?, text, Mnemonic.ofText_text (Mnemonic.isName_ofInstruction dialect i)]
  exact Mnemonic.instruction?_ofInstruction dialect i

example : ofText? "DRW  V0, VB, 8" = some (.draw 0 0xB 8) := by decide

/-- **The text of an instruction determines its word.** Two words that are read and have the
same text are the same word, even if the texts are written for two dialects. -/
theorem text_determines_word (dialect dialect' : Dialect) {w w' : UInt16} {i i' : Instruction}
    (read : ofWord? w = some i) (read' : ofWord? w' = some i')
    (same : i.text dialect = i'.text dialect') : w = w' := by
  have back : some i = some i' := by
    rw [← ofText?_text dialect i, same, ofText?_text]
  obtain rfl := Option.some.inj back
  rw [← toWord_of_ofWord? read, toWord_of_ofWord? read']

/-- In the one dialect the jump adds V0 since that is the first digit, in the other always. -/
theorem text_determines_word_of_jump :
    let written : Dialect := { jumpByDigit := true }
    ofWord? (jumpOffset 0x0A3).toWord = some (.jumpOffset 0x0A3) ∧
      ofWord? 0xB0A3 = some (.jumpOffset 0x0A3) ∧
      (jumpOffset 0x0A3).text written = (jumpOffset 0x0A3).text {} ∧
      (jumpOffset 0x0A3).toWord = 0xB0A3 := by
  intro written
  have read : ofWord? (jumpOffset 0x0A3).toWord = some (.jumpOffset 0x0A3) :=
    ofWord?_toWord trivial
  have read' : ofWord? 0xB0A3 = some (.jumpOffset 0x0A3) := by decide
  have same : (jumpOffset 0x0A3).text written = (jumpOffset 0x0A3).text {} := by decide
  exact ⟨read, read', same, text_determines_word written {} read read' same⟩

end Instruction

end Chip8
