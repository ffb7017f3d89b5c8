import Chip8.Instruction.Encoding
import Chip8.Instruction.Mnemonic

/-!
# Reading and writing are one relation

A word is read as the instruction that is written as that word, and a word that is
not read is not the word of any instruction.

  * `family_targetWord` and its like — a word made from its family and its operands
    gives them back, as they fit into their digits.
  * `toWord_of_ofWord?` and `ofWord?_toWord` — the two directions.
  * `ofWord?_eq_none_iff` — what is refused is exactly what nothing is written as.
  * `operand_of_ofWord?` — the operands of what is read are bits of the word, shifted
    down and masked.

`reading_inverts_writing` puts these together.
-/

namespace Chip8.Instruction

open Word

/-! ## The fields of a written word -/

theorem toNat_targetWord {family : Nat} (hf : family < 16) (t : Target) :
    (targetWord family t).toNat = family * 4096 + t.val := by
  have ht := t.isLt
  rw [targetWord, UInt16.toNat_ofNat_of_lt']
  show _ < 65536
  omega

theorem toNat_byteWord {family : Nat} (hf : family < 16) (x : Register) (byte : UInt8) :
    (byteWord family x byte).toNat = family * 4096 + x.val * 256 + byte.toNat := by
  have hx := x.isLt
  have hb := byte.toNat_lt
  rw [byteWord, UInt16.toNat_ofNat_of_lt']
  show _ < 65536
  omega

theorem toNat_pairWord {family : Nat} (hf : family < 16) (x y : Register) (last : Digit) :
    (pairWord family x y last).toNat = family * 4096 + x.val * 256 + y.val * 16 + last.val := by
  have hx := x.isLt
  have hy := y.isLt
  have hl := last.isLt
  rw [pairWord, UInt16.toNat_ofNat_of_lt']
  show _ < 65536
  omega

section
variable {k : Nat} (hk : k < 16) (t : Target) (x y : Register) (byte : UInt8) (last : Digit)
include hk

theorem family_targetWord : family (targetWord k t) = k := by
  have ht := t.isLt
  rw [family, toNat_targetWord hk]
  omega

theorem target_targetWord : target (targetWord k t) = t := by
  have ht := t.isLt
  apply Fin.ext
  rw [target, Fin.val_ofNat, toNat_targetWord hk]
  omega

theorem targetWord_inj {t' : Target} (h : targetWord k t = targetWord k t') : t = t' := by
  have := congrArg target h
  rwa [target_targetWord hk, target_targetWord hk] at this

theorem family_byteWord : family (byteWord k x byte) = k := by
  have hx := x.isLt
  have hb := byte.toNat_lt
  rw [family, toNat_byteWord hk]
  omega

theorem x_byteWord : Word.x (byteWord k x byte) = x := by
  have hx := x.isLt
  have hb := byte.toNat_lt
  apply Fin.ext
  rw [Word.x, Fin.val_ofNat, toNat_byteWord hk]
  omega

theorem byte_byteWord : Word.byte (byteWord k x byte) = byte := by
  have hb := byte.toNat_lt
  apply UInt8.toNat_inj.mp
  rw [Word.byte, UInt8.toNat_ofNat', toNat_byteWord hk]
  omega

theorem family_pairWord : family (pairWord k x y last) = k := by
  have hx := x.isLt
  have hy := y.isLt
  have hl := last.isLt
  rw [family, toNat_pairWord hk]
  omega

theorem x_pairWord : Word.x (pairWord k x y last) = x := by
  have hx := x.isLt
  have hy := y.isLt
  have hl := last.isLt
  apply Fin.ext
  rw [Word.x, Fin.val_ofNat, toNat_pairWord hk]
  omega

theorem y_pairWord : Word.y (pairWord k x y last) = y := by
  have hy := y.isLt
  have hl := last.isLt
  apply Fin.ext
  rw [Word.y, Fin.val_ofNat, toNat_pairWord hk]
  omega

theorem last_pairWord : Word.last (pairWord k x y last) = last := by
  have hl := last.isLt
  apply Fin.ext
  rw [Word.last, Fin.val_ofNat, toNat_pairWord hk]
  omega

end

/-! ## A word from its fields -/

section
variable {w : UInt16} {k : Nat} (h : family w = k)
include h

theorem targetWord_target : targetWord k (target w) = w := by
  have hw := w.toNat_lt
  have hk : k < 16 := by rw [← h, family]; omega
  apply UInt16.toNat_inj.mp
  rw [toNat_targetWord hk, ← h, family, target, Fin.val_ofNat]
  omega

theorem byteWord_byte {b : UInt8} (hb : (Word.byte w).toNat = b.toNat) :
    byteWord k (Word.x w) b = w := by
  have hw := w.toNat_lt
  have hk : k < 16 := by rw [← h, family]; omega
  apply UInt16.toNat_inj.mp
  rw [toNat_byteWord hk, ← hb, ← h, family, Word.x, Fin.val_ofNat, Word.byte, UInt8.toNat_ofNat']
  omega

theorem pairWord_last {n : Digit} (hn : (Word.last w).val = n.val) :
    pairWord k (Word.x w) (Word.y w) n = w := by
  have hw := w.toNat_lt
  have hk : k < 16 := by rw [← h, family]; omega
  apply UInt16.toNat_inj.mp
  rw [toNat_pairWord hk, ← hn, ← h, family]
  simp only [Word.x, Word.y, Word.last, Fin.val_ofNat]
  omega

end

/-! ## Reading what was written, and writing what was read -/

theorem toWord_ofSystemWord {w : UInt16} (h : family w = 0) : (ofSystemWord w).toWord = w := by
  unfold ofSystemWord
  split
  · next hw => exact hw.symm
  · split
    · next hw => exact hw.symm
    · exact targetWord_target h

theorem toWord_of_ofArithmeticWord? {w : UInt16} {i : Instruction} (h : family w = 8)
    (hi : ofArithmeticWord? w = some i) : i.toWord = w := by
  unfold ofArithmeticWord? at hi
  simp only at hi
  split at hi
  all_goals first
    | (next hn => obtain rfl := Option.some.inj hi; exact pairWord_last h hn)
    | cases hi

theorem toWord_of_ofDeviceWord? {w : UInt16} {i : Instruction} (h : family w = 15)
    (hi : ofDeviceWord? w = some i) : i.toWord = w := by
  unfold ofDeviceWord? at hi
  simp only at hi
  split at hi
  all_goals first
    | (next hb => obtain rfl := Option.some.inj hi; exact byteWord_byte h hb)
    | cases hi

/-- A word that is read is the word of what it is read as. -/
theorem toWord_of_ofWord? {w : UInt16} {i : Instruction} (hi : ofWord? w = some i) :
    i.toWord = w := by
  unfold ofWord? at hi
  simp only at hi
  split at hi
  case h_1 h =>
    obtain rfl := Option.some.inj hi
    exact toWord_ofSystemWord h
  case h_6 h | h_10 h =>
    split at hi
    · next hn =>
      obtain rfl := Option.some.inj hi
      exact pairWord_last h (congrArg Fin.val hn)
    · cases hi
  case h_9 h => exact toWord_of_ofArithmeticWord? h hi
  case h_14 h =>
    obtain rfl := Option.some.inj hi
    exact pairWord_last h rfl
  case h_15 h =>
    split at hi
    · next hb =>
      obtain rfl := Option.some.inj hi
      exact byteWord_byte h (congrArg UInt8.toNat hb)
    · split at hi
      · next hb =>
        obtain rfl := Option.some.inj hi
        exact byteWord_byte h (congrArg UInt8.toNat hb)
      · cases hi
  case h_16 h => exact toWord_of_ofDeviceWord? h hi
  case h_17 => cases hi
  case h_2 h | h_3 h | h_11 h | h_12 h =>
    obtain rfl := Option.some.inj hi
    exact targetWord_target h
  case h_4 h | h_5 h | h_7 h | h_8 h | h_13 h =>
    obtain rfl := Option.some.inj hi
    exact byteWord_byte h rfl

/-- An instruction is what its own word is read as, unless it is a host call whose
word belongs to another instruction. -/
theorem ofWord?_toWord {i : Instruction} (hi : i.IsCanonical) : ofWord? i.toWord = some i := by
  cases i with
  | hostCall t =>
    -- the two words that family 0 keeps for itself are those that are left out
    have hc : targetWord 0 t ≠ 0x00E0 := fun h => hi.1 (targetWord_inj (by decide) t h)
    have hr : targetWord 0 t ≠ 0x00EE := fun h => hi.2 (targetWord_inj (by decide) t h)
    simp [toWord, ofWord?, ofSystemWord, family_targetWord, target_targetWord, hc, hr]
  | clear | ret => rfl
  | jump | call | loadIndex | jumpOffset =>
    simp [toWord, ofWord?, family_targetWord, target_targetWord]
  | skipIfByte | skipUnlessByte | load | increase | random | skipIfKey | skipUnlessKey =>
    simp [toWord, ofWord?, family_byteWord, x_byteWord, byte_byteWord]
  | skipIfSame | skipUnlessSame | draw =>
    simp [toWord, ofWord?, family_pairWord, x_pairWord, y_pairWord, last_pairWord]
  | copy | or | and | xor | add | sub | shiftRight | subFrom | shiftLeft =>
    simp only [toWord, ofWord?, ofArithmeticWord?, family_pairWord, x_pairWord, y_pairWord,
      last_pairWord, Nat.reduceLT]
    rfl
  | readDelay | waitKey | setDelay | setSound | addIndex | loadGlyph | storeDecimal
  | storeRegisters | loadRegisters =>
    simp [toWord, ofWord?, ofDeviceWord?, family_byteWord, x_byteWord, byte_byteWord]

/-- What an instruction is written as is read: as itself, or, where its word belongs to
another instruction, as that one. -/
theorem exists_ofWord?_toWord (i : Instruction) : ∃ j, ofWord? i.toWord = some j := by
  by_cases hi : i.IsCanonical
  · exact ⟨i, ofWord?_toWord hi⟩
  · cases i with
    | hostCall t =>
      by_cases hc : t = 0x0E0
      · subst hc
        exact ⟨.clear, rfl⟩
      · by_cases hr : t = 0x0EE
        · subst hr
          exact ⟨.ret, rfl⟩
        · exact absurd ⟨hc, hr⟩ hi
    | _ => exact absurd trivial hi

theorem ofWord?_eq_none_iff {w : UInt16} :
    ofWord? w = none ↔ ∀ i : Instruction, i.toWord ≠ w := by
  constructor
  · rintro h i rfl
    obtain ⟨j, hj⟩ := exists_ofWord?_toWord i
    rw [h] at hj
    cases hj
  · intro h
    cases hi : ofWord? w with
    | none => rfl
    | some i => exact absurd (toWord_of_ofWord? hi) (h i)

theorem isCanonical_of_ofWord? {w : UInt16} {i : Instruction} (hi : ofWord? w = some i) :
    i.IsCanonical := by
  cases i with
  | hostCall t =>
    -- a host call to `0E0` or `0EE` would have a word that is read as something else
    constructor
    · rintro rfl
      obtain rfl : (0x00E0 : UInt16) = w := toWord_of_ofWord? hi
      cases hi
    · rintro rfl
      obtain rfl : (0x00EE : UInt16) = w := toWord_of_ofWord? hi
      cases hi
  | _ => trivial

theorem ofWord?_eq_some_iff {w : UInt16} {i : Instruction} :
    ofWord? w = some i ↔ i.IsCanonical ∧ i.toWord = w := by
  constructor
  · intro hi
    exact ⟨isCanonical_of_ofWord? hi, toWord_of_ofWord? hi⟩
  · rintro ⟨canonical, rfl⟩
    exact ofWord?_toWord canonical

/-! ## Operands -/

/-- Where a word holds an operand. -/
inductive Field where
  | x
  | y
  | last
  | byte
  | target
  deriving DecidableEq, Repr

/-- The bits of a word in a field, shifted down to the end and masked. -/
def Field.bits (w : UInt16) : Field → UInt16
  | .x => (w >>> 8) &&& 0xF
  | .y => (w >>> 4) &&& 0xF
  | .last => w &&& 0xF
  | .byte => w &&& 0xFF
  | .target => w &&& 0xFFF

/-- How many numbers a field can hold. -/
def Field.size : Field → Nat
  | .x | .y | .last => 16
  | .byte => 256
  | .target => 4096

/-- The operands of an instruction, each with the field that holds it. -/
def operands : Instruction → List (Field × Nat)
  | .clear | .ret => []
  | .hostCall target | .jump target | .call target | .loadIndex target | .jumpOffset target =>
    [(.target, target.val)]
  | .skipIfByte x byte | .skipUnlessByte x byte | .load x byte | .increase x byte
  | .random x byte => [(.x, x.val), (.byte, byte.toNat)]
  | .skipIfSame x y | .skipUnlessSame x y | .copy x y | .or x y | .and x y | .xor x y
  | .add x y | .sub x y | .shiftRight x y | .subFrom x y | .shiftLeft x y =>
    [(.x, x.val), (.y, y.val)]
  | .draw x y rows => [(.x, x.val), (.y, y.val), (.last, rows.val)]
  | .skipIfKey x | .skipUnlessKey x | .readDelay x | .waitKey x | .setDelay x | .setSound x
  | .addIndex x | .loadGlyph x | .storeDecimal x | .storeRegisters x | .loadRegisters x =>
    [(.x, x.val)]

theorem toNat_bits_x (w : UInt16) : (Field.bits w .x).toNat = (Word.x w).val := by
  rw [Field.bits, UInt16.toNat_and, UInt16.toNat_shiftRight, Word.x, Fin.val_ofNat]
  calc w.toNat >>> 8 &&& 15
      = w.toNat >>> 8 % 16 := Nat.and_two_pow_sub_one_eq_mod _ 4
    _ = w.toNat / 256 % 16 := by rw [Nat.shiftRight_eq_div_pow]

theorem toNat_bits_y (w : UInt16) : (Field.bits w .y).toNat = (Word.y w).val := by
  rw [Field.bits, UInt16.toNat_and, UInt16.toNat_shiftRight, Word.y, Fin.val_ofNat]
  calc w.toNat >>> 4 &&& 15
      = w.toNat >>> 4 % 16 := Nat.and_two_pow_sub_one_eq_mod _ 4
    _ = w.toNat / 16 % 16 := by rw [Nat.shiftRight_eq_div_pow]

theorem toNat_bits_last (w : UInt16) : (Field.bits w .last).toNat = (Word.last w).val := by
  rw [Field.bits, UInt16.toNat_and, Word.last, Fin.val_ofNat]
  exact Nat.and_two_pow_sub_one_eq_mod _ 4

theorem toNat_bits_byte (w : UInt16) : (Field.bits w .byte).toNat = (Word.byte w).toNat := by
  rw [Field.bits, UInt16.toNat_and, Word.byte, UInt8.toNat_ofNat']
  exact Nat.and_two_pow_sub_one_eq_mod _ 8

theorem toNat_bits_target (w : UInt16) : (Field.bits w .target).toNat = (Word.target w).val := by
  rw [Field.bits, UInt16.toNat_and, Word.target, Fin.val_ofNat]
  exact Nat.and_two_pow_sub_one_eq_mod _ 12

/-- An operand of what a word is read as is the number in its field, which it fits into. -/
theorem operand_of_ofWord? {w : UInt16} {i : Instruction} (hi : ofWord? w = some i) :
    ∀ operand ∈ i.operands,
      operand.2 = (operand.1.bits w).toNat ∧ operand.2 < operand.1.size := by
  obtain rfl := toWord_of_ofWord? hi
  cases i with
  | clear | ret => simp [operands]
  | hostCall t | jump t | call t | loadIndex t | jumpOffset t =>
    simp [operands, toWord, toNat_bits_target, target_targetWord, Field.size]
  | skipIfByte x b | skipUnlessByte x b | load x b | increase x b | random x b =>
    simp [operands, toWord, toNat_bits_x, toNat_bits_byte, x_byteWord, byte_byteWord, Field.size,
      b.toNat_lt]
  | skipIfSame | skipUnlessSame | copy | or | and | xor | add | sub | shiftRight | subFrom
  | shiftLeft =>
    simp [operands, toWord, toNat_bits_x, toNat_bits_y, x_pairWord, y_pairWord, Field.size]
  | draw =>
    simp [operands, toWord, toNat_bits_x, toNat_bits_y, toNat_bits_last, x_pairWord, y_pairWord,
      last_pairWord, Field.size]
  | skipIfKey | skipUnlessKey | readDelay | waitKey | setDelay | setSound | addIndex | loadGlyph
  | storeDecimal | storeRegisters | loadRegisters =>
    simp [operands, toWord, toNat_bits_x, x_byteWord, Field.size]

/-- A jump with an offset takes its register from the first digit of its address, which is the
second of the word. -/
theorem val_jumpRegister {w : UInt16} {target : Target}
    (h : ofWord? w = some (.jumpOffset target)) (dialect : Dialect) :
    (Mnemonic.jumpRegister dialect target).val =
      if dialect.jumpByDigit then (Field.bits w .x).toNat else 0 := by
  unfold Mnemonic.jumpRegister
  split
  · -- the address is the word without its family, whose first digit is the second of the word
    have address : target.val = (Field.bits w .target).toNat :=
      (operand_of_ofWord? h (.target, target.val) List.mem_cons_self).1
    have low : target.val = w.toNat % 4096 := by
      rw [address, toNat_bits_target, Word.target, Fin.val_ofNat]
    rw [Fin.val_ofNat, toNat_bits_x, Word.x, Fin.val_ofNat, low]
    omega
  · rfl

/-- **Reading inverts writing.** A word is read as an instruction exactly if it is the word of
that instruction, host calls to `0E0` and `0EE` apart, and it is refused exactly if it is the
word of none. The operands of what is read are bits of the word and within their ranges, and so
is the register that a jump with an offset takes from its address. -/
theorem reading_inverts_writing (w : UInt16) :
    (∀ i : Instruction, ofWord? w = some i ↔ i.IsCanonical ∧ i.toWord = w) ∧
      (ofWord? w = none ↔ ∀ i : Instruction, i.IsCanonical → i.toWord ≠ w) ∧
      (∀ i : Instruction, ofWord? w = some i → ∀ operand ∈ i.operands,
        operand.2 = (operand.1.bits w).toNat ∧ operand.2 < operand.1.size) ∧
      ∀ (target : Target) (dialect : Dialect), ofWord? w = some (.jumpOffset target) →
        (Mnemonic.jumpRegister dialect target).val =
          if dialect.jumpByDigit then (Field.bits w .x).toNat else 0 := by
  refine ⟨fun i => ofWord?_eq_some_iff, ?_, fun i => operand_of_ofWord?, ?_⟩
  · rw [Option.eq_none_iff_forall_ne_some]
    constructor
    · intro refused i canonical word
      exact refused i (ofWord?_eq_some_iff.mpr ⟨canonical, word⟩)
    · intro unwritten i hi
      obtain ⟨canonical, word⟩ := ofWord?_eq_some_iff.mp hi
      exact unwritten i canonical word
  · intro target dialect h
    exact val_jumpRegister h dialect

theorem reading_inverts_writing_of_draw :
    (draw 0xA 0xB 5).IsCanonical ∧ (draw 0xA 0xB 5).toWord = 0xDAB5 ∧
      ofWord? 0xDAB5 = some (.draw 0xA 0xB 5) ∧
      (draw 0xA 0xB 5).operands = [(.x, 10), (.y, 11), (.last, 5)] ∧
      (Field.bits 0xDAB5 .y).toNat = 11 := by
  obtain ⟨reads, -, operands, -⟩ := reading_inverts_writing 0xDAB5
  have read : ofWord? 0xDAB5 = some (.draw 0xA 0xB 5) := (reads _).mpr ⟨trivial, rfl⟩
  obtain ⟨bits, -⟩ := operands _ read (.y, 11) (by decide)
  exact ⟨trivial, rfl, read, rfl, bits.symm⟩

end Chip8.Instruction
