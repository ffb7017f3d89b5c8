import Chip8.Proofs.Step

/-!
# Where dialects show

Each switch of a dialect belongs to a few instructions: shifts, storing and loading
registers, bitwise logic, and the jump with an offset. Whatever else is executed is the same
under every dialect, down to the listing in the log, and so are those instructions where the
switch makes no difference: a shift of a register into itself, and a jump whose first digit
names V0. The order of carries belongs to no instruction at all.

  * `Instruction.TellsApart` — the instructions that two dialects may execute differently.
  * `setLogic_congr` and its like — what each part of an instruction takes from a dialect.
  * `execute_congr`, `cycle_congr`, `trace_congr` — an instruction, a cycle and a run.

`dialects_show` puts them together.
-/

namespace Chip8

/-- Whether two dialects may be told apart by an instruction. -/
def Instruction.TellsApart (a b : Dialect) : Instruction → Prop
  | .shiftRight x y | .shiftLeft x y => a.shiftInPlace ≠ b.shiftInPlace ∧ x ≠ y
  | .storeRegisters _ | .loadRegisters _ => a.keepIndex ≠ b.keepIndex
  | .or _ _ | .and _ _ | .xor _ _ => a.resetFlag ≠ b.resetFlag
  | .jumpOffset target => a.jumpByDigit ≠ b.jumpByDigit ∧ 0x100 ≤ target.val
  | _ => False

variable {a b : Dialect}

/-- Where only the order of carries differs nothing tells the dialects apart. -/
theorem not_tellsApart_of_carryOrder (h : { a with carryOrder := b.carryOrder } = b)
    (i : Instruction) : ¬ i.TellsApart a b := by
  have shifts : a.shiftInPlace = b.shiftInPlace := by rw [← h]
  have stores : a.keepIndex = b.keepIndex := by rw [← h]
  have logic : a.resetFlag = b.resetFlag := by rw [← h]
  have jumps : a.jumpByDigit = b.jumpByDigit := by rw [← h]
  cases i <;> simp [Instruction.TellsApart, shifts, stores, logic, jumps]

/-! ## Parts of instructions -/

theorem Mnemonic.jumpRegister_congr {target : Target}
    (h : ¬ (a.jumpByDigit ≠ b.jumpByDigit ∧ 0x100 ≤ target.val)) :
    jumpRegister a target = jumpRegister b target := by
  by_cases same : a.jumpByDigit = b.jumpByDigit
  · rw [jumpRegister, jumpRegister, same]
  · -- below 100 the first digit names V0 as well
    have low : target.val < 0x100 := Nat.lt_of_not_le fun high => h ⟨same, high⟩
    have zero (dialect : Dialect) : jumpRegister dialect target = 0 := by
      unfold jumpRegister
      split
      · apply Fin.ext
        rw [Fin.val_ofNat]
        show target.val / 256 % 16 = 0
        omega
      · rfl
    rw [zero, zero]

theorem Mnemonic.ofInstruction_congr {i : Instruction} (h : ¬ i.TellsApart a b) :
    ofInstruction a i = ofInstruction b i := by
  cases i
  case jumpOffset target => rw [ofInstruction, ofInstruction, jumpRegister_congr h]
  all_goals rfl

namespace Machine

variable (m : Machine)

theorem setLogic_congr (h : a.resetFlag = b.resetFlag) (x : Register) (result : UInt8) :
    m.setLogic a x result = m.setLogic b x result := by
  rw [setLogic, setLogic, h]

theorem advanceIndex_congr (h : a.keepIndex = b.keepIndex) (x : Register) :
    m.advanceIndex a x = m.advanceIndex b x := by
  rw [advanceIndex, advanceIndex, h]

theorem shiftSource_congr {x y : Register} (h : ¬ (a.shiftInPlace ≠ b.shiftInPlace ∧ x ≠ y)) :
    m.shiftSource a x y = m.shiftSource b x y := by
  by_cases same : x = y
  · subst same
    simp only [shiftSource, ite_self]
  · have switch : a.shiftInPlace = b.shiftInPlace := by
      by_cases switch : a.shiftInPlace = b.shiftInPlace
      · exact switch
      · exact absurd ⟨switch, same⟩ h
    rw [shiftSource, shiftSource, switch]

/-! ## Instructions and cycles -/

theorem execute_congr {f : Fetched} (h : ¬ f.instruction.TellsApart a b) :
    m.execute a f = m.execute b f := by
  obtain ⟨address, word, i⟩ := f
  cases i
  case or | and | xor => exact congrArg Except.ok (m.setLogic_congr (Decidable.not_not.mp h) _ _)
  case shiftRight | shiftLeft => simp only [execute, m.shiftSource_congr h]
  case jumpOffset => simp only [execute, Mnemonic.jumpRegister_congr h]
  case storeRegisters | loadRegisters =>
    exact congrArg Except.ok (advanceIndex_congr _ (Decidable.not_not.mp h) _)
  all_goals rfl

end Machine

namespace Console

variable {c : Console}

theorem execute_congr {f : Fetched} (h : ¬ f.instruction.TellsApart a b) :
    c.execute a f = c.execute b f := by
  unfold execute
  rw [Mnemonic.ofInstruction_congr h]
  split
  · rfl
  · simp only [Machine.execute_congr _ h]

theorem cycle_congr (h : ∀ i, c.instruction? = some i → ¬ i.TellsApart a b) :
    c.cycle a = c.cycle b := by
  by_cases bounds : Machine.InProgram c.machine.nextAddress
  case neg => rw [cycle_outside bounds, cycle_outside bounds]
  cases read : Instruction.ofWord? c.machine.nextWord with
  | none => rw [cycle_undecodable bounds read, cycle_undecodable bounds read]
  | some i =>
    have same : ¬ i.TellsApart a b := h i (instruction?_eq_some_iff.mpr ⟨bounds, read⟩)
    rw [cycle_instruction bounds read, cycle_instruction bounds read, execute_congr same]

theorem perform_congr (step : Step)
    (h : ∀ i ∈ c.instructions a [step], ¬ i.TellsApart a b) :
    c.perform a step = c.perform b step := by
  cases step with
  | cycle => exact cycle_congr fun i executes => h i (mem_instructions_cycle executes [])
  | tick | poll | render | load | shutdown => rfl

theorem trace_congr (steps : List Step)
    (h : ∀ i ∈ c.instructions a steps, ¬ i.TellsApart a b) :
    c.trace a steps = c.trace b steps := by
  induction steps generalizing c with
  | nil => rfl
  | cons step rest ih =>
    rw [instructions_cons] at h
    have first : c.perform a step = c.perform b step :=
      perform_congr step fun i mem => h i (List.mem_append_left _ mem)
    have later := ih fun i mem => h i (List.mem_append_right _ mem)
    rw [trace, trace, ← first]
    exact congrArg _ later

/-- **Dialects show in their own instructions only.** From one and the same console a cycle
gives the same result under two dialects and leaves the same console, unless it executes an
instruction that tells them apart. So a run under two dialects that differ in the order of
carries only is the same step by step, and one under any two is for as long as it executes
no instruction that tells them apart. -/
theorem dialects_show (a b : Dialect) :
    (∀ c : Console, (∀ i, c.instruction? = some i → ¬ i.TellsApart a b) →
      c.cycle a = c.cycle b) ∧
    ({ a with carryOrder := b.carryOrder } = b →
      ∀ (c : Console) (steps : List Step), c.trace a steps = c.trace b steps) ∧
    ∀ (c : Console) (steps : List Step),
      (∀ i ∈ c.instructions a steps, ¬ i.TellsApart a b) →
        c.trace a steps = c.trace b steps := by
  refine ⟨fun c => cycle_congr, fun same c steps => ?_, fun c => trace_congr⟩
  exact trace_congr steps fun i _ => not_tellsApart_of_carryOrder same i

/-- Two dialects with no switch in common, and a program that shifts a register into itself
and jumps below `100`. -/
theorem dialects_show_nowhere_in_program :
    let a : Dialect := {}
    let b : Dialect := ⟨true, true, true, true, true⟩
    let c := ((fresh (.ofSeed 0) {} {} {}).load [0x61, 0x05, 0x81, 0x16, 0xB0, 0xFF]).2
    let steps : List Step := [.cycle, .cycle, .poll, .cycle, .cycle]
    c.instructions a steps = [.load 1 5, .shiftRight 1 1, .jumpOffset 0x0FF] ∧
      c.trace a steps = c.trace b steps := by
  intro a b c steps
  have executed : c.instructions a steps = [.load 1 5, .shiftRight 1 1, .jumpOffset 0x0FF] := by
    decide +kernel
  refine ⟨executed, (dialects_show a b).2.2 c steps ?_⟩
  rw [executed]
  simp only [List.forall_mem_cons]
  exact ⟨not_false, fun shift => shift.2 rfl, fun jump => absurd jump.2 (by decide),
    fun _ mem => absurd mem List.not_mem_nil⟩

end Console

end Chip8
