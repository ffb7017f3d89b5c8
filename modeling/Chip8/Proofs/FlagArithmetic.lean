import Chip8.Proofs.Step

/-!
# Results and flags

Addition, subtraction and the shifts leave a result in VX and a flag in VF, and X may be F
itself, or Y may. What is left in the registers is told here by whole numbers: both values
come from what VX and VY held before the instruction, and the flag is written last, so that
it is the flag that stays where one register is to hold both.

  * `means_add`, `means_sub`, `means_shiftRight`, `means_shiftLeft` — the result and the flag
    of each operation as numbers.
  * `register_setFlagged`, `register_setLogic` — every register after a result with its flag,
    and after a result of bitwise logic.

`flags_from_operands` says it for a cycle that executes one of these instructions.
-/

namespace Chip8

namespace Flagged

/-- The result and the flag are these numbers. -/
def Means (f : Flagged) (result flag : Int) : Prop :=
  (f.result.toNat : Int) = result ∧ (f.flagByte.toNat : Int) = flag

theorem toNat_flagByte (f : Flagged) :
    (f.flagByte.toNat : Int) = if f.flag = true then 1 else 0 := by
  unfold flagByte
  split
  · rfl
  · rfl

section
variable (a b s : UInt8)

theorem means_add :
    (add a b).Means (((a.toNat : Int) + b.toNat) % 256)
      (if 255 < (a.toNat : Int) + b.toNat then 1 else 0) := by
  have sum : (a + b).toNat = (a.toNat + b.toNat) % 256 := UInt8.toNat_add a b
  refine ⟨?_, ?_⟩
  · show ((a + b).toNat : Int) = _
    omega
  · have carry : 256 ≤ a.toNat + b.toNat ↔ 255 < (a.toNat : Int) + b.toNat := by omega
    rw [toNat_flagByte, add]
    simp only [decide_eq_true_eq, carry]

theorem means_sub :
    (sub a b).Means (((a.toNat : Int) - b.toNat) % 256)
      (if (a.toNat : Int) ≥ b.toNat then 1 else 0) := by
  have difference : (a - b).toNat = (256 - b.toNat + a.toNat) % 256 := UInt8.toNat_sub a b
  have low := b.toNat_lt
  refine ⟨?_, ?_⟩
  · show ((a - b).toNat : Int) = _
    omega
  · have noBorrow : b ≤ a ↔ (a.toNat : Int) ≥ b.toNat := by
      rw [UInt8.le_iff_toNat_le]
      omega
    rw [toNat_flagByte, sub]
    simp only [decide_eq_true_eq, noBorrow]

theorem means_shiftRight : (shiftRight s).Means ((s.toNat : Int) / 2) ((s.toNat : Int) % 2) := by
  have half : (s >>> 1).toNat = s.toNat / 2 := by
    rw [UInt8.toNat_shiftRight]
    exact Nat.shiftRight_eq_div_pow s.toNat 1
  refine ⟨?_, ?_⟩
  · show ((s >>> 1).toNat : Int) = _
    omega
  · rw [toNat_flagByte, shiftRight]
    simp only [decide_eq_true_eq]
    split
    · omega
    · omega

theorem means_shiftLeft :
    (shiftLeft s).Means ((2 * (s.toNat : Int)) % 256) ((s.toNat : Int) / 128) := by
  have twice : (s <<< 1).toNat = s.toNat * 2 % 256 := by
    rw [UInt8.toNat_shiftLeft]
    exact congrArg (· % 256) (Nat.shiftLeft_eq s.toNat 1)
  have low := s.toNat_lt
  refine ⟨?_, ?_⟩
  · show ((s <<< 1).toNat : Int) = _
    omega
  · rw [toNat_flagByte, shiftLeft]
    simp only [decide_eq_true_eq]
    split
    · omega
    · omega

end

end Flagged

namespace Machine

theorem register_setFlagged (m : Machine) (x r : Register) (f : Flagged) :
    (m.setFlagged x f).register r =
      if r = .flag then f.flagByte else if r = x then f.result else m.register r := by
  rw [setFlagged, register_setRegister, register_setRegister]

theorem register_setLogic (dialect : Dialect) (m : Machine) (x r : Register) (result : UInt8) :
    (m.setLogic dialect x result).register r =
      if dialect.resetFlag = true ∧ r = .flag then 0
      else if r = x then result else m.register r := by
  unfold setLogic
  simp only
  split
  · next reset =>
    simp only [register_setRegister, reset, true_and]
  · next keep =>
    have kept : ¬ (dialect.resetFlag = true ∧ r = .flag) := fun both => keep both.1
    rw [register_setRegister, if_neg kept]

end Machine

namespace Console

/-- A cycle from `c` goes on with `flag` in VF, `result` in VX unless that is VF, and in every
other register what was there before. -/
def LeavesFlagged (c : Console) (x : Register) (result flag : Int)
    (outcome : Except Fault Flow × Console) : Prop :=
  outcome.1 = .ok .proceed ∧
    ∀ r, ((outcome.2.machine.register r).toNat : Int) =
      if r = .flag then flag else if r = x then result else ((c.machine.register r).toNat : Int)

/-- A cycle from `c` goes on with `result` in VX and in every other register what was there
before, but for VF, which is zero in any case if `reset` says so. -/
def LeavesLogic (c : Console) (reset : Bool) (x : Register) (result : UInt8)
    (outcome : Except Fault Flow × Console) : Prop :=
  outcome.1 = .ok .proceed ∧
    ∀ r, outcome.2.machine.register r =
      if reset = true ∧ r = .flag then 0 else if r = x then result else c.machine.register r

section
variable {dialect : Dialect} {c : Console} {i : Instruction} {x : Register}

theorem leavesFlagged {f : Flagged} {result flag : Int} (executes : c.instruction? = some i)
    (noWait : ∀ x, i ≠ .waitKey x)
    (h : c.machine.taken.execute dialect ⟨c.machine.nextAddress, c.machine.nextWord, i⟩ =
      .ok (c.machine.taken.setFlagged x f))
    (means : f.Means result flag) : c.LeavesFlagged x result flag (c.cycle dialect) := by
  obtain ⟨proceeds, machine⟩ := cycle_of_execute executes noWait h
  refine ⟨proceeds, fun r => ?_⟩
  rw [machine, Machine.register_setFlagged, ← means.1, ← means.2]
  split
  · rfl
  · split
    · rfl
    · rfl

theorem leavesLogic {result : UInt8} (executes : c.instruction? = some i)
    (noWait : ∀ x, i ≠ .waitKey x)
    (h : c.machine.taken.execute dialect ⟨c.machine.nextAddress, c.machine.nextWord, i⟩ =
      .ok (c.machine.taken.setLogic dialect x result)) :
    c.LeavesLogic dialect.resetFlag x result (c.cycle dialect) := by
  obtain ⟨proceeds, machine⟩ := cycle_of_execute executes noWait h
  refine ⟨proceeds, fun r => ?_⟩
  rw [machine, Machine.register_setLogic]
  rfl

end

/-- **A result and its flag come from the operands, and the flag wins.** Let a cycle execute an
instruction on VX and VY, which hold `a` and `b` before it, and let `s` be what a shift works
on. Additions, subtractions and shifts leave these results in VX and these flags in VF, also
where X or Y is F; bitwise logic leaves its result in VX, and resets VF where the dialect says
so. All other registers are as they were. -/
theorem flags_from_operands (dialect : Dialect) (c : Console) (x y : Register) :
    let a : Int := (c.machine.register x).toNat
    let b : Int := (c.machine.register y).toNat
    let s : Int := if dialect.shiftInPlace then a else b
    let executes (i : Instruction) := c.instruction? = some i
    let flagged (result flag : Int) := c.LeavesFlagged x result flag (c.cycle dialect)
    let logic (result : UInt8) := c.LeavesLogic dialect.resetFlag x result (c.cycle dialect)
    (executes (.add x y) → flagged ((a + b) % 256) (if a + b > 255 then 1 else 0)) ∧
    (executes (.sub x y) → flagged ((a - b) % 256) (if a ≥ b then 1 else 0)) ∧
    (executes (.subFrom x y) → flagged ((b - a) % 256) (if b ≥ a then 1 else 0)) ∧
    (executes (.shiftRight x y) → flagged (s / 2) (s % 2)) ∧
    (executes (.shiftLeft x y) → flagged (2 * s % 256) (s / 128)) ∧
    (executes (.or x y) → logic (c.machine.register x ||| c.machine.register y)) ∧
    (executes (.and x y) → logic (c.machine.register x &&& c.machine.register y)) ∧
    (executes (.xor x y) → logic (c.machine.register x ^^^ c.machine.register y)) := by
  intro a b s executes flagged logic
  have source : ((c.machine.taken.shiftSource dialect x y).toNat : Int) = s := by
    show (((if dialect.shiftInPlace then c.machine.register x
      else c.machine.register y : UInt8).toNat : Nat) : Int) = if dialect.shiftInPlace then a else b
    split
    · rfl
    · rfl
  refine ⟨fun h => ?_, fun h => ?_, fun h => ?_, fun h => ?_, fun h => ?_, fun h => ?_,
    fun h => ?_, fun h => ?_⟩
  · exact leavesFlagged h (by simp) rfl (Flagged.means_add _ _)
  · exact leavesFlagged h (by simp) rfl (Flagged.means_sub _ _)
  · exact leavesFlagged h (by simp) rfl (Flagged.means_sub _ _)
  · refine leavesFlagged h (by simp) rfl ?_
    rw [← source]
    exact Flagged.means_shiftRight _
  · refine leavesFlagged h (by simp) rfl ?_
    rw [← source]
    exact Flagged.means_shiftLeft _
  · exact leavesLogic h (by simp) rfl
  · exact leavesLogic h (by simp) rfl
  · exact leavesLogic h (by simp) rfl

/-- VF is added to itself and keeps the carry; it is combined with V0 and reset. -/
theorem flags_from_operands_in_flag :
    let set (program : List UInt8) := (fresh (.ofSeed 0) {} {} {}).after {} [.load program, .cycle]
    let adds := set [0x6F, 0xC8, 0x8F, 0xF4]
    let combines := set [0x6F, 0xC8, 0x8F, 0x01]
    (adds.instruction? = some (.add .flag .flag) ∧ adds.machine.register .flag = 200 ∧
      (((adds.cycle {}).2.machine.register .flag).toNat : Int) = 1) ∧
    (combines.instruction? = some (.or .flag 0) ∧ combines.machine.register .flag = 200 ∧
      (combines.cycle { resetFlag := true }).2.machine.register .flag = 0) := by
  intro set adds combines
  obtain ⟨added, held, combined, held'⟩ : adds.instruction? = some (.add .flag .flag) ∧
      adds.machine.register .flag = 200 ∧ combines.instruction? = some (.or .flag 0) ∧
      combines.machine.register .flag = 200 := by decide +kernel
  clear_value adds combines
  obtain ⟨-, carry⟩ := (flags_from_operands {} adds .flag .flag).1 added
  obtain ⟨-, -, -, -, -, logic, -⟩ := flags_from_operands { resetFlag := true } combines .flag 0
  obtain ⟨-, reset⟩ := logic combined
  refine ⟨⟨added, held, ?_⟩, combined, held', ?_⟩
  · rw [carry .flag, held]
    decide
  · rw [reset .flag]
    exact if_pos ⟨rfl, rfl⟩

end Console

end Chip8
