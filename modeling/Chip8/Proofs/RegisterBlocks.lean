import Chip8.Proofs.MemoryCells
import Chip8.Proofs.Ownership

/-!
# Blocks of registers in memory

V0 to VX are stored into and loaded from the X + 1 cells at I. Neither the top of memory nor
that of the sixteen bits of I is an obstacle: both wrap, and as there are no more than sixteen
registers no two of them meet in a cell. Storing and loading are therefore each other's
inverse wherever I points.

  * `BlockStored`, `BlockLoaded`, `DigitsStored` — what the three instructions that move bytes
    between registers and memory do to a machine, and that they do it (`blockStored`,
    `blockLoaded`, `digitsStored`).
  * `BlockLoaded.restores`, `BlockStored.restores` — the one after the other, by what is said
    about each of them alone.

`registers_through_memory` says it for cycles that execute these instructions.
-/

namespace Chip8

open Memory (behind)

namespace Machine

/-- I is moved behind the register block up to VX, unless the dialect keeps it. -/
def IndexMoved (dialect : Dialect) (x : Register) (m m' : Machine) : Prop :=
  m'.index.toNat =
    if dialect.keepIndex then m.index.toNat else (m.index.toNat + x.val + 1) % 65536

/-- From `m` to `m'` the registers up to VX are stored at I. -/
structure BlockStored (dialect : Dialect) (x : Register) (m m' : Machine) : Prop where
  inside : ∀ r ≤ x, m'.memory.cells.get (behind m.index r.val) = m.register r
  outside : ∀ n, (∀ r ≤ x, n ≠ behind m.index r.val) →
    m'.memory.cells.get n = m.memory.cells.get n
  index : IndexMoved dialect x m m'

/-- From `m` to `m'` the registers up to VX are loaded from I. -/
structure BlockLoaded (dialect : Dialect) (x : Register) (m m' : Machine) : Prop where
  inside : ∀ r ≤ x, m'.register r = m.memory.cells.get (behind m.index r.val)
  above : ∀ r, x < r → m'.register r = m.register r
  memory : m'.memory = m.memory
  index : IndexMoved dialect x m m'

/-- From `m` to `m'` three decimal digits, which make up VX, are stored at I. -/
structure DigitsStored (x : Register) (m m' : Machine) : Prop where
  inside : ∃ hundreds ≤ 9, ∃ tens ≤ 9, ∃ ones ≤ 9,
    100 * hundreds + 10 * tens + ones = (m.register x).toNat ∧
    (m'.memory.cells.get (behind m.index 0)).toNat = hundreds ∧
    (m'.memory.cells.get (behind m.index 1)).toNat = tens ∧
    (m'.memory.cells.get (behind m.index 2)).toNat = ones
  outside : ∀ n, (∀ k < 3, n ≠ behind m.index k) →
    m'.memory.cells.get n = m.memory.cells.get n
  index : m'.index = m.index

section
variable (dialect : Dialect) (m : Machine) (x : Register)

/-! ## Each instruction alone -/

theorem indexMoved_advanceIndex {m' : Machine} (same : m'.index = m.index) :
    IndexMoved dialect x m (m'.advanceIndex dialect x) := by
  have hx := x.isLt
  unfold IndexMoved advanceIndex
  split
  · rw [same]
  · show (m'.index + UInt16.ofNat (x.val + 1)).toNat = _
    rw [same, UInt16.toNat_add, UInt16.toNat_ofNat']
    omega

theorem memory_advanceIndex : (m.advanceIndex dialect x).memory = m.memory := by
  rw [advanceIndex_eq]

theorem register_advanceIndex (r : Register) :
    (m.advanceIndex dialect x).register r = m.register r := by
  rw [advanceIndex_eq]
  rfl

theorem getElem_take_registers {r : Register}
    (lt : r.val < (m.registers.toList.take (x.val + 1)).length) :
    (m.registers.toList.take (x.val + 1))[r.val] = m.register r := by
  rw [List.getElem_take, Vector.getElem_toList]
  rfl

theorem blockStored : BlockStored dialect x m ((m.storeRegisters x).advanceIndex dialect x) := by
  have block := length_take_registers m x
  have hx := x.isLt
  refine ⟨fun r le => ?_, fun n outside => ?_, ?_⟩
  · have lt : r.val < (m.registers.toList.take (x.val + 1)).length := by
      rw [block]
      exact Nat.lt_succ_of_le le
    rw [memory_advanceIndex, storeRegisters, Memory.get_write_of_length_le (by omega) lt]
    exact getElem_take_registers m x lt
  · rw [memory_advanceIndex, storeRegisters]
    apply Memory.getElem_write_of_outside
    intro k lt
    rw [block] at lt
    exact outside ⟨k, by omega⟩ (Nat.le_of_lt_succ lt)
  · exact indexMoved_advanceIndex dialect m x rfl

theorem register_loadRegisters (r : Register) :
    (m.loadRegisters x).register r =
      if r ≤ x then m.memory.cells.get (behind m.index r.val) else m.register r := by
  rw [← Memory.get_add_ofNat]
  simp only [loadRegisters, register, Fin.getElem_fin, Vector.getElem_ofFn]

theorem blockLoaded : BlockLoaded dialect x m ((m.loadRegisters x).advanceIndex dialect x) := by
  refine ⟨fun r le => ?_, fun r above => ?_, ?_, ?_⟩
  · rw [register_advanceIndex, register_loadRegisters, if_pos le]
  · rw [register_advanceIndex, register_loadRegisters, if_neg (Fin.not_le.mpr above)]
  · rw [memory_advanceIndex, loadRegisters]
  · apply indexMoved_advanceIndex
    rw [loadRegisters]

/-- The digits of a byte are digits, and make up the byte. -/
theorem decimal_digits (value : UInt8) :
    ((value / 100).toNat ≤ 9 ∧ (value / 10 % 10).toNat ≤ 9 ∧ (value % 10).toNat ≤ 9) ∧
      100 * (value / 100).toNat + 10 * (value / 10 % 10).toNat + (value % 10).toNat =
        value.toNat := by
  have hundreds : (value / 100).toNat = value.toNat / 100 := UInt8.toNat_div value 100
  have tens : (value / 10 % 10).toNat = value.toNat / 10 % 10 := by
    rw [UInt8.toNat_mod, UInt8.toNat_div]
    rfl
  have ones : (value % 10).toNat = value.toNat % 10 := UInt8.toNat_mod value 10
  have low := value.toNat_lt
  omega

theorem digitsStored :
    DigitsStored x m
      { m with memory := m.memory.write m.index (decimalDigits (m.register x)) } := by
  obtain ⟨⟨hundreds, tens, ones⟩, sum⟩ := decimal_digits (m.register x)
  have stored (k : Nat) (lt : k < 3) :
      (m.memory.write m.index (decimalDigits (m.register x))).cells.get (behind m.index k) =
        (decimalDigits (m.register x)).get ⟨k, lt⟩ :=
    Memory.get_write_of_length_le (Nat.le_of_ble_eq_true rfl) lt
  refine ⟨⟨_, hundreds, _, tens, _, ones, sum, ?_, ?_, ?_⟩, fun n outside => ?_, rfl⟩
  · exact congrArg UInt8.toNat (stored 0 (by decide))
  · exact congrArg UInt8.toNat (stored 1 (by decide))
  · exact congrArg UInt8.toNat (stored 2 (by decide))
  · exact Memory.getElem_write_of_outside outside

end

/-! ## One after the other -/

section
variable {dialect dialect' : Dialect} {x : Register} {m m' n n' : Machine}

/-- What was stored is loaded again. -/
theorem BlockLoaded.restores (loaded : BlockLoaded dialect' x n n')
    (stored : BlockStored dialect x m m') (memory : n.memory = m'.memory)
    (index : n.index = m.index) {r : Register} (le : r ≤ x) : n'.register r = m.register r := by
  rw [loaded.inside r le, memory, index]
  exact stored.inside r le

/-- What was loaded is stored again where it came from. -/
theorem BlockStored.restores (stored : BlockStored dialect' x n n')
    (loaded : BlockLoaded dialect x m m') (memory : n.memory = m'.memory)
    (index : n.index = m.index) (registers : ∀ r ≤ x, n.register r = m'.register r) :
    n'.memory = m.memory := by
  apply Memory.ext_cells
  intro cell
  by_cases inside : ∃ r ≤ x, cell = behind m.index r.val
  · obtain ⟨r, le, rfl⟩ := inside
    rw [← index, stored.inside r le, registers r le, loaded.inside r le, index]
  · have outside : ∀ r ≤ x, cell ≠ behind n.index r.val := by
      intro r le same
      rw [index] at same
      exact inside ⟨r, le, same⟩
    rw [stored.outside cell outside, memory, loaded.memory]

end

end Machine

namespace Console

section
variable (dialect : Dialect) {c : Console} {x : Register}

/-! ## Cycles -/

theorem blockStored_cycle (executes : c.instruction? = some (.storeRegisters x)) :
    (c.cycle dialect).1 = .ok .proceed ∧
      c.machine.BlockStored dialect x (c.cycle dialect).2.machine := by
  obtain ⟨proceeds, machine⟩ := @cycle_of_execute dialect _ _ _ executes (by simp) rfl
  rw [machine]
  have stored := c.machine.taken.blockStored dialect x
  exact ⟨proceeds, stored.inside, stored.outside, stored.index⟩

theorem blockLoaded_cycle (executes : c.instruction? = some (.loadRegisters x)) :
    (c.cycle dialect).1 = .ok .proceed ∧
      c.machine.BlockLoaded dialect x (c.cycle dialect).2.machine := by
  obtain ⟨proceeds, machine⟩ := @cycle_of_execute dialect _ _ _ executes (by simp) rfl
  rw [machine]
  have loaded := c.machine.taken.blockLoaded dialect x
  exact ⟨proceeds, loaded.inside, loaded.above, loaded.memory, loaded.index⟩

theorem digitsStored_cycle (executes : c.instruction? = some (.storeDecimal x)) :
    (c.cycle dialect).1 = .ok .proceed ∧
      c.machine.DigitsStored x (c.cycle dialect).2.machine := by
  obtain ⟨proceeds, machine⟩ := @cycle_of_execute dialect _ _ _ executes (by simp) rfl
  rw [machine]
  have stored := c.machine.taken.digitsStored x
  exact ⟨proceeds, stored.inside, stored.outside, stored.index⟩

end

/-- **Registers go through memory and come back.** A cycle that stores V0 to VX puts them into
the cells at I in order and leaves every other cell, one that loads them takes them from there
and leaves memory and the registers above; both move I by X + 1, or keep it if the dialect says
so. Where a store is followed by a load, or a load by a store, from the same I and with memory
as it was left, the registers and the memory are again what they were before the first of the
two. In a store that is followed by a load the registers may have changed in between. A cycle
that stores the digits of VX puts three digits that make up VX into the cells at I and leaves
every other cell, and I too. -/
theorem registers_through_memory (dialect : Dialect) (c : Console) (x : Register) :
    let m := c.machine
    let outcome := c.cycle dialect
    let m' := outcome.2.machine
    (c.instruction? = some (.storeRegisters x) →
      outcome.1 = .ok .proceed ∧ m.BlockStored dialect x m' ∧
      ∀ (dialect' : Dialect) (later : Console), later.instruction? = some (.loadRegisters x) →
        later.machine.memory = m'.memory → later.machine.index = m.index →
        ∀ r ≤ x, (later.cycle dialect').2.machine.register r = m.register r) ∧
    (c.instruction? = some (.loadRegisters x) →
      outcome.1 = .ok .proceed ∧ m.BlockLoaded dialect x m' ∧
      ∀ (dialect' : Dialect) (later : Console), later.instruction? = some (.storeRegisters x) →
        later.machine.memory = m'.memory → later.machine.index = m.index →
        (∀ r ≤ x, later.machine.register r = m'.register r) →
        (later.cycle dialect').2.machine.memory = m.memory) ∧
    (c.instruction? = some (.storeDecimal x) →
      outcome.1 = .ok .proceed ∧ m.DigitsStored x m') := by
  intro m outcome m'
  refine ⟨fun executes => ?_, fun executes => ?_, digitsStored_cycle dialect⟩
  · obtain ⟨proceeds, stored⟩ := blockStored_cycle dialect executes
    refine ⟨proceeds, stored, fun dialect' later again memory index r le => ?_⟩
    obtain ⟨-, loaded⟩ := blockLoaded_cycle dialect' again
    exact loaded.restores stored memory index le
  · obtain ⟨proceeds, loaded⟩ := blockLoaded_cycle dialect executes
    refine ⟨proceeds, loaded, fun dialect' later again memory index registers => ?_⟩
    obtain ⟨-, stored⟩ := blockStored_cycle dialect' again
    exact stored.restores loaded memory index registers

/-- From `I = FFFE` the cells of V0 to V3 are `FFE`, `FFF`, `000` and `001`: they are stored and
loaded over other values, loaded and stored, and VA is stored as 2, 0 and 8. -/
theorem registers_through_memory_over_top :
    let start (program : List UInt8) :=
      let c := (fresh (.ofSeed 0) {} {} {}).after {} [.load program]
      { c with machine := { c.machine with
          index := 0xFFFE, registers := Vector.ofFn fun r => UInt8.ofNat (r.val * 20 + 8) } }
    let stores := start [0xF3, 0x55, 0xF3, 0x65]
    let stored := (stores.cycle {}).2
    let loadsBack := { stored with machine := { stored.machine with
      index := stores.machine.index, registers := Vector.replicate 16 0xFF } }
    let loads := start [0xF3, 0x65, 0xF3, 0x55]
    let loaded := (loads.cycle {}).2
    let storesBack :=
      { loaded with machine := { loaded.machine with index := loads.machine.index } }
    let digits := start [0xFA, 0x33]
    (stores.instruction? = some (.storeRegisters 3) ∧
      loadsBack.instruction? = some (.loadRegisters 3) ∧
      stored.machine.memory.cells.get 0x001 = 68 ∧ stored.machine.index = 2 ∧
      (loadsBack.cycle {}).2.machine.register 3 = 68) ∧
    (loads.instruction? = some (.loadRegisters 3) ∧
      storesBack.instruction? = some (.storeRegisters 3) ∧
      (storesBack.cycle {}).2.machine.memory = loads.machine.memory) ∧
    (digits.instruction? = some (.storeDecimal 0xA) ∧
      (digits.cycle {}).2.machine.memory.cells.get 0x002 = digits.machine.memory.cells.get 0x002) := by
  intro start stores stored loadsBack loads loaded storesBack digits
  obtain ⟨held, index, executes, executes', executes'', again, again'⟩ :
      stores.machine.register 3 = 68 ∧ stores.machine.index = 0xFFFE ∧
      stores.instruction? = some (.storeRegisters 3) ∧
      loads.instruction? = some (.loadRegisters 3) ∧
      digits.instruction? = some (.storeDecimal 0xA) ∧
      loadsBack.instruction? = some (.loadRegisters 3) ∧
      storesBack.instruction? = some (.storeRegisters 3) := by
    decide +kernel
  obtain ⟨-, block, loadsAgain⟩ := (registers_through_memory {} stores 3).1 executes
  obtain ⟨-, -, storesAgain⟩ := (registers_through_memory {} loads 3).2.1 executes'
  obtain ⟨-, decimal⟩ := (registers_through_memory {} digits 0xA).2.2 executes''
  have last : (3 : Register) ≤ 3 := by decide
  have restored := loadsAgain {} loadsBack again rfl rfl 3 last
  have restored' := storesAgain {} storesBack again' rfl rfl fun _ _ => rfl
  have kept := decimal.outside 0x002
  have digitsAt : digits.machine.index = 0xFFFE := rfl
  clear_value stores loads digits
  refine ⟨⟨executes, again, ?_, ?_, ?_⟩, ⟨executes', again', restored'⟩, executes'', ?_⟩
  · have first := block.inside 3 last
    rw [held, index] at first
    exact first
  · have moved := block.index
    unfold Machine.IndexMoved at moved
    rw [index] at moved
    exact UInt16.toNat_inj.mp moved
  · rw [restored, held]
  · apply kept
    rw [digitsAt]
    decide

end Console

end Chip8
