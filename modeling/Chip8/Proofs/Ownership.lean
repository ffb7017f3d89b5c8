import Chip8.Proofs.Bounds

/-!
# What each instruction may write

`Part` names the places where a machine holds something, single cells and registers among
them, and `Instruction.owned` lists for each instruction those that it may write. All
others are after a cycle as the fetch left them, and the fetch itself moves the counter,
takes the mark off and remembers the word. The devices are touched only while a key is
waited for.

  * `Writes` — a change of the machine stays within some parts; changes made one after
    the other stay within the parts of both (`Writes.trans`).
  * `writes_setRegister` and its like — one lemma for each way in which an instruction writes.
  * `writes_execute`, `writes_of_waits` — an instruction stays within the parts that it owns.

`cycle_writes_owned` is what follows for a cycle.
-/

namespace Chip8

/-- A place where a machine holds something. -/
inductive Part where
  | cell (number : ThreeDigits)
  | register (x : Register)
  | index
  | counter
  | stack
  | mark
  | lastWord
  | delayTimer
  | soundTimer
  | keypad
  | picture
  | pending
  | random
  deriving DecidableEq, Repr

namespace Part

/-- The cells of so many bytes from an address on. -/
def cells (address : UInt16) (count : Nat) : List Part :=
  (List.range count).map fun k => .cell (Fin.ofNat 4096 (address.toNat + k))

/-- The registers up to VX. -/
def registersTo (x : Register) : List Part :=
  ((List.finRange 16).filter (· ≤ x)).map .register

/-- I, where storing and loading registers moves it. -/
def movedIndex (dialect : Dialect) : List Part :=
  if dialect.keepIndex then [] else [.index]

/-- The flag, where bitwise logic resets it. -/
def resetFlag (dialect : Dialect) : List Part :=
  if dialect.resetFlag then [.register .flag] else []

theorem cell_mem_cells {address : UInt16} {count : Nat} {n : ThreeDigits} :
    .cell n ∈ cells address count ↔ ∃ k < count, n = Fin.ofNat 4096 (address.toNat + k) := by
  simp [cells, eq_comm]

theorem register_mem_registersTo {x r : Register} : .register r ∈ registersTo x ↔ r ≤ x := by
  simp [registersTo]

theorem notMem_movedIndex {part : Part} (h : part ≠ .index) (dialect : Dialect) :
    part ∉ movedIndex dialect := by
  unfold movedIndex
  split <;> simp [h]

theorem notMem_resetFlag {part : Part} (h : part ≠ .register .flag) (dialect : Dialect) :
    part ∉ resetFlag dialect := by
  unfold resetFlag
  split <;> simp [h]

end Part

/-- The parts of a machine that an instruction may write, when it is executed there. -/
def Instruction.owned (dialect : Dialect) (m : Machine) : Instruction → List Part
  | .hostCall _ => []
  | .clear => [.picture, .pending]
  | .ret => if m.stack.isEmpty then [] else [.counter, .stack]
  | .jump _ | .jumpOffset _ => [.counter]
  | .call _ => [.counter, .stack]
  | .skipIfByte _ _ | .skipUnlessByte _ _ | .skipIfSame _ _ | .skipUnlessSame _ _
  | .skipIfKey _ | .skipUnlessKey _ => [.mark]
  | .load x _ | .increase x _ | .copy x _ | .readDelay x => [.register x]
  | .or x _ | .and x _ | .xor x _ => .register x :: Part.resetFlag dialect
  | .add x _ | .sub x _ | .subFrom x _ | .shiftRight x _ | .shiftLeft x _ =>
    [.register x, .register .flag]
  | .random x _ => [.random, .register x]
  | .draw _ _ _ => [.picture, .pending, .register .flag]
  | .waitKey x => [.pending, .keypad, .delayTimer, .soundTimer, .register x]
  | .loadIndex _ | .addIndex _ | .loadGlyph _ => [.index]
  | .setDelay _ => [.delayTimer]
  | .setSound _ => [.soundTimer]
  | .storeDecimal _ => Part.cells m.index 3
  | .storeRegisters x => Part.cells m.index (x.val + 1) ++ Part.movedIndex dialect
  | .loadRegisters x => Part.registersTo x ++ Part.movedIndex dialect

namespace Machine

/-- Two machines hold the same in a part. -/
def SameIn (m m' : Machine) : Part → Prop
  | .cell n => m'.memory.cells.get n = m.memory.cells.get n
  | .register x => m'.register x = m.register x
  | .index => m'.index = m.index
  | .counter => m'.counter = m.counter
  | .stack => m'.stack = m.stack
  | .mark => m'.skipPending = m.skipPending
  | .lastWord => m'.lastWord = m.lastWord
  | .delayTimer => m'.delayTimer = m.delayTimer
  | .soundTimer => m'.soundTimer = m.soundTimer
  | .keypad => m'.keypad = m.keypad
  | .picture => m'.frame.picture = m.frame.picture
  | .pending => m'.frame.pending = m.frame.pending
  | .random => m'.random = m.random

/-- From `m` to `m'` nothing is written outside of some parts. -/
def Writes (parts : List Part) (m m' : Machine) : Prop := ∀ part ∉ parts, m.SameIn m' part

theorem sameIn_refl (m : Machine) (part : Part) : m.SameIn m part := by
  cases part <;> rfl

theorem SameIn.trans {m m' m'' : Machine} {part : Part} (h : m.SameIn m' part)
    (h' : m'.SameIn m'' part) : m.SameIn m'' part := by
  cases part <;> exact Eq.trans h' h

theorem Writes.refl (m : Machine) : Writes [] m m := fun part _ => m.sameIn_refl part

theorem Writes.trans {first second : List Part} {m m' m'' : Machine} (h : Writes first m m')
    (h' : Writes second m' m'') : Writes (first ++ second) m m'' := by
  intro part outside
  rw [List.mem_append, not_or] at outside
  exact (h part outside.1).trans (h' part outside.2)

theorem Writes.mono {parts more : List Part} {m m' : Machine} (h : Writes parts m m')
    (sub : ∀ part ∈ parts, part ∈ more) : Writes more m m' :=
  fun part outside => h part fun mem => outside (sub part mem)

/-! ## Each way of writing -/

section
variable (m : Machine)

theorem writes_setRegister (x : Register) (value : UInt8) :
    Writes [.register x] m (m.setRegister x value) := by
  intro part outside
  cases part with
  | register r =>
    have other : r ≠ x := fun same => outside (same ▸ List.mem_singleton_self _)
    exact (m.register_setRegister x r value).trans (if_neg other)
  | _ => rfl

theorem writes_setFlagged (x : Register) (f : Flagged) :
    Writes [.register x, .register .flag] m (m.setFlagged x f) :=
  (m.writes_setRegister x f.result).trans (writes_setRegister _ .flag f.flagByte)

theorem writes_setLogic (dialect : Dialect) (x : Register) (result : UInt8) :
    Writes (.register x :: Part.resetFlag dialect) m (m.setLogic dialect x result) := by
  unfold setLogic Part.resetFlag
  simp only
  split
  · exact (m.writes_setRegister x result).trans (writes_setRegister _ .flag 0)
  · exact m.writes_setRegister x result

theorem writes_index (index : UInt16) : Writes [.index] m { m with index } := by
  intro part outside
  cases part with
  | index => exact absurd (List.mem_singleton_self _) outside
  | _ => rfl

theorem writes_advanceIndex (dialect : Dialect) (x : Register) :
    Writes (Part.movedIndex dialect) m (m.advanceIndex dialect x) := by
  unfold advanceIndex Part.movedIndex
  split
  · exact .refl m
  · exact m.writes_index _

theorem writes_counter (counter : UInt16) : Writes [.counter] m { m with counter } := by
  intro part outside
  cases part with
  | counter => exact absurd (List.mem_singleton_self _) outside
  | _ => rfl

theorem writes_stack (stack : List UInt16) : Writes [.stack] m { m with stack } := by
  intro part outside
  cases part with
  | stack => exact absurd (List.mem_singleton_self _) outside
  | _ => rfl

theorem writes_skipIf (condition : Bool) : Writes [.mark] m (m.skipIf condition) := by
  intro part outside
  cases part with
  | mark => exact absurd (List.mem_singleton_self _) outside
  | _ => rfl

theorem writes_frame (frame : Frame) : Writes [.picture, .pending] m { m with frame } := by
  intro part outside
  cases part with
  | picture | pending => exact absurd (by simp) outside
  | _ => rfl

theorem writes_random (random : Keystream) : Writes [.random] m { m with random } := by
  intro part outside
  cases part with
  | random => exact absurd (List.mem_singleton_self _) outside
  | _ => rfl

theorem writes_delayTimer (delayTimer : UInt8) :
    Writes [.delayTimer] m { m with delayTimer } := by
  intro part outside
  cases part with
  | delayTimer => exact absurd (List.mem_singleton_self _) outside
  | _ => rfl

theorem writes_soundTimer (soundTimer : UInt8) :
    Writes [.soundTimer] m { m with soundTimer } := by
  intro part outside
  cases part with
  | soundTimer => exact absurd (List.mem_singleton_self _) outside
  | _ => rfl

theorem writes_memory (address : UInt16) (bytes : List UInt8) :
    Writes (Part.cells address bytes.length) m
      { m with memory := m.memory.write address bytes } := by
  intro part outside
  cases part with
  | cell n =>
    apply Memory.getElem_write_of_outside
    intro k lt same
    exact outside (Part.cell_mem_cells.mpr ⟨k, lt, same⟩)
  | _ => rfl

theorem writes_loadRegisters (x : Register) :
    Writes (Part.registersTo x) m (m.loadRegisters x) := by
  intro part outside
  unfold loadRegisters
  cases part with
  | register r =>
    have above : ¬ r ≤ x := fun le => outside (Part.register_mem_registersTo.mpr le)
    simp [SameIn, register, above]
  | _ => rfl

theorem writes_settleSkip : Writes [.counter, .mark] m m.settleSkip := by
  rw [settleSkip_eq]
  intro part outside
  cases part with
  | counter | mark => exact absurd (by simp) outside
  | _ => rfl

theorem writes_taken : Writes [.counter, .mark, .lastWord] m m.taken := by
  intro part outside
  cases part with
  | counter | mark | lastWord => exact absurd (by simp) outside
  | _ => rfl

/-- What a wait for a key writes before the first code is read. -/
theorem writes_waiting :
    Writes [.pending, .keypad, .delayTimer, .soundTimer] m m.waiting := by
  intro part outside
  cases part with
  | pending | keypad | delayTimer | soundTimer => exact absurd (by simp) outside
  | _ => rfl

theorem writes_keypad (keypad : Keypad) : Writes [.keypad] m { m with keypad } := by
  intro part outside
  cases part with
  | keypad => exact absurd (List.mem_singleton_self _) outside
  | _ => rfl

end

/-! ## Instructions -/

theorem length_take_registers (m : Machine) (x : Register) :
    (m.registers.toList.take (x.val + 1)).length = x.val + 1 := by
  have hx := x.isLt
  rw [List.length_take, Vector.length_toList]
  omega

theorem writes_execute {dialect : Dialect} {f : Fetched} {m m' : Machine}
    (h : m.execute dialect f = .ok m') : Writes (f.instruction.owned dialect m) m m' := by
  obtain ⟨address, word, i⟩ := f
  cases i
  case call target =>
    rcases Nat.lt_or_ge m.stack.length stackLimit with room | full
    · rw [execute_call dialect address word target room] at h
      obtain rfl := Except.ok.inj h
      have pushed := m.writes_stack (m.counter :: m.stack)
      exact (pushed.trans (writes_counter _ _)).mono (by simp [Instruction.owned])
    · rw [execute_call_full dialect address word target full] at h
      cases h
  case ret =>
    cases hs : m.stack with
    | nil =>
      rw [execute_ret_nil dialect address word hs] at h
      obtain rfl := Except.ok.inj h
      simp only [Instruction.owned, hs]
      exact .refl m
    | cons top rest =>
      rw [execute_ret_cons dialect address word hs] at h
      obtain rfl := Except.ok.inj h
      simp only [Instruction.owned, hs]
      exact (m.writes_counter top).trans (writes_stack _ rest)
  case hostCall | waitKey =>
    obtain rfl := Except.ok.inj h
    exact (Writes.refl m).mono (by simp)
  case clear =>
    obtain rfl := Except.ok.inj h
    exact m.writes_frame _
  case jump | jumpOffset =>
    obtain rfl := Except.ok.inj h
    exact m.writes_counter _
  case skipIfByte | skipUnlessByte | skipIfSame | skipUnlessSame | skipIfKey | skipUnlessKey =>
    obtain rfl := Except.ok.inj h
    exact m.writes_skipIf _
  case load | increase | copy | readDelay =>
    obtain rfl := Except.ok.inj h
    exact m.writes_setRegister _ _
  case or | and | xor =>
    obtain rfl := Except.ok.inj h
    exact m.writes_setLogic dialect _ _
  case add | sub | subFrom | shiftRight | shiftLeft =>
    obtain rfl := Except.ok.inj h
    exact m.writes_setFlagged _ _
  case random =>
    obtain rfl := Except.ok.inj h
    exact (m.writes_random _).trans (writes_setRegister _ _ _)
  case draw =>
    obtain rfl := Except.ok.inj h
    exact (m.writes_frame _).trans (writes_setRegister _ _ _)
  case loadIndex | addIndex | loadGlyph =>
    obtain rfl := Except.ok.inj h
    exact m.writes_index _
  case setDelay =>
    obtain rfl := Except.ok.inj h
    exact m.writes_delayTimer _
  case setSound =>
    obtain rfl := Except.ok.inj h
    exact m.writes_soundTimer _
  case storeDecimal x =>
    obtain rfl := Except.ok.inj h
    exact m.writes_memory m.index (decimalDigits (m.register x))
  case storeRegisters x =>
    obtain rfl := Except.ok.inj h
    have stored := m.writes_memory m.index (m.registers.toList.take (x.val + 1))
    rw [length_take_registers] at stored
    exact stored.trans (writes_advanceIndex _ dialect x)
  case loadRegisters x =>
    obtain rfl := Except.ok.inj h
    exact (m.writes_loadRegisters x).trans (writes_advanceIndex _ dialect x)

theorem writes_answered (m : Machine) (x : Register) (key : Key) :
    Writes [.pending, .keypad, .delayTimer, .soundTimer, .register x] m (m.answered x key) := by
  have pressed := m.writes_waiting.trans (writes_keypad _ (Keypad.released.press key))
  exact (pressed.trans (writes_setRegister _ x _)).mono (by simp)

end Machine

namespace Console

open Machine (Writes)

/-- Waiting for a key stays within its parts, however it ends. -/
theorem writes_of_waits {c : Console} {x : Register} {outcome : Except Fault Flow × Console}
    (dialect : Dialect) (waits : Waits c x outcome) :
    Writes ((Instruction.waitKey x).owned dialect c.machine) c.machine outcome.2.machine := by
  cases waits with
  | undrawn _ _ machine =>
    rw [machine]
    exact (Writes.refl _).mono (by simp)
  | unread _ _ _ machine | exit _ _ machine =>
    rw [machine]
    exact c.machine.writes_waiting.mono (by simp [Instruction.owned])
  | key key _ _ machine =>
    rw [machine]
    exact c.machine.writes_answered x key

theorem writes_cycle (dialect : Dialect) {c : Console} {i : Instruction}
    (executes : c.instruction? = some i) :
    Writes (i.owned dialect c.machine) c.machine.taken (c.cycle dialect).2.machine := by
  obtain ⟨bounds, read⟩ := instruction?_eq_some_iff.mp executes
  cases cycle_cases dialect c with
  | outside outside => exact absurd bounds outside
  | undecodable _ unknown =>
    rw [read] at unknown
    cases unknown
  | overflow _ _ _ _ _ _ console =>
    rw [console]
    exact (Writes.refl _).mono (by simp)
  | executed _ j word _ m executed _ _ console =>
    obtain rfl : i = j := Option.some.inj (read.symm.trans word)
    rw [console]
    exact Machine.writes_execute executed
  | waited _ x word _ waits =>
    obtain rfl : i = .waitKey x := Option.some.inj (read.symm.trans word)
    exact writes_of_waits dialect waits

/-- A part that a fetch leaves alone, and the instruction too if there is one, is after a cycle
as it was before. -/
theorem sameIn_cycle (dialect : Dialect) {c : Console} {part : Part}
    (unfetched : part ∉ [.counter, .mark, .lastWord])
    (unowned : ∀ i, c.instruction? = some i → part ∉ i.owned dialect c.machine) :
    c.machine.SameIn (c.cycle dialect).2.machine part := by
  have taken : c.machine.SameIn c.machine.taken part := c.machine.writes_taken part unfetched
  cases executes : c.instruction? with
  | some i => exact taken.trans (writes_cycle dialect executes part (unowned i executes))
  | none =>
    have nothing {i : Instruction} (bounds : Machine.InProgram c.machine.nextAddress)
        (word : Instruction.ofWord? c.machine.nextWord = some i) : False := by
      rw [instruction?_eq_some_iff.mpr ⟨bounds, word⟩] at executes
      cases executes
    cases cycle_cases dialect c with
    | outside _ _ console =>
      rw [console]
      refine c.machine.writes_settleSkip part fun mem => unfetched ?_
      exact List.mem_append_left [.lastWord] mem
    | undecodable _ _ _ console =>
      rw [console]
      exact taken
    | overflow bounds _ word | executed bounds _ word | waited bounds _ word =>
      exact (nothing bounds word).elim

/-- No instruction but a wait for a key calls on a device. -/
theorem devices_cycle (dialect : Dialect) {c : Console} {i : Instruction}
    (executes : c.instruction? = some i) (noWait : ∀ x, i ≠ .waitKey x) :
    (c.cycle dialect).2.display = c.display ∧ (c.cycle dialect).2.keys = c.keys ∧
      (c.cycle dialect).2.calls = c.calls := by
  obtain ⟨-, read⟩ := instruction?_eq_some_iff.mp executes
  cases cycle_cases dialect c with
  | outside _ _ console | undecodable _ _ _ console | overflow _ _ _ _ _ _ console
  | executed _ _ _ _ _ _ _ _ console =>
    rw [console]
    exact ⟨rfl, rfl, rfl⟩
  | waited _ x word => exact absurd (Option.some.inj (read.symm.trans word)) (noWait x)

/-- **Every instruction writes only what it owns.** Let a cycle execute `i` at `a`. But for
the parts that `i` owns the machine is as the fetch left it: the counter at `a + 2`, the
mark taken off, the word remembered, and all else untouched. That holds also of a call that
finds the stack full and of a wait that fails or is left by the exit key. No instruction but
a wait for a key calls on a device. -/
theorem cycle_writes_owned (dialect : Dialect) (c : Console) (i : Instruction)
    (executes : c.instruction? = some i) :
    let a := c.machine.nextAddress
    let fetched :=
      { c.machine with counter := a + 2, skipPending := false, lastWord := c.machine.nextWord }
    let after := (c.cycle dialect).2
    (∀ part ∉ i.owned dialect c.machine, fetched.SameIn after.machine part) ∧
      (a + 2).toNat = a.toNat + 2 ∧
      ((∀ x, i ≠ .waitKey x) →
        after.display = c.display ∧ after.keys = c.keys ∧ after.calls = c.calls) := by
  intro a fetched after
  have bounds : Machine.InProgram a := (instruction?_eq_some_iff.mp executes).1
  obtain ⟨-, high⟩ := Machine.inProgram_iff.mp bounds
  have next : (a + 2).toNat = a.toNat + 2 :=
    toNat_add_of_lt (show a.toNat + 2 < 65536 by omega)
  exact ⟨writes_cycle dialect executes, next, devices_cycle dialect executes⟩

/-- Three digits stored at the top of memory reach the cells `FFF`, `000` and `001`. -/
theorem cycle_writes_owned_over_top :
    let c := (fresh (.ofSeed 0) {} {} {}).after {} [.load [0xAF, 0xFF, 0xF3, 0x33], .cycle]
    let after := (c.cycle {}).2
    c.instruction? = some (.storeDecimal 3) ∧
      (Instruction.storeDecimal 3).owned {} c.machine = [.cell 0xFFF, .cell 0x000, .cell 0x001] ∧
      after.machine.memory.cells[(0x002 : ThreeDigits)] =
        c.machine.memory.cells[(0x002 : ThreeDigits)] ∧
      after.machine.register 3 = c.machine.register 3 ∧
      after.machine.counter = c.machine.nextAddress + 2 := by
  intro c after
  obtain ⟨executes, owned⟩ : c.instruction? = some (.storeDecimal 3) ∧
      (Instruction.storeDecimal 3).owned {} c.machine =
        [.cell 0xFFF, .cell 0x000, .cell 0x001] := by decide +kernel
  -- from here on the run that led to the console does not matter
  clear_value c
  obtain ⟨kept, -, -⟩ := cycle_writes_owned {} c (.storeDecimal 3) executes
  rw [owned] at kept
  exact ⟨executes, owned, kept (.cell 0x002) (by decide), kept (.register 3) (by decide),
    kept .counter (by decide)⟩

end Console

end Chip8
