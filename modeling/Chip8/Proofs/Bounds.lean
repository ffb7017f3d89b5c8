import Chip8.Proofs.Step

/-!
# What no run can exceed

The counter can leave the program space: an instruction at the top is fetched with its
second byte from the bottom and leaves it at `0x1001`, a skip there at `0x1003`, and a
jump with an offset reaches `0x10FE`. It gets no further, since nothing is fetched out
there. `Machine.InBounds` says so, together with what it rests on: a mark is left only
by an instruction that was fetched, and so is a return address, so both are found
behind a place where something was fetched, `IsBehind`.

`inBounds_perform` is the step and `Reachable.inBounds` the run; `bounds_after` adds
what follows about the three additions on addresses, none of which ever wraps.
-/

namespace Chip8

/-- The address lies behind one at which an instruction can be fetched. -/
def IsBehind (a : UInt16) : Prop := 0x202 ≤ a.toNat ∧ a.toNat ≤ 0x1001

/-- The bounds that a machine keeps to. -/
structure Machine.InBounds (m : Machine) : Prop where
  counter : m.counter.toNat ≤ 0x10FE
  mark : m.skipPending = true → IsBehind m.counter
  depth : m.stack.length ≤ 1792
  returns : ∀ a ∈ m.stack, IsBehind a
  holds : ∀ key, (m.keypad.count key).toNat ≤ 4

/-! ## Adding to an address -/

theorem toNat_add_of_lt {a b : UInt16} (h : a.toNat + b.toNat < 65536) :
    (a + b).toNat = a.toNat + b.toNat := by
  rw [UInt16.toNat_add]
  exact Nat.mod_eq_of_lt h

theorem toNat_ofTarget (target : Target) : (UInt16.ofNat target.val).toNat = target.val := by
  have ht := target.isLt
  apply UInt16.toNat_ofNat_of_lt'
  show _ < 65536
  omega

theorem toNat_ofTarget_add (target : Target) (byte : UInt8) :
    (UInt16.ofNat target.val + byte.toUInt16).toNat = target.val + byte.toNat := by
  have ht := target.isLt
  have hb := byte.toNat_lt
  have hsum : (UInt16.ofNat target.val).toNat + byte.toUInt16.toNat = target.val + byte.toNat := by
    rw [toNat_ofTarget, UInt8.toNat_toUInt16]
  rw [toNat_add_of_lt (by omega), hsum]

namespace Machine

theorem inProgram_iff {a : UInt16} : InProgram a ↔ 0x200 ≤ a.toNat ∧ a.toNat < 0x1000 := by
  rw [InProgram, UInt16.le_iff_toNat_le, UInt16.lt_iff_toNat_lt]
  exact Iff.rfl

theorem isBehind_next {a : UInt16} (h : InProgram a) : IsBehind (a + 2) := by
  obtain ⟨low, high⟩ := inProgram_iff.mp h
  have hsum : (a + 2).toNat = a.toNat + 2 := toNat_add_of_lt (show a.toNat + 2 < 65536 by omega)
  constructor
  · omega
  · omega

/-! ## The machine -/

variable {m m' : Machine}

theorem inBounds_new (random : Keystream) : (Machine.new random).InBounds where
  counter := by
    show Memory.programStart.toNat ≤ 0x10FE
    decide
  mark := by intro h; cases h
  depth := Nat.zero_le _
  returns := by intro a ha; cases ha
  holds := by
    intro key
    have h : (Machine.new random).keypad.count key = 0 := Keypad.count_released key
    rw [h]
    decide

theorem toNat_nextAddress_le (h : m.InBounds) : m.nextAddress.toNat ≤ 0x10FE := by
  unfold nextAddress
  split
  · next mark =>
    obtain ⟨-, high⟩ := h.mark mark
    rw [toNat_add_of_lt (show m.counter.toNat + 2 < 65536 by omega)]
    show m.counter.toNat + 2 ≤ 0x10FE
    omega
  · exact h.counter

theorem inBounds_settleSkip (h : m.InBounds) : m.settleSkip.InBounds := by
  rw [settleSkip_eq]
  exact
    { counter := toNat_nextAddress_le h
      mark := by intro hm; cases hm
      depth := h.depth
      returns := h.returns
      holds := h.holds }

theorem inBounds_taken (h : m.InBounds) (bounds : InProgram m.nextAddress) : m.taken.InBounds where
  counter := by
    obtain ⟨-, high⟩ := isBehind_next bounds
    exact Nat.le_trans high (by decide)
  mark := by intro hm; cases hm
  depth := h.depth
  returns := h.returns
  holds := h.holds

/-- Behind a fetch every move of an instruction stays within the bounds. -/
theorem inBounds_of_moves {i : Instruction} (h : m.InBounds) (behind : IsBehind m.counter)
    (unmarked : m.skipPending = false) (keypad : m'.keypad = m.keypad) (moves : Moves m i m') :
    m'.InBounds := by
  have holds : ∀ key, (m'.keypad.count key).toNat ≤ 4 := by rw [keypad]; exact h.holds
  have noMark (same : m'.skipPending = m.skipPending) :
      m'.skipPending = true → IsBehind m'.counter := by
    intro marked
    rw [same, unmarked] at marked
    cases marked
  have kept (same : m'.stack = m.stack) :
      m'.stack.length ≤ 1792 ∧ ∀ a ∈ m'.stack, IsBehind a := by
    rw [same]
    exact ⟨h.depth, h.returns⟩
  cases moves with
  | on counter stack mark =>
    obtain ⟨depth, returns⟩ := kept stack
    exact ⟨by rw [counter]; exact h.counter, noMark mark, depth, returns, holds⟩
  | skip _ counter stack =>
    -- the one move that leaves a mark, and the counter is behind the fetch
    obtain ⟨depth, returns⟩ := kept stack
    have behind' : IsBehind m'.counter := by rw [counter]; exact behind
    exact ⟨Nat.le_trans behind'.2 (by decide), fun _ => behind', depth, returns, holds⟩
  | goTo target counter stack mark =>
    obtain ⟨depth, returns⟩ := kept stack
    have ht := target.isLt
    have low : m'.counter.toNat ≤ 0x10FE := by rw [counter, toNat_ofTarget]; omega
    exact ⟨low, noMark mark, depth, returns, holds⟩
  | goBehind target byte counter stack mark =>
    obtain ⟨depth, returns⟩ := kept stack
    have ht := target.isLt
    have hb := byte.toNat_lt
    have low : m'.counter.toNat ≤ 0x10FE := by rw [counter, toNat_ofTarget_add]; omega
    exact ⟨low, noMark mark, depth, returns, holds⟩
  | call target _ room counter stack mark =>
    -- what is remembered is the counter, which is behind the fetch
    have ht := target.isLt
    have low : m'.counter.toNat ≤ 0x10FE := by rw [counter, toNat_ofTarget]; omega
    have depth : m'.stack.length ≤ 1792 := by rw [stack]; exact room
    have returns : ∀ a ∈ m'.stack, IsBehind a := by
      rw [stack]
      intro a ha
      rcases List.mem_cons.mp ha with rfl | ha
      · exact behind
      · exact h.returns a ha
    exact ⟨low, noMark mark, depth, returns, holds⟩
  | ret _ top mark =>
    have returned : IsBehind m'.counter := h.returns _ (by rw [top]; exact List.mem_cons_self)
    have depth : m'.stack.length ≤ 1792 := by
      have := h.depth
      rw [top, List.length_cons] at this
      omega
    have returns : ∀ a ∈ m'.stack, IsBehind a :=
      fun a ha => h.returns a (by rw [top]; exact List.mem_cons_of_mem _ ha)
    exact ⟨Nat.le_trans returned.2 (by decide), noMark mark, depth, returns, holds⟩

theorem inBounds_execute {dialect : Dialect} {i : Instruction} (h : m.InBounds)
    (bounds : InProgram m.nextAddress)
    (executed : m.taken.execute dialect ⟨m.nextAddress, m.nextWord, i⟩ = .ok m') :
    m'.InBounds := by
  obtain ⟨moves, keypad, -⟩ := moves_of_execute executed
  exact inBounds_of_moves (inBounds_taken h bounds) (isBehind_next bounds) rfl keypad moves

/-! ## The keypad -/

theorem holds_press {k : Keypad} (h : ∀ key, (k.count key).toNat ≤ 4) (pressed : Key) :
    ∀ key, ((k.press pressed).count key).toNat ≤ 4 := by
  intro key
  rw [Keypad.count_press]
  split
  · decide
  · exact h key

theorem holds_age {k : Keypad} (h : ∀ key, (k.count key).toNat ≤ 4) :
    ∀ key, (k.age.count key).toNat ≤ 4 := by
  intro key
  rw [Keypad.count_age]
  split
  · decide
  · next up =>
    have down : 1 ≤ (k.count key) := by
      rw [UInt8.le_iff_toNat_le]
      have : (k.count key).toNat ≠ 0 := fun hz => up (UInt8.toNat_inj.mp hz)
      show 1 ≤ _
      omega
    rw [UInt8.toNat_sub_of_le _ _ down]
    exact Nat.le_trans (Nat.sub_le _ _) (h key)

theorem holds_ages {k k' : Keypad} (h : ∀ key, (k.count key).toNat ≤ 4)
    (ages : Console.Ages k k') : ∀ key, (k'.count key).toNat ≤ 4 := by
  cases ages with
  | kept => exact h
  | aged => exact holds_age h
  | pressed key => exact holds_press (holds_age h) key

theorem inBounds_waiting (h : m.InBounds) : m.waiting.InBounds :=
  { h with
    holds := by
      intro key
      show (Keypad.released.count key).toNat ≤ 4
      rw [Keypad.count_released]
      decide }

theorem inBounds_answered (h : m.InBounds) (x : Register) (key : Key) :
    (m.answered x key).InBounds :=
  { h with holds := holds_press (inBounds_waiting h).holds key }

end Machine

/-! ## Steps and runs -/

namespace Console

theorem inBounds_cycle {dialect : Dialect} {c : Console} (h : c.machine.InBounds) :
    (c.cycle dialect).2.machine.InBounds := by
  cases cycle_cases dialect c with
  | outside _ _ console => rw [console]; exact Machine.inBounds_settleSkip h
  | undecodable bounds _ _ console => rw [console]; exact Machine.inBounds_taken h bounds
  | overflow bounds _ _ _ _ _ console => rw [console]; exact Machine.inBounds_taken h bounds
  | executed bounds _ _ _ _ executed _ _ console =>
    rw [console]
    exact Machine.inBounds_execute h bounds executed
  | waited bounds x _ _ waits =>
    have taken := Machine.inBounds_taken h bounds
    cases waits with
    | undrawn _ _ machine => rw [machine]; exact taken
    | unread _ _ _ machine | exit _ _ machine =>
      rw [machine]
      exact Machine.inBounds_waiting taken
    | key key _ _ machine => rw [machine]; exact Machine.inBounds_answered taken x key

theorem inBounds_perform {dialect : Dialect} {c : Console} (h : c.machine.InBounds) (step : Step) :
    (c.perform dialect step).2.machine.InBounds := by
  by_cases cycle : step = .cycle
  · subst cycle
    exact inBounds_cycle h
  · obtain ⟨_, _, keypad, _, _, ages, machine⟩ := perform_eq_of_ne_cycle dialect c cycle
    rw [machine]
    exact { h with holds := Machine.holds_ages h.holds ages }

theorem Reachable.inBounds {dialect : Dialect} {c : Console} (h : Reachable dialect c) :
    c.machine.InBounds := by
  induction h with
  | fresh random => exact Machine.inBounds_new random
  | step step _ ih => exact inBounds_perform ih step

/-- **The bounds of every run.** Whatever is done to a console, also after faults, its
machine keeps to the bounds, and so no addition on addresses wraps: not that of a skip,
not that behind a fetch, and not that of a jump with an offset. -/
theorem bounds_after (dialect : Dialect) (random : Keystream) (display : Display)
    (keys : KeySource) (log : Log) (steps : List Step) :
    let m := ((fresh random display keys log).after dialect steps).machine
    (m.counter.toNat ≤ 0x10FE ∧
      (m.skipPending = true → 0x202 ≤ m.counter.toNat ∧ m.counter.toNat ≤ 0x1001) ∧
      (m.stack.length ≤ 1792 ∧ ∀ a ∈ m.stack, 0x202 ≤ a.toNat ∧ a.toNat ≤ 0x1001) ∧
      ∀ key, (m.keypad.count key).toNat ≤ 4) ∧
    (m.skipPending = true → (m.counter + 2).toNat = m.counter.toNat + 2) ∧
    (Machine.InProgram m.nextAddress → (m.nextAddress + 2).toNat = m.nextAddress.toNat + 2) ∧
    ∀ (target : Target) (x : Register),
      (UInt16.ofNat target.val + (m.register x).toUInt16).toNat =
        target.val + (m.register x).toNat := by
  intro m
  have bounds : m.InBounds := ((Reachable.fresh random display keys log).after steps).inBounds
  refine ⟨⟨bounds.counter, bounds.mark, ⟨bounds.depth, bounds.returns⟩, bounds.holds⟩,
    ?_, ?_, ?_⟩
  · intro mark
    obtain ⟨-, high⟩ := bounds.mark mark
    exact toNat_add_of_lt (show m.counter.toNat + 2 < 65536 by omega)
  · intro inside
    obtain ⟨-, high⟩ := Machine.inProgram_iff.mp inside
    exact toNat_add_of_lt (show m.nextAddress.toNat + 2 < 65536 by omega)
  · intro target x
    exact toNat_ofTarget_add target _

end Console

end Chip8
