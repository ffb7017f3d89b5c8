import Chip8.Proofs.Bounds
import Chip8.Proofs.InstructionWord

/-!
# When a cycle fails, and what it leaves alone

A cycle fails on its own for three causes, and each cause is told from the console
before it: the address at which it fetches is outside the program space, the word found
there is no instruction's word, or it is a call and the stack is full. A device makes it
fail only while it waits for a key.

  * `outsideProgram_iff`, `undecodable_iff`, `stackOverflow_iff` — each fault is raised
    exactly when its cause is there.
  * `sameButPlace_of_fault` — all but the place in the program is as it was before the cycle.
  * `lastWord_after` — the word that a fault outside the program space tells of is the
    last one that the run fetched.
  * `Stuck.perform` — outside the program space no step leads back, so that every later
    cycle fails in the same way.

`cycle_after` puts them together for every run.
-/

namespace Chip8.Console

variable {dialect : Dialect} {c : Console}

/-! ## The word at an address -/

theorem toNat_word (m : Memory) (a : UInt16) :
    (m.word a).toNat =
      (m.cells.get (Fin.ofNat 4096 a.toNat)).toNat * 256 +
        (m.cells.get (Fin.ofNat 4096 (a.toNat + 1))).toNat := by
  have next : Memory.cell (a + 1) = Fin.ofNat 4096 (a.toNat + 1) := by
    apply Fin.ext
    rw [Memory.cell, Fin.val_ofNat, Fin.val_ofNat, UInt16.toNat_add]
    show (a.toNat + 1) % 65536 % 4096 = _
    omega
  have high := (m.get a).toNat_lt
  have low := (m.get (a + 1)).toNat_lt
  have word : (m.word a).toNat = (m.get a).toNat * 256 + (m.get (a + 1)).toNat := by
    apply UInt16.toNat_ofNat_of_lt'
    show _ < 65536
    omega
  have second : m.get (a + 1) = m.cells.get (Fin.ofNat 4096 (a.toNat + 1)) := by
    rw [← next]
    rfl
  rw [word, second]
  rfl

/-! ## Each fault and its cause -/

/-- Waiting for a key fails by a device or not at all. -/
theorem result_of_waits {x : Register} {outcome : Except Fault Flow × Console}
    (waits : Waits c x outcome) :
    (∃ flow, outcome.1 = .ok flow) ∨ ∃ reason, outcome.1 = .error (.device reason) := by
  cases waits with
  | undrawn reason result | unread reason _ result => exact .inr ⟨reason, result⟩
  | exit _ result => exact .inl ⟨.exit, result⟩
  | key _ _ result => exact .inl ⟨.proceed, result⟩

/-- Why a cycle fails. -/
inductive Fails (c : Console) (fault : Fault) : Prop where
  | outside (bounds : ¬ Machine.InProgram c.machine.nextAddress)
      (is : fault = .outsideProgram c.machine.nextAddress c.machine.lastWord)
  | undecodable (bounds : Machine.InProgram c.machine.nextAddress)
      (unknown : ∀ i : Instruction, i.toWord ≠ c.machine.nextWord)
      (is : fault = .undecodable c.machine.nextAddress c.machine.nextWord)
  | overflow (bounds : Machine.InProgram c.machine.nextAddress) (target : Target)
      (call : (Instruction.call target).toWord = c.machine.nextWord)
      (full : Machine.stackLimit ≤ c.machine.stack.length)
      (is : fault = .stackOverflow c.machine.nextAddress c.machine.nextWord)
  | device (bounds : Machine.InProgram c.machine.nextAddress) (x : Register)
      (wait : (Instruction.waitKey x).toWord = c.machine.nextWord) (reason : String)
      (is : fault = .device reason)

theorem fault_cases {fault : Fault} (h : (c.cycle dialect).1 = .error fault) : Fails c fault := by
  cases cycle_cases dialect c with
  | outside bounds result =>
    rw [result] at h
    exact .outside bounds (Except.error.inj h).symm
  | undecodable bounds unknown result =>
    rw [result] at h
    exact .undecodable bounds (Instruction.ofWord?_eq_none_iff.mp unknown) (Except.error.inj h).symm
  | overflow bounds target call full result =>
    rw [result] at h
    exact .overflow bounds target (Instruction.toWord_of_ofWord? call) full
      (Except.error.inj h).symm
  | executed _ _ _ _ _ _ result =>
    rw [result] at h
    cases h
  | waited bounds x wait _ waits =>
    rcases result_of_waits waits with ⟨_, result⟩ | ⟨reason, result⟩
    · rw [result] at h
      cases h
    · rw [result] at h
      exact .device bounds x (Instruction.toWord_of_ofWord? wait) reason (Except.error.inj h).symm

theorem outsideProgram_iff {address last : UInt16} :
    (c.cycle dialect).1 = .error (.outsideProgram address last) ↔
      ¬ Machine.InProgram c.machine.nextAddress ∧ address = c.machine.nextAddress ∧
        last = c.machine.lastWord := by
  constructor
  · intro h
    cases fault_cases h with
    | outside bounds is =>
      injection is with address last
      exact ⟨bounds, address, last⟩
    | undecodable _ _ is | overflow _ _ _ _ is | device _ _ _ _ is => cases is
  · rintro ⟨bounds, rfl, rfl⟩
    rw [cycle_outside bounds]

theorem undecodable_iff {address word : UInt16} :
    (c.cycle dialect).1 = .error (.undecodable address word) ↔
      Machine.InProgram c.machine.nextAddress ∧
        (∀ i : Instruction, i.toWord ≠ c.machine.nextWord) ∧
        address = c.machine.nextAddress ∧ word = c.machine.nextWord := by
  constructor
  · intro h
    cases fault_cases h with
    | undecodable bounds unknown is =>
      injection is with address word
      exact ⟨bounds, unknown, address, word⟩
    | outside _ is | overflow _ _ _ _ is | device _ _ _ _ is => cases is
  · rintro ⟨bounds, unknown, rfl, rfl⟩
    rw [cycle_undecodable bounds (Instruction.ofWord?_eq_none_iff.mpr unknown)]

theorem stackOverflow_iff {address word : UInt16} :
    (c.cycle dialect).1 = .error (.stackOverflow address word) ↔
      Machine.InProgram c.machine.nextAddress ∧
        (∃ target, (Instruction.call target).toWord = c.machine.nextWord) ∧
        Machine.stackLimit ≤ c.machine.stack.length ∧
        address = c.machine.nextAddress ∧ word = c.machine.nextWord := by
  constructor
  · intro h
    cases fault_cases h with
    | overflow bounds target call full is =>
      injection is with address word
      exact ⟨bounds, ⟨target, call⟩, full, address, word⟩
    | outside _ is | undecodable _ _ is | device _ _ _ _ is => cases is
  · rintro ⟨bounds, ⟨target, call⟩, full, rfl, rfl⟩
    have read : Instruction.ofWord? c.machine.nextWord = some (.call target) := by
      rw [← call]
      exact Instruction.ofWord?_toWord trivial
    have stuck : c.machine.taken.execute dialect
        ⟨c.machine.nextAddress, c.machine.nextWord, .call target⟩ =
          .error (.stackOverflow c.machine.nextAddress c.machine.nextWord) :=
      Machine.execute_call_full dialect _ _ target full
    rw [cycle_instruction bounds read, execute_of_ne_waitKey (fun x h => by cases h)]
    simp only [stuck]

theorem waits_of_device {reason : String} (h : (c.cycle dialect).1 = .error (.device reason)) :
    Machine.InProgram c.machine.nextAddress ∧
      ∃ x, (Instruction.waitKey x).toWord = c.machine.nextWord := by
  cases fault_cases h with
  | device bounds x wait => exact ⟨bounds, x, wait⟩
  | outside _ is | undecodable _ _ is | overflow _ _ _ _ is => cases is

/-- What is left when none of the three causes is there. -/
theorem ok_or_device (inside : Machine.InProgram c.machine.nextAddress)
    (known : ∃ i : Instruction, i.toWord = c.machine.nextWord)
    (room : ¬ ((∃ target, (Instruction.call target).toWord = c.machine.nextWord) ∧
      Machine.stackLimit ≤ c.machine.stack.length)) :
    (∃ flow, (c.cycle dialect).1 = .ok flow) ∨
      (∃ x, (Instruction.waitKey x).toWord = c.machine.nextWord) ∧
        ∃ reason, (c.cycle dialect).1 = .error (.device reason) := by
  cases result : (c.cycle dialect).1 with
  | ok flow => exact .inl ⟨flow, rfl⟩
  | error fault =>
    cases fault_cases result with
    | outside bounds => exact absurd inside bounds
    | undecodable _ unknown =>
      obtain ⟨i, word⟩ := known
      exact absurd word (unknown i)
    | overflow _ target call full => exact absurd ⟨⟨target, call⟩, full⟩ room
    | device _ x wait reason is => exact .inr ⟨⟨x, wait⟩, reason, congrArg Except.error is⟩

/-! ## What a fault leaves alone -/

/-- A console is as it was, but for where its machine is in the program and for the log. -/
structure SameButPlace (c c' : Console) : Prop where
  machine : c'.machine =
    { c.machine with
      counter := c'.machine.counter
      skipPending := c'.machine.skipPending
      lastWord := c'.machine.lastWord }
  display : c'.display = c.display
  keys : c'.keys = c.keys
  calls : c'.calls = c.calls

theorem sameButPlace_of_fault {fault : Fault} (h : (c.cycle dialect).1 = .error fault)
    (own : ∀ reason, fault ≠ .device reason) : SameButPlace c (c.cycle dialect).2 := by
  cases cycle_cases dialect c with
  | outside _ _ console =>
    rw [console, Machine.settleSkip_eq]
    exact ⟨rfl, rfl, rfl, rfl⟩
  | undecodable _ _ _ console | overflow _ _ _ _ _ _ console =>
    rw [console]
    exact ⟨rfl, rfl, rfl, rfl⟩
  | executed _ _ _ _ _ _ result =>
    rw [result] at h
    cases h
  | waited _ _ _ _ waits =>
    rcases result_of_waits waits with ⟨_, result⟩ | ⟨reason, result⟩
    · rw [result] at h
      cases h
    · rw [result] at h
      exact absurd (Except.error.inj h).symm (own reason)

/-! ## The word that was fetched last -/

theorem lastWord_perform (dialect : Dialect) (c : Console) (step : Step) :
    (c.perform dialect step).2.machine.lastWord =
      (c.wordOf? step).getD c.machine.lastWord := by
  by_cases cycle : step = .cycle
  · subst cycle
    show (c.cycle dialect).2.machine.lastWord = c.fetched?.getD _
    have fetches (bounds : Machine.InProgram c.machine.nextAddress) :
        c.fetched?.getD c.machine.lastWord = c.machine.nextWord := by
      rw [fetched?, if_pos bounds]
      rfl
    cases cycle_cases dialect c with
    | outside bounds _ console =>
      rw [console, fetched?, if_neg bounds, Machine.settleSkip_eq]
      rfl
    | undecodable bounds _ _ console | overflow bounds _ _ _ _ _ console =>
      rw [console, fetches bounds]
      rfl
    | executed bounds _ _ _ _ executed _ _ console =>
      obtain ⟨-, -, kept⟩ := Machine.moves_of_execute executed
      rw [console, fetches bounds]
      exact kept
    | waited bounds _ _ _ waits =>
      rw [fetches bounds]
      cases waits with
      | undrawn _ _ machine | unread _ _ _ machine | exit _ _ machine | key _ _ _ machine =>
        rw [machine]
        rfl
  · obtain ⟨_, _, _, _, _, -, machine⟩ := perform_eq_of_ne_cycle dialect c cycle
    have nothing : c.wordOf? step = none := by
      cases step with
      | cycle => exact absurd rfl cycle
      | tick | poll | render | load | shutdown => rfl
    rw [machine, nothing]
    rfl

theorem lastWord_after (dialect : Dialect) (c : Console) (steps : List Step) :
    (c.after dialect steps).machine.lastWord =
      (c.words dialect steps).getLastD c.machine.lastWord := by
  induction steps generalizing c with
  | nil => rfl
  | cons step rest ih =>
    show ((c.perform dialect step).2.after dialect rest).machine.lastWord =
      ((c.wordOf? step).toList ++ words dialect rest (c.perform dialect step).2).getLastD _
    rw [ih, lastWord_perform]
    -- where the step fetches nothing, what was fetched before it is still the last word
    cases c.wordOf? step with
    | none => rfl
    | some word => exact (List.getLastD_cons ..).symm

/-! ## Outside the program space -/

/-- The machine is to fetch at an address outside the program space. -/
structure Stuck (address last : UInt16) (c : Console) : Prop where
  bounds : ¬ Machine.InProgram address
  counter : c.machine.counter = address
  mark : c.machine.skipPending = false
  lastWord : c.machine.lastWord = last

namespace Stuck

variable {address last : UInt16}

theorem cycle (dialect : Dialect) (h : Stuck address last c) :
    c.cycle dialect = (.error (.outsideProgram address last), c) := by
  have next : c.machine.nextAddress = address := by
    rw [Machine.nextAddress, h.mark]
    exact h.counter
  have settled : c.machine.settleSkip = c.machine := by
    rw [Machine.settleSkip, h.mark]
    rfl
  rw [cycle_outside (by rw [next]; exact h.bounds), next, h.lastWord, settled]

theorem perform (dialect : Dialect) (h : Stuck address last c) (step : Step) :
    Stuck address last (c.perform dialect step).2 := by
  by_cases cycle : step = .cycle
  · subst cycle
    show Stuck address last (c.cycle dialect).2
    rw [h.cycle]
    exact h
  · obtain ⟨_, _, _, _, _, -, machine⟩ := perform_eq_of_ne_cycle dialect c cycle
    constructor
    · exact h.bounds
    · rw [machine]; exact h.counter
    · rw [machine]; exact h.mark
    · rw [machine]; exact h.lastWord

theorem after (dialect : Dialect) (h : Stuck address last c) (steps : List Step) :
    Stuck address last (c.after dialect steps) := by
  induction steps generalizing c with
  | nil => exact h
  | cons step rest ih => exact ih (h.perform dialect step)

end Stuck

theorem stuck_of_outsideProgram {address last : UInt16}
    (h : (c.cycle dialect).1 = .error (.outsideProgram address last)) :
    Stuck address last (c.cycle dialect).2 := by
  obtain ⟨bounds, rfl, rfl⟩ := outsideProgram_iff.mp h
  -- a skip that was pending is made before the address is looked at, and stays made
  rw [cycle_outside bounds, Machine.settleSkip_eq]
  exact ⟨bounds, rfl, rfl, rfl⟩

/-! ## Every run -/

theorem Reachable.toNat_nextAddress (h : Reachable dialect c) :
    c.machine.nextAddress.toNat =
      c.machine.counter.toNat + if c.machine.skipPending then 2 else 0 := by
  unfold Machine.nextAddress
  split
  · next mark =>
    obtain ⟨-, high⟩ := h.inBounds.mark mark
    exact toNat_add_of_lt (show c.machine.counter.toNat + 2 < 65536 by omega)
  · rfl

theorem Reachable.stack_full_iff (h : Reachable dialect c) :
    Machine.stackLimit ≤ c.machine.stack.length ↔ c.machine.stack.length = 1792 := by
  have depth := h.inBounds.depth
  rw [Machine.stackLimit]
  omega

/-- **The faults of every run.** After any steps let `a` be where the next cycle fetches,
`w` the word found there and `last` the word that was fetched last. The cycle fails for
the three causes of its own, with these details, and otherwise only by a device, when it
waits for a key; a fault of its own leaves all but the place in the program as it was,
and outside the program space it comes again whatever is done. -/
theorem cycle_after (dialect : Dialect) (random : Keystream) (display : Display)
    (keys : KeySource) (log : Log) (steps : List Step) :
    let start := fresh random display keys log
    let c := start.after dialect steps
    let a := c.machine.nextAddress
    let w := c.machine.nextWord
    let last := (start.words dialect steps).getLastD 0
    let inside := 0x200 ≤ a.toNat ∧ a.toNat < 0x1000
    let known := ∃ i : Instruction, i.toWord = w
    let waits := ∃ x, (Instruction.waitKey x).toWord = w
    let overflow :=
      (∃ target, (Instruction.call target).toWord = w) ∧ c.machine.stack.length = 1792
    let outcome := c.cycle dialect
    (a.toNat = c.machine.counter.toNat + (if c.machine.skipPending then 2 else 0) ∧
      w.toNat =
        (c.machine.memory.cells.get (Fin.ofNat 4096 a.toNat)).toNat * 256 +
          (c.machine.memory.cells.get (Fin.ofNat 4096 (a.toNat + 1))).toNat) ∧
    (∀ address word, outcome.1 = .error (.outsideProgram address word) ↔
      ¬ inside ∧ address = a ∧ word = last) ∧
    (∀ address word, outcome.1 = .error (.undecodable address word) ↔
      inside ∧ ¬ known ∧ address = a ∧ word = w) ∧
    (∀ address word, outcome.1 = .error (.stackOverflow address word) ↔
      inside ∧ overflow ∧ address = a ∧ word = w) ∧
    (∀ reason, outcome.1 = .error (.device reason) → inside ∧ waits) ∧
    (inside → known → ¬ overflow →
      (∃ flow, outcome.1 = .ok flow) ∨ waits ∧ ∃ reason, outcome.1 = .error (.device reason)) ∧
    (∀ fault, outcome.1 = .error fault → (∀ reason, fault ≠ .device reason) →
      SameButPlace c outcome.2) ∧
    ∀ address word, outcome.1 = .error (.outsideProgram address word) →
      ∀ later, (outcome.2.after dialect later).cycle dialect =
        (.error (.outsideProgram address word), outcome.2.after dialect later) := by
  intro start c a w last inside known waits overflow outcome
  have reachable : Reachable dialect c := (Reachable.fresh random display keys log).after steps
  have told : c.machine.lastWord = last := lastWord_after dialect start steps
  have within : Machine.InProgram a ↔ inside := Machine.inProgram_iff
  have full : Machine.stackLimit ≤ c.machine.stack.length ↔ c.machine.stack.length = 1792 :=
    reachable.stack_full_iff
  refine ⟨⟨reachable.toNat_nextAddress, toNat_word _ a⟩, ?_, ?_, ?_, ?_, ?_, ?_, ?_⟩
  · intro address word
    rw [← within, ← told]
    exact outsideProgram_iff
  · intro address word
    rw [← within, not_exists]
    exact undecodable_iff
  · intro address word
    show _ ↔ inside ∧ (_ ∧ _) ∧ _
    rw [← within, ← full, and_assoc]
    exact stackOverflow_iff
  · intro reason failed
    rw [← within]
    exact waits_of_device failed
  · intro inside' known' room
    apply ok_or_device (within.mpr inside') known'
    rw [full]
    exact room
  · intro fault failed own
    exact sameButPlace_of_fault failed own
  · intro address word failed later
    exact ((stuck_of_outsideProgram failed).after dialect later).cycle dialect

end Chip8.Console
