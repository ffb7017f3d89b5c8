import Chip8.Proofs.InstructionWord
import Chip8.Proofs.Run

/-!
# What a step does to a console

Each step is taken apart once, and what follows about runs is by these cases.

  * `cycle_cases` — the ways in which a cycle ends: the address is outside the program
    space, the word stands for nothing, the stack is full, the machine executes the
    instruction, or the instruction waits for a key.
  * `waitKey_cases` — the ways in which waiting for a key ends, `waitKey_of_undrawn` and
    `waitKey_of_drawn` what is left of the devices, by whether the picture could be shown.
  * `poll_eq`, `render_of_pending`, `render_of_settled` — what a poll and a rendering leave.
  * `perform_eq_of_ne_cycle` — the other steps change memory, frame, keypad and timers
    only.
-/

namespace Chip8

/-- The machine while it waits for a key: its picture counts as shown, no key as down,
and both timers stand at zero. -/
def Machine.waiting (m : Machine) : Machine :=
  { m with frame := m.frame.shown, keypad := .released, delayTimer := 0, soundTimer := 0 }

/-- The machine once the key was pressed that it waited for. -/
def Machine.answered (m : Machine) (x : Register) (key : Key) : Machine :=
  { m.waiting with keypad := Keypad.released.press key }.setRegister x (UInt8.ofNat key.val)

namespace Console

/-! ## Waiting for a key -/

/-- How waiting for a key ends. -/
inductive Waits (c : Console) (x : Register) (outcome : Except Fault Flow × Console) : Prop where
  /-- The picture cannot be shown. -/
  | undrawn (reason : String) (result : outcome.1 = .error (.device reason))
      (machine : outcome.2.machine = c.machine) (keys : outcome.2.keys = c.keys)
  /-- The codes cannot be read. -/
  | unread (reason : String) (wait : c.keys.await.result = .error reason)
      (result : outcome.1 = .error (.device reason))
      (machine : outcome.2.machine = c.machine.waiting)
      (keys : outcome.2.keys = c.keys.await.source)
  /-- The exit key is read. -/
  | exit (wait : c.keys.await.result = .ok none) (result : outcome.1 = .ok .exit)
      (machine : outcome.2.machine = c.machine.waiting)
      (keys : outcome.2.keys = c.keys.await.source)
  /-- A key is pressed. -/
  | key (key : Key) (wait : c.keys.await.result = .ok (some key))
      (result : outcome.1 = .ok .proceed) (machine : outcome.2.machine = c.machine.answered x key)
      (keys : outcome.2.keys = c.keys.await.source)

theorem waitKey_cases (c : Console) (x : Register) : Waits c x (c.waitKey x) := by
  unfold waitKey present
  simp only
  cases c.display.draw c.machine.frame.picture with
  | mk result display =>
    cases result with
    | error reason => exact .undrawn reason rfl rfl rfl
    | ok =>
      have shown : (Except.ok () : Except String Unit).mapError Fault.device = .ok () := rfl
      simp only [shown]
      split
      · next reason h => exact .unread reason h rfl rfl rfl
      · next h => exact .exit h rfl rfl rfl
      · next key h => exact .key key h rfl rfl rfl

theorem waitKey_of_undrawn {c : Console} {reason : String} (x : Register)
    (h : (c.display.draw c.machine.frame.picture).1 = .error reason) :
    c.waitKey x =
      (.error (.device reason),
        { c with
          display := (c.display.draw c.machine.frame.picture).2
          calls := .draw :: c.calls }) := by
  unfold waitKey present
  simp only
  cases drawn : c.display.draw c.machine.frame.picture with
  | mk result display =>
    rw [drawn] at h
    obtain rfl : result = .error reason := h
    rfl

theorem waitKey_of_drawn {c : Console} (x : Register)
    (h : (c.display.draw c.machine.frame.picture).1 = .ok ()) :
    ∃ result machine log, machine.frame = c.machine.frame.shown ∧
      c.waitKey x =
        (result,
          { machine, log
            display := (c.display.draw c.machine.frame.picture).2
            keys := c.keys.await.source
            calls :=
              List.replicate (c.keys.await.source.calls - c.keys.calls) .read ++
                .draw :: c.calls }) := by
  unfold waitKey present
  simp only
  cases drawn : c.display.draw c.machine.frame.picture with
  | mk result display =>
    rw [drawn] at h
    obtain rfl : result = .ok () := h
    have shown : (Except.ok () : Except String Unit).mapError Fault.device = .ok () := rfl
    simp only [shown]
    split
    · exact ⟨_, _, _, rfl, rfl⟩
    · exact ⟨_, _, _, rfl, rfl⟩
    · exact ⟨_, _, _, rfl, rfl⟩

theorem machine_waitKey_of_drawn {c : Console} (x : Register)
    (h : (c.display.draw c.machine.frame.picture).1 = .ok ()) :
    (c.waitKey x).2.machine =
      match c.keys.await.result with
      | .ok (some key) => c.machine.answered x key
      | _ => c.machine.waiting := by
  unfold waitKey present
  simp only
  cases drawn : c.display.draw c.machine.frame.picture with
  | mk result display =>
    rw [drawn] at h
    obtain rfl : result = .ok () := h
    have shown : (Except.ok () : Except String Unit).mapError Fault.device = .ok () := rfl
    simp only [shown]
    rcases c.keys.await.result with reason | _ | key
    · rfl
    · rfl
    · rfl

theorem result_waitKey_of_drawn {c : Console} (x : Register)
    (h : (c.display.draw c.machine.frame.picture).1 = .ok ()) :
    (c.waitKey x).1 =
      match c.keys.await.result with
      | .error reason => .error (.device reason)
      | .ok none => .ok .exit
      | .ok (some _) => .ok .proceed := by
  unfold waitKey present
  simp only
  cases drawn : c.display.draw c.machine.frame.picture with
  | mk result display =>
    rw [drawn] at h
    obtain rfl : result = .ok () := h
    have shown : (Except.ok () : Except String Unit).mapError Fault.device = .ok () := rfl
    simp only [shown]
    rcases c.keys.await.result with reason | _ | key
    · rfl
    · rfl
    · rfl

/-! ## Cycles -/

section
variable {dialect : Dialect} {c : Console}

theorem cycle_outside (h : ¬ Machine.InProgram c.machine.nextAddress) :
    c.cycle dialect =
      (.error (.outsideProgram c.machine.nextAddress c.machine.lastWord),
        { c with machine := c.machine.settleSkip }) := by
  rw [cycle, Machine.fetch_outside h]

theorem cycle_undecodable (h : Machine.InProgram c.machine.nextAddress)
    (hw : Instruction.ofWord? c.machine.nextWord = none) :
    c.cycle dialect =
      (.error (.undecodable c.machine.nextAddress c.machine.nextWord),
        { c with machine := c.machine.taken }) := by
  rw [cycle, Machine.fetch_undecodable h hw]

theorem cycle_instruction {i : Instruction} (h : Machine.InProgram c.machine.nextAddress)
    (hw : Instruction.ofWord? c.machine.nextWord = some i) :
    c.cycle dialect =
      execute dialect { c with machine := c.machine.taken }
        ⟨c.machine.nextAddress, c.machine.nextWord, i⟩ := by
  rw [cycle, Machine.fetch_instruction h hw]

end

theorem fetched?_of_ofWord? {c : Console} {i : Instruction}
    (h : Machine.InProgram c.machine.nextAddress)
    (hw : Instruction.ofWord? c.machine.nextWord = some i) : c.fetched? = some i.toWord :=
  fetched?_eq_some_iff.mpr ⟨h, (Instruction.toWord_of_ofWord? hw).symm⟩

theorem ofWord?_of_fetched? {c : Console} {i : Instruction} (h : c.fetched? = some i.toWord)
    (hi : i.IsCanonical) : Instruction.ofWord? c.machine.nextWord = some i := by
  rw [(fetched?_eq_some_iff.mp h).2]
  exact Instruction.ofWord?_toWord hi

/-- The log with what there is to tell about an instruction. -/
def told (dialect : Dialect) (c : Console) (f : Fetched) : Log :=
  c.log.addAll
    (.executing f.address f.word (Mnemonic.ofInstruction dialect f.instruction) ::
      remark c.machine f)

theorem execute_waitKey (dialect : Dialect) (c : Console) (address word : UInt16) (x : Register) :
    c.execute dialect ⟨address, word, .waitKey x⟩ =
      { c with log := c.told dialect ⟨address, word, .waitKey x⟩ }.waitKey x := rfl

theorem cycle_waitKey (dialect : Dialect) {c : Console} {x : Register}
    (h : Machine.InProgram c.machine.nextAddress)
    (hw : Instruction.ofWord? c.machine.nextWord = some (.waitKey x)) :
    ∃ log, c.cycle dialect = { c with machine := c.machine.taken, log }.waitKey x :=
  ⟨_, by rw [cycle_instruction h hw, execute_waitKey]⟩

theorem execute_of_ne_waitKey {dialect : Dialect} {c : Console} {f : Fetched}
    (hf : ∀ x, f.instruction ≠ .waitKey x) :
    c.execute dialect f =
      match c.machine.execute dialect f with
      | .error fault => (.error fault, { c with log := c.told dialect f })
      | .ok machine => (.ok .proceed, { c with machine, log := c.told dialect f }) := by
  obtain ⟨address, word, i⟩ := f
  cases i
  case waitKey x => exact absurd rfl (hf x)
  all_goals rfl

theorem cycle_of_execute {dialect : Dialect} {c : Console} {i : Instruction} {m : Machine}
    (executes : c.instruction? = some i) (noWait : ∀ x, i ≠ .waitKey x)
    (h : c.machine.taken.execute dialect ⟨c.machine.nextAddress, c.machine.nextWord, i⟩ = .ok m) :
    (c.cycle dialect).1 = .ok .proceed ∧ (c.cycle dialect).2.machine = m := by
  obtain ⟨bounds, word⟩ := instruction?_eq_some_iff.mp executes
  rw [cycle_instruction bounds word, execute_of_ne_waitKey noWait]
  simp only [h]
  exact ⟨trivial, trivial⟩

/-- How a cycle ends. -/
inductive Cycles (dialect : Dialect) (c : Console) (outcome : Except Fault Flow × Console) :
    Prop where
  /-- There is nothing to be fetched at the address. -/
  | outside (bounds : ¬ Machine.InProgram c.machine.nextAddress)
      (result : outcome.1 =
        .error (.outsideProgram c.machine.nextAddress c.machine.lastWord))
      (console : outcome.2 = { c with machine := c.machine.settleSkip })
  /-- The word stands for no instruction. -/
  | undecodable (bounds : Machine.InProgram c.machine.nextAddress)
      (word : Instruction.ofWord? c.machine.nextWord = none)
      (result : outcome.1 = .error (.undecodable c.machine.nextAddress c.machine.nextWord))
      (console : outcome.2 = { c with machine := c.machine.taken })
  /-- A call finds the stack full. -/
  | overflow (bounds : Machine.InProgram c.machine.nextAddress) (target : Target)
      (word : Instruction.ofWord? c.machine.nextWord = some (.call target))
      (full : Machine.stackLimit ≤ c.machine.stack.length)
      (result : outcome.1 = .error (.stackOverflow c.machine.nextAddress c.machine.nextWord))
      (log : Log) (console : outcome.2 = { c with machine := c.machine.taken, log })
  /-- The machine executes the instruction. -/
  | executed (bounds : Machine.InProgram c.machine.nextAddress) (i : Instruction)
      (word : Instruction.ofWord? c.machine.nextWord = some i) (noWait : ∀ x, i ≠ .waitKey x)
      (m : Machine)
      (machine : c.machine.taken.execute dialect
        ⟨c.machine.nextAddress, c.machine.nextWord, i⟩ = .ok m)
      (result : outcome.1 = .ok .proceed)
      (log : Log) (console : outcome.2 = { c with machine := m, log })
  /-- The instruction waits for a key. -/
  | waited (bounds : Machine.InProgram c.machine.nextAddress) (x : Register)
      (word : Instruction.ofWord? c.machine.nextWord = some (.waitKey x)) (log : Log)
      (waits : Waits { c with machine := c.machine.taken, log } x outcome)

theorem cycle_cases (dialect : Dialect) (c : Console) : Cycles dialect c (c.cycle dialect) := by
  by_cases bounds : Machine.InProgram c.machine.nextAddress
  case neg => rw [cycle_outside bounds]; exact .outside bounds rfl rfl
  cases word : Instruction.ofWord? c.machine.nextWord with
  | none => rw [cycle_undecodable bounds word]; exact .undecodable bounds word rfl rfl
  | some i =>
    rw [cycle_instruction bounds word]
    by_cases waits : ∃ x, i = .waitKey x
    · obtain ⟨x, rfl⟩ := waits
      rw [execute_waitKey]
      exact .waited bounds x word _ (waitKey_cases _ x)
    · have noWait : ∀ x, i ≠ .waitKey x := fun x hx => waits ⟨x, hx⟩
      rw [execute_of_ne_waitKey noWait]
      cases machine : c.machine.taken.execute dialect
        ⟨c.machine.nextAddress, c.machine.nextWord, i⟩ with
      | ok m => exact .executed bounds i word noWait m machine rfl _ rfl
      | error fault =>
        obtain ⟨⟨target, rfl⟩, full, rfl⟩ := Machine.execute_error_iff.mp machine
        exact .overflow bounds target word full rfl _ rfl

/-! ## The other steps -/

/-- What a step other than a cycle can do to the keypad. -/
inductive Ages (k : Keypad) : Keypad → Prop where
  | kept : Ages k k
  | aged : Ages k k.age
  | pressed (key : Key) : Ages k (k.age.press key)

theorem poll_eq (c : Console) :
    ∃ keypad log, Ages c.machine.keypad keypad ∧
      c.poll.2 =
        { c with
          machine := { c.machine with keypad }
          keys := c.keys.poll.2
          log
          calls := .poll :: c.calls } := by
  unfold poll
  rcases c.keys.poll with ⟨reason | _ | code, keys⟩
  · exact ⟨_, _, .aged, rfl⟩
  · exact ⟨_, _, .aged, rfl⟩
  · by_cases isExit : code = exitKey
    · simp only [if_pos isExit]
      exact ⟨_, _, .aged, rfl⟩
    · simp only [if_neg isExit]
      cases Keypad.keyOf? code with
      | none => exact ⟨_, _, .aged, rfl⟩
      | some key => exact ⟨_, _, .pressed key, rfl⟩

theorem result_poll_eq (c : Console) :
    c.poll.1 =
      match c.keys.poll.1 with
      | .error reason => .error (.device reason)
      | .ok code => if code = some exitKey then .ok .exit else .ok .proceed := by
  unfold poll
  rcases c.keys.poll with ⟨reason | _ | code, keys⟩
  · rfl
  · rfl
  · simp only [Option.some.injEq]
    split
    · rfl
    · split
      · rfl
      · rfl

theorem render_of_pending {c : Console} (h : c.machine.frame.pending = true) :
    c.render =
      ((c.display.draw c.machine.frame.picture).1.mapError .device,
        { c with
          machine := { c.machine with frame := c.machine.frame.shown }
          display := (c.display.draw c.machine.frame.picture).2
          calls := .draw :: c.calls }) := by
  rw [render, if_pos h]
  rfl

theorem render_of_settled {c : Console} (h : c.machine.frame.pending = false) :
    c.render = (.ok (), c) := by
  rw [render, if_neg (by simp [h])]

/-- A step other than a cycle leaves the machine as it is, but for memory, frame, keypad
and timers. -/
theorem perform_eq_of_ne_cycle (dialect : Dialect) (c : Console) {step : Step}
    (h : step ≠ .cycle) :
    ∃ memory frame keypad delayTimer soundTimer, Ages c.machine.keypad keypad ∧
      (c.perform dialect step).2.machine =
        { c.machine with memory, frame, keypad, delayTimer, soundTimer } := by
  cases step with
  | cycle => exact absurd rfl h
  | tick => exact ⟨_, _, _, _, _, .kept, rfl⟩
  | poll =>
    obtain ⟨keypad, _, ages, polled⟩ := c.poll_eq
    exact ⟨_, _, keypad, _, _, ages, congrArg Console.machine polled⟩
  | render =>
    show ∃ memory frame keypad delayTimer soundTimer, _ ∧ c.render.2.machine = _
    cases pending : c.machine.frame.pending with
    | true =>
      rw [render_of_pending pending]
      exact ⟨_, _, _, _, _, .kept, rfl⟩
    | false =>
      rw [render_of_settled pending]
      exact ⟨_, _, _, _, _, .kept, rfl⟩
  | load program =>
    show ∃ memory frame keypad delayTimer soundTimer, _ ∧ (c.load program).2.machine = _
    unfold load
    split
    · exact ⟨_, _, _, _, _, .kept, rfl⟩
    · exact ⟨_, _, _, _, _, .kept, rfl⟩
  | shutdown => exact ⟨_, _, _, _, _, .kept, rfl⟩

end Console

end Chip8
