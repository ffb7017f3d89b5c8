import Chip8.Proofs.Scheduled

/-!
# Programs that do not look outside

A program learns of time and of the keys by four instructions: one reads the delay timer,
two ask whether a key is down, and one waits for a key. As long as it executes none of
them, what happens between its cycles makes no difference to it: how often the timers are
counted down, what is polled, and when the picture is shown or whether it can be shown.

  * `Machine.AgreesInside` — two machines hold the same but for keys, timers and the mark of
    a pending change. `Machine.waiting` hides exactly these (`agreesInside_iff`).
  * `execute_waiting`, `agree_cycle` — an instruction that does not look does the same where
    they are hidden, and so does a cycle.
  * `waiting_perform` — ticking, polling and rendering show nowhere else.
  * `agree_run` — two runs of as many cycles, whatever is done in between.

`runs_agree_inside` is what follows for runs and for the frames into which they are divided.
-/

namespace Chip8

/-- Whether an instruction looks at the timers or at the keys. -/
def Instruction.looks : Instruction → Bool
  | .readDelay _ | .waitKey _ | .skipIfKey _ | .skipUnlessKey _ => true
  | _ => false

/-- A step that does not cycle, but ticks, polls or renders. -/
def Step.Idles (step : Step) : Prop := step = .tick ∨ step = .poll ∨ step = .render

theorem Step.Idles.ne_cycle {step : Step} (h : step.Idles) : step ≠ .cycle := by
  rcases h with rfl | rfl | rfl
  all_goals simp

namespace Machine

/-- Two machines hold the same, but for the keys, the timers and the mark of a pending
change. -/
structure AgreesInside (m m' : Machine) : Prop where
  registers : m.registers = m'.registers
  index : m.index = m'.index
  counter : m.counter = m'.counter
  skipPending : m.skipPending = m'.skipPending
  lastWord : m.lastWord = m'.lastWord
  stack : m.stack = m'.stack
  memory : m.memory = m'.memory
  picture : m.frame.picture = m'.frame.picture
  random : m.random = m'.random

theorem agreesInside_iff {m m' : Machine} : m.AgreesInside m' ↔ m.waiting = m'.waiting := by
  constructor
  · intro h
    simp only [waiting, Frame.shown, h.registers, h.index, h.counter, h.skipPending, h.lastWord,
      h.stack, h.memory, h.picture, h.random]
  · intro h
    simp only [waiting, Frame.shown, mk.injEq, Frame.mk.injEq, true_and, and_true] at h
    obtain ⟨memory, picture, registers, index, counter, stack, mark, lastWord, random⟩ := h
    exact ⟨registers, index, counter, mark, lastWord, stack, memory, picture, random⟩

theorem agreesInside_outside (m : Machine) (pending : Bool) (keypad : Keypad)
    (delayTimer soundTimer : UInt8) :
    m.AgreesInside
      { m with frame := ⟨m.frame.picture, pending⟩, keypad, delayTimer, soundTimer } :=
  ⟨rfl, rfl, rfl, rfl, rfl, rfl, rfl, rfl, rfl⟩

theorem settleSkip_waiting (m : Machine) : m.waiting.settleSkip = m.settleSkip.waiting := by
  rw [settleSkip_eq, settleSkip_eq]
  rfl

theorem execute_waiting (dialect : Dialect) {f : Fetched} (h : f.instruction.looks = false)
    (m : Machine) :
    (m.waiting.execute dialect f).map waiting = (m.execute dialect f).map waiting := by
  obtain ⟨address, word, i⟩ := f
  cases i
  case readDelay | waitKey | skipIfKey | skipUnlessKey => cases h
  case call target =>
    rcases Nat.lt_or_ge m.stack.length stackLimit with room | full
    · rw [execute_call dialect address word target room,
        execute_call dialect address word target (m := m.waiting) room]
      rfl
    · rw [execute_call_full dialect address word target full,
        execute_call_full dialect address word target (m := m.waiting) full]
  case ret =>
    cases hs : m.stack with
    | nil =>
      rw [execute_ret_nil dialect address word hs,
        execute_ret_nil dialect address word (m := m.waiting) hs]
      rfl
    | cons top rest =>
      rw [execute_ret_cons dialect address word hs,
        execute_ret_cons dialect address word (m := m.waiting) hs]
      rfl
  case or | and | xor =>
    simp only [execute, setLogic]
    split
    · rfl
    · rfl
  case storeRegisters | loadRegisters =>
    simp only [execute, advanceIndex]
    split
    · rfl
    · rfl
  all_goals rfl

theorem cases_of_map_waiting {result result' : Except Fault Machine}
    (h : result.map waiting = result'.map waiting) :
    (∃ fault, result = .error fault ∧ result' = .error fault) ∨
      ∃ m m', result = .ok m ∧ result' = .ok m' ∧ m.waiting = m'.waiting := by
  cases result with
  | error fault =>
    cases result' with
    | error fault' =>
      obtain rfl : fault = fault' := Except.error.inj h
      exact .inl ⟨fault, rfl, rfl⟩
    | ok m' => cases h
  | ok m =>
    cases result' with
    | error fault' => cases h
    | ok m' => exact .inr ⟨m, m', rfl, rfl, Except.ok.inj h⟩

end Machine

namespace Console

variable {dialect : Dialect} {c c' : Console}

/-! ## Cycles -/

theorem agree_cycle (dialect : Dialect) (agree : c.machine.waiting = c'.machine.waiting)
    (unseeing : ∀ i, c.instruction? = some i → i.looks = false) :
    (c.cycle dialect).1 = (c'.cycle dialect).1 ∧
      (c.cycle dialect).2.machine.waiting = (c'.cycle dialect).2.machine.waiting := by
  have next : c.machine.nextAddress = c'.machine.nextAddress :=
    (congrArg Machine.nextAddress agree :)
  have word : c.machine.nextWord = c'.machine.nextWord := (congrArg Machine.nextWord agree :)
  by_cases bounds : Machine.InProgram c.machine.nextAddress
  case neg =>
    have bounds' : ¬ Machine.InProgram c'.machine.nextAddress := next ▸ bounds
    have last : c.machine.lastWord = c'.machine.lastWord := (congrArg Machine.lastWord agree :)
    have settled : c.machine.settleSkip.waiting = c'.machine.settleSkip.waiting := by
      rw [← Machine.settleSkip_waiting, agree, Machine.settleSkip_waiting]
    rw [cycle_outside bounds, cycle_outside bounds', next, last]
    exact ⟨rfl, settled⟩
  have bounds' : Machine.InProgram c'.machine.nextAddress := next ▸ bounds
  have taken : c.machine.taken.waiting = c'.machine.taken.waiting :=
    (congrArg Machine.taken agree :)
  cases read : Instruction.ofWord? c.machine.nextWord with
  | none =>
    have read' : Instruction.ofWord? c'.machine.nextWord = none := word ▸ read
    rw [cycle_undecodable bounds read, cycle_undecodable bounds' read', next, word]
    exact ⟨rfl, taken⟩
  | some i =>
    have read' : Instruction.ofWord? c'.machine.nextWord = some i := word ▸ read
    have looks : i.looks = false := unseeing i (instruction?_eq_some_iff.mpr ⟨bounds, read⟩)
    have noWait : ∀ x, i ≠ .waitKey x := by
      rintro x rfl
      cases looks
    -- both execute what the machine executes that hides the keys and the timers
    have same : ∀ f : Fetched, f.instruction = i →
        (c.machine.taken.execute dialect f).map Machine.waiting =
          (c'.machine.taken.execute dialect f).map Machine.waiting := by
      rintro f rfl
      rw [← Machine.execute_waiting dialect looks, taken, Machine.execute_waiting dialect looks]
    rw [cycle_instruction bounds read, cycle_instruction bounds' read', ← next, ← word,
      execute_of_ne_waitKey noWait, execute_of_ne_waitKey noWait]
    rcases Machine.cases_of_map_waiting (same ⟨c.machine.nextAddress, c.machine.nextWord, i⟩ rfl)
      with ⟨fault, failed, failed'⟩ | ⟨m, m', executed, executed', hidden⟩
    · simp only [failed, failed']
      exact ⟨trivial, taken⟩
    · simp only [executed, executed']
      exact ⟨trivial, hidden⟩

/-! ## The other steps -/

/-- What happens between the cycles shows in the keys, the timers and the mark only. -/
theorem waiting_perform (dialect : Dialect) (c : Console) {step : Step} (h : step.Idles) :
    (c.perform dialect step).2.machine.waiting = c.machine.waiting := by
  rcases h with rfl | rfl | rfl
  · rfl
  · obtain ⟨_, _, -, polled⟩ := c.poll_eq
    show c.poll.2.machine.waiting = _
    rw [polled]
    rfl
  · show c.render.2.machine.waiting = _
    cases pending : c.machine.frame.pending with
    | true =>
      rw [render_of_pending pending]
      rfl
    | false => rw [render_of_settled pending]

/-! ## Runs -/

/-- The results of the cycles among some steps, in order. -/
def cycleResults (dialect : Dialect) : List Step → Console → List (Except Fault Flow)
  | [], _ => []
  | step :: rest, c =>
    (if step = .cycle then [(c.perform dialect step).1] else []) ++
      cycleResults dialect rest (c.perform dialect step).2

theorem cycleResults_append (dialect : Dialect) (first second : List Step) (c : Console) :
    c.cycleResults dialect (first ++ second) =
      c.cycleResults dialect first ++ (c.after dialect first).cycleResults dialect second := by
  induction first generalizing c with
  | nil => rfl
  | cons step rest ih =>
    simp only [List.cons_append, cycleResults, after, ih, List.append_assoc]

theorem idle_run (dialect : Dialect) {steps : List Step} (c : Console)
    (h : ∀ step ∈ steps, step.Idles) :
    c.cycleResults dialect steps = [] ∧
      (c.after dialect steps).machine.waiting = c.machine.waiting := by
  induction steps generalizing c with
  | nil => exact ⟨rfl, rfl⟩
  | cons step rest ih =>
    have idles : step.Idles := h step List.mem_cons_self
    obtain ⟨results, same⟩ := ih (c.perform dialect step).2
      fun later mem => h later (List.mem_cons_of_mem _ mem)
    refine ⟨?_, same.trans (waiting_perform dialect c idles)⟩
    rw [cycleResults, if_neg idles.ne_cycle, results]
    rfl

/-- Two runs of as many cycles. -/
theorem agree_run (dialect : Dialect) {steps steps' : List Step}
    (agree : c.machine.waiting = c'.machine.waiting)
    (within : ∀ step ∈ steps, step = .cycle ∨ step.Idles)
    (within' : ∀ step ∈ steps', step = .cycle ∨ step.Idles)
    (count : steps.count .cycle = steps'.count .cycle)
    (unseeing : ∀ i ∈ c.instructions dialect steps, i.looks = false) :
    c.cycleResults dialect steps = c'.cycleResults dialect steps' ∧
      (c.after dialect steps).machine.waiting = (c'.after dialect steps').machine.waiting := by
  induction steps generalizing c c' steps' with
  | nil =>
    have idle : ∀ step ∈ steps', step.Idles := by
      intro step mem
      rcases within' step mem with rfl | idles
      · exact absurd (List.count_pos_iff.mpr mem) (by simp [← count])
      · exact idles
    obtain ⟨results, same⟩ := idle_run dialect c' idle
    exact ⟨results.symm, agree.trans same.symm⟩
  | cons step rest ih =>
    have later := fun step mem => within step (List.mem_cons_of_mem _ mem)
    rcases within step List.mem_cons_self with rfl | idles
    · -- the other run gets to its next cycle by steps that show nowhere
      have more : .cycle ∈ steps' := by
        rw [← List.count_pos_iff, ← count, List.count_cons_self]
        exact Nat.succ_pos _
      obtain ⟨before, behind, rfl, first⟩ := List.eq_append_cons_of_mem more
      have idle : ∀ step ∈ before, step.Idles := by
        intro step mem
        rcases within' step (List.mem_append_left _ mem) with rfl | idles
        · exact absurd mem first
        · exact idles
      obtain ⟨nothing, same⟩ := idle_run dialect c' idle
      obtain ⟨result, agree'⟩ := agree_cycle dialect (agree.trans same.symm) fun i executes =>
        unseeing i (mem_instructions_cycle executes rest)
      rw [instructions_cons_cycle] at unseeing
      have left : rest.count .cycle = behind.count .cycle := by
        rw [List.count_cons_self, List.count_append, List.count_eq_zero.mpr first,
          List.count_cons_self] at count
        omega
      obtain ⟨results, final⟩ := ih agree' later
        (fun step mem => within' step (List.mem_append_right _ (List.mem_cons_of_mem _ mem))) left
        fun i mem => unseeing i (List.mem_append_right _ mem)
      rw [cycleResults_append, nothing, after_append, List.nil_append]
      refine ⟨?_, final⟩
      rw [cycleResults, cycleResults, if_pos rfl, if_pos rfl]
      show [(c.cycle dialect).1] ++ _ = [((c'.after dialect before).cycle dialect).1] ++ _
      rw [result]
      exact congrArg _ results
    · rw [instructions_cons_of_ne_cycle dialect c idles.ne_cycle] at unseeing
      rw [List.count_cons_of_ne idles.ne_cycle] at count
      rw [cycleResults, if_neg idles.ne_cycle]
      exact ih ((waiting_perform dialect c idles).trans agree) later within' count unseeing

end Console

namespace Scheduler

variable {s s' : Scheduler}

theorem step_of_mem_runSteps {count : Nat} (h : s.Completes count) {step : Step}
    (mem : step ∈ runSteps count s) : step = .cycle ∨ step.Idles := by
  rw [runSteps_of_completes h, List.mem_flatten] at mem
  obtain ⟨steps, frame, mem⟩ := mem
  obtain ⟨-, rfl⟩ := List.mem_replicate.mp frame
  rcases List.mem_append.mp mem with cycle | between
  · exact .inl (List.mem_replicate.mp cycle).2
  · right
    simp only [List.mem_cons, List.not_mem_nil, or_false] at between
    rcases between with rfl | rfl | rfl
    · exact .inr (.inr rfl)
    · exact .inl rfl
    · exact .inr (.inl rfl)

theorem count_cycle_runSteps {count : Nat} (h : s.Completes count) :
    (runSteps count s).count .cycle = count * s.cycles := by
  rw [count_runSteps_of_completes h]
  simp [wholeFrame, List.count_append]

/-- **What a program does not look at cannot influence it.** Take two consoles whose machines
hold the same but for keys, timers and the mark of a pending change; their displays, keys
and logs may differ too. Run them for as many cycles, with any ticks, polls and renderings
in between. If the first executes no instruction that looks at the timers or the keys, each
cycle gives the same result on both, and again the machines hold the same. So it does not
matter into how many frames of which length the cycles are divided. -/
theorem runs_agree_inside (dialect : Dialect) (c c' : Console)
    (agree : c.machine.AgreesInside c'.machine) :
    (∀ steps steps' : List Step,
      (∀ step ∈ steps, step = .cycle ∨ step.Idles) →
      (∀ step ∈ steps', step = .cycle ∨ step.Idles) →
      steps.count .cycle = steps'.count .cycle →
      (∀ i ∈ c.instructions dialect steps, i.looks = false) →
        c.cycleResults dialect steps = c'.cycleResults dialect steps' ∧
          (c.after dialect steps).machine.AgreesInside (c'.after dialect steps').machine) ∧
    ∀ (s s' : Scheduler) (count count' : Nat),
      s.console = c → s'.console = c' → s.dialect = dialect → s'.dialect = dialect →
      s.Completes count → s'.Completes count' → count * s.cycles = count' * s'.cycles →
      (∀ i ∈ c.instructions dialect (runSteps count s), i.looks = false) →
        (s.afterFrames count).console.machine.AgreesInside
          (s'.afterFrames count').console.machine := by
  have hidden := Machine.agreesInside_iff.mp agree
  constructor
  · intro steps steps' within within' cycles unseeing
    obtain ⟨results, same⟩ := Console.agree_run dialect hidden within within' cycles unseeing
    exact ⟨results, Machine.agreesInside_iff.mpr same⟩
  · rintro s s' count count' rfl rfl rfl sameDialect completes completes' cycles unseeing
    rw [← count_cycle_runSteps completes, ← count_cycle_runSteps completes'] at cycles
    obtain ⟨-, same⟩ := Console.agree_run s.dialect hidden
      (fun _ => step_of_mem_runSteps completes) (fun _ => step_of_mem_runSteps completes')
      cycles unseeing
    rw [after_runSteps_of_completes completes, ← sameDialect,
      after_runSteps_of_completes completes'] at same
    exact Machine.agreesInside_iff.mpr same

/-- Other keys, timers and devices, the timers counted down at other times, and a picture that
cannot be shown. -/
theorem runs_agree_inside_of_other_devices :
    let program : List UInt8 := [0x61, 0x05, 0xC2, 0xFF, 0x00, 0xE0]
    let c := ((Console.fresh (.ofSeed 0) {} {} {}).load program).2
    let m := c.machine
    let c' : Console :=
      { machine :=
          { m with
            frame := ⟨m.frame.picture, true⟩
            keypad := Keypad.released.press 3
            delayTimer := 7
            soundTimer := 9 }
        display := { faultAt := fun _ => some "draw failed" }
        keys := { entries := [some 0x31] } }
    let steps : List Step := [.cycle, .tick, .cycle, .cycle]
    let steps' : List Step := [.poll, .render, .cycle, .cycle, .tick, .cycle, .render]
    c.machine.AgreesInside c'.machine ∧
      c.instructions {} steps = [.load 1 5, .random 2 0xFF, .clear] ∧
      c.cycleResults {} steps = c'.cycleResults {} steps' ∧
      (c.after {} steps).machine.AgreesInside (c'.after {} steps').machine := by
  intro program c m c' steps steps'
  have agree : c.machine.AgreesInside c'.machine := c.machine.agreesInside_outside _ _ _ _
  have executed : c.instructions {} steps = [.load 1 5, .random 2 0xFF, .clear] := by
    decide +kernel
  have within : ∀ step ∈ steps ++ steps', step = .cycle ∨ step.Idles := by
    simp [steps, steps', Step.Idles]
  obtain ⟨results, same⟩ := (runs_agree_inside {} c c' agree).1 steps steps'
    (fun step mem => within step (List.mem_append_left _ mem))
    (fun step mem => within step (List.mem_append_right _ mem)) rfl
    (by rw [executed]; decide)
  exact ⟨agree, executed, results, same⟩

end Scheduler

end Chip8
