import Chip8.Proofs.ExitKey
import Chip8.Proofs.Ownership

/-!
# Whole frames and cut ones

A frame is the cycles of its batch with a rendering, a tick and a poll behind them, unless one
of these ends it. What it leaves behind is then what the steps up to that one have done, and
nothing of the rest.

  * `batch_of_all`, `batch_of_first_end` — a batch that goes through, and one that is cut.
  * `frame_of_first_end`, `frame_of_undrawn`, `frame_of_drawn` — the same for a frame.
  * `value_perform`, `value_after` — only a tick counts a timer down, as long as no instruction
    sets it; so each completed frame takes one off (`value_afterFrames`).

`frame_is_batch` puts these together.
-/

namespace Chip8

/-! ## Timers -/

/-- The timers of a machine. -/
inductive Timer where
  | delay
  | sound

namespace Timer

/-- What a timer shows. -/
def value : Timer → Machine → UInt8
  | .delay => Machine.delayTimer
  | .sound => Machine.soundTimer

/-- The instruction that sets a timer to VX. -/
def setter : Timer → Register → Instruction
  | .delay => .setDelay
  | .sound => .setSound

/-- The timer as a part of the machine. -/
def part : Timer → Part
  | .delay => .delayTimer
  | .sound => .soundTimer

/-- None of these instructions writes a timer: they neither set it nor wait for a key. -/
def Untouched (t : Timer) (is : List Instruction) : Prop :=
  ∀ x, t.setter x ∉ is ∧ .waitKey x ∉ is

variable (t : Timer)

theorem untouched_append {is js : List Instruction} :
    t.Untouched (is ++ js) ↔ t.Untouched is ∧ t.Untouched js := by
  simp only [Untouched, List.mem_append, not_or]
  constructor
  · intro both
    exact ⟨fun x => ⟨(both x).1.1, (both x).2.1⟩, fun x => ⟨(both x).1.2, (both x).2.2⟩⟩
  · rintro ⟨first, later⟩ x
    exact ⟨⟨(first x).1, (later x).1⟩, (first x).2, (later x).2⟩

theorem value_of_sameIn {m m' : Machine} (h : m.SameIn m' t.part) : t.value m' = t.value m := by
  cases t with
  | delay => exact h
  | sound => exact h

theorem toNat_tick (n : UInt8) : (if n = 0 then 0 else n - 1 : UInt8).toNat = n.toNat - 1 := by
  split
  · next zero => rw [zero]; rfl
  · next more =>
    have positive : n.toNat ≠ 0 := fun zero => more (UInt8.toNat_inj.mp zero)
    have low := n.toNat_lt
    rw [UInt8.toNat_sub]
    show (256 - 1 + n.toNat) % 256 = n.toNat - 1
    omega

theorem toNat_value_tick (m : Machine) : (t.value m.tick).toNat = (t.value m).toNat - 1 := by
  cases t with
  | delay => exact toNat_tick m.delayTimer
  | sound => exact toNat_tick m.soundTimer

theorem part_notMem_owned {i : Instruction} (noSet : ∀ x, i ≠ t.setter x)
    (noWait : ∀ x, i ≠ .waitKey x) (dialect : Dialect) (m : Machine) :
    t.part ∉ i.owned dialect m := by
  have moved : t.part ∉ Part.movedIndex dialect :=
    Part.notMem_movedIndex (by cases t <;> simp [part]) dialect
  have reset : t.part ∉ Part.resetFlag dialect :=
    Part.notMem_resetFlag (by cases t <;> simp [part]) dialect
  cases i with
  | waitKey x => exact absurd rfl (noWait x)
  | setDelay x =>
    cases t with
    | delay => exact absurd rfl (noSet x)
    | sound => simp [Instruction.owned, part]
  | setSound x =>
    cases t with
    | delay => simp [Instruction.owned, part]
    | sound => exact absurd rfl (noSet x)
  | ret =>
    simp only [Instruction.owned]
    split <;> cases t <;> simp [part]
  | storeDecimal | storeRegisters =>
    cases t <;> simp_all [Instruction.owned, Part.cells, part]
  | loadRegisters => cases t <;> simp_all [Instruction.owned, Part.registersTo, part]
  | or | and | xor => cases t <;> simp_all [Instruction.owned, part]
  | _ => cases t <;> simp [Instruction.owned, part]

end Timer

namespace Console

/-- The console after so many cycles, whatever they give. -/
def cycled (dialect : Dialect) (c : Console) (count : Nat) : Console :=
  c.after dialect (List.replicate count .cycle)

variable {dialect : Dialect} {c : Console} {t : Timer}

theorem value_cycle (untouched : t.Untouched (c.instructions dialect [.cycle])) :
    t.value (c.cycle dialect).2.machine = t.value c.machine := by
  apply t.value_of_sameIn
  apply sameIn_cycle dialect
  · cases t <;> simp [Timer.part]
  · intro i executes
    have mem : i ∈ c.instructions dialect [.cycle] := mem_instructions_cycle executes []
    refine t.part_notMem_owned (fun x same => ?_) (fun x same => ?_) dialect c.machine
    · exact (untouched x).1 (same ▸ mem)
    · exact (untouched x).2 (same ▸ mem)

theorem value_perform (dialect : Dialect) (c : Console) (t : Timer) (step : Step)
    (untouched : t.Untouched (c.instructions dialect [step])) :
    (t.value (c.perform dialect step).2.machine).toNat =
      (t.value c.machine).toNat - [step].count .tick := by
  cases step with
  | cycle => exact congrArg UInt8.toNat (value_cycle untouched)
  | tick => exact t.toNat_value_tick c.machine
  | poll =>
    obtain ⟨_, _, -, polled⟩ := c.poll_eq
    show (t.value c.poll.2.machine).toNat = _
    rw [polled]
    cases t <;> rfl
  | render =>
    show (t.value c.render.2.machine).toNat = _
    cases pending : c.machine.frame.pending with
    | true =>
      rw [render_of_pending pending]
      cases t <;> rfl
    | false =>
      rw [render_of_settled pending]
      rfl
  | load program =>
    show (t.value (c.load program).2.machine).toNat = _
    unfold load
    split
    · rfl
    · cases t <;> rfl
  | shutdown => cases t <;> rfl

theorem value_after (dialect : Dialect) (c : Console) (t : Timer) (steps : List Step)
    (untouched : t.Untouched (c.instructions dialect steps)) :
    (t.value (c.after dialect steps).machine).toNat =
      (t.value c.machine).toNat - steps.count .tick := by
  induction steps generalizing c with
  | nil => rfl
  | cons step rest ih =>
    rw [instructions_cons] at untouched
    obtain ⟨first, later⟩ := t.untouched_append.mp untouched
    show (t.value ((c.perform dialect step).2.after dialect rest).machine).toNat = _
    rw [ih _ later, value_perform dialect c t step first, Nat.sub_sub, ← List.count_append]
    rfl

/-! ## Polls -/

theorem poll_proceeds_iff (c : Console) :
    c.poll.1 = .ok .proceed ↔ ∃ code, c.keys.poll.1 = .ok code ∧ code ≠ some exitKey := by
  rw [result_poll_eq]
  cases c.keys.poll.1 with
  | error reason => simp
  | ok code => simp

end Console

namespace Scheduler

variable {s : Scheduler}

theorem value_afterFrames {count : Nat} (t : Timer) (completes : s.Completes count)
    (untouched : t.Untouched (s.console.instructions s.dialect (runSteps count s))) :
    (t.value (s.afterFrames count).console.machine).toNat =
      (t.value s.console.machine).toNat - count := by
  have ticks : (runSteps count s).count .tick = count := by
    rw [count_runSteps_of_completes completes]
    simp [wholeFrame, List.count_append, List.count_replicate]
  rw [← after_runSteps_of_completes completes, Console.value_after s.dialect s.console t _ untouched,
    ticks]

/-! ## Batches -/

section
variable {dialect : Dialect} {c : Console}

theorem batch_of_all {count : Nat}
    (goOn : ∀ i < count, ((c.cycled dialect i).cycle dialect).1 = .ok .proceed) :
    batch dialect count c = (.ok .proceed, c.cycled dialect count) := by
  induction count generalizing c with
  | zero => rfl
  | succ count ih =>
    have first : (c.cycle dialect).1 = .ok .proceed := goOn 0 (Nat.succ_pos count)
    rw [batch_of_proceed count first]
    exact ih fun i lt => goOn (i + 1) (Nat.succ_lt_succ lt)

theorem batch_of_first_end {count i : Nat} (lt : i < count)
    (before : ∀ j < i, ((c.cycled dialect j).cycle dialect).1 = .ok .proceed)
    (ends : ((c.cycled dialect i).cycle dialect).1 ≠ .ok .proceed) :
    batch dialect count c =
      (((c.cycled dialect i).cycle dialect).1, c.cycled dialect (i + 1)) := by
  induction i generalizing c count with
  | zero =>
    obtain ⟨count, rfl⟩ := Nat.exists_eq_succ_of_ne_zero (Nat.ne_of_gt lt)
    exact batch_of_end count ends
  | succ i ih =>
    obtain ⟨count, rfl⟩ := Nat.exists_eq_succ_of_ne_zero (Nat.ne_of_gt (Nat.zero_lt_of_lt lt))
    have first : (c.cycle dialect).1 = .ok .proceed := before 0 (Nat.succ_pos i)
    rw [batch_of_proceed count first]
    exact ih (Nat.lt_of_succ_lt_succ lt) (fun j lt => before (j + 1) (Nat.succ_lt_succ lt)) ends

end

/-! ## Frames -/

theorem frame_of_first_end {i : Nat} (lt : i < s.cycles)
    (before : ∀ j < i,
      ((s.console.cycled s.dialect j).cycle s.dialect).1 = .ok .proceed)
    (ends : ((s.console.cycled s.dialect i).cycle s.dialect).1 ≠ .ok .proceed) :
    s.frame = (((s.console.cycled s.dialect i).cycle s.dialect).1,
      { s with console := s.console.cycled s.dialect (i + 1) }) := by
  have cut := batch_of_first_end lt before ends
  cases frame_cases s with
  | stopped _ result scheduler =>
    rw [cut] at result scheduler
    exact Prod.ext result scheduler
  | ended proceeds | completed proceeds =>
    rw [cut] at proceeds
    exact absurd proceeds ends

section
variable (goOn : ∀ i < s.cycles,
  ((s.console.cycled s.dialect i).cycle s.dialect).1 = .ok .proceed)
include goOn

theorem frame_of_undrawn {fault : Fault}
    (undrawn : (s.console.cycled s.dialect s.cycles).render.1 = .error fault) :
    s.frame = (.error fault,
      { s with console := (s.console.cycled s.dialect s.cycles).render.2 }) := by
  have whole := batch_of_all goOn
  have ends := afterBatch_of_error undrawn
  cases frame_cases s with
  | stopped cut =>
    rw [whole] at cut
    exact absurd rfl cut
  | ended _ _ result scheduler =>
    rw [whole, ends] at result scheduler
    exact Prod.ext result scheduler
  | completed _ goesOn =>
    rw [whole, ends] at goesOn
    cases goesOn

theorem frame_of_drawn (drawn : (s.console.cycled s.dialect s.cycles).render.1 = .ok ()) :
    let polled := (s.console.cycled s.dialect s.cycles).render.2.tick.poll
    s.frame = (polled.1,
      { s with
        console := s.console.after s.dialect (wholeFrame s.cycles)
        frames := s.frames + if polled.1 = .ok .proceed then 1 else 0 }) := by
  intro polled
  have whole := batch_of_all goOn
  have rest : afterBatch (s.console.cycled s.dialect s.cycles) = polled := afterBatch_of_ok drawn
  have steps : s.console.after s.dialect (wholeFrame s.cycles) = polled.2 :=
    Console.after_append s.dialect _ _ _
  rw [steps]
  cases frame_cases s with
  | stopped cut =>
    rw [whole] at cut
    exact absurd rfl cut
  | ended _ ends result scheduler =>
    rw [whole, rest] at ends result scheduler
    rw [if_neg ends]
    exact Prod.ext result scheduler
  | completed _ goesOn result scheduler =>
    rw [whole, rest] at goesOn scheduler
    rw [if_pos goesOn]
    exact Prod.ext (result.trans goesOn.symm) scheduler

end

/-- **A frame is its batch and what follows, or what comes before its end.** If all cycles of
the batch go on, the frame is these cycles, a rendering, a tick and a poll, in this order, and
it is completed and counted exactly if the picture is shown and the poll neither fails nor takes
the exit key; if the picture cannot be shown there is neither tick nor poll. If a cycle ends the
batch, the frame is the cycles up to that one. In any number of completed frames each timer goes
down by one per frame and stops at zero, if no instruction sets it or waits for a key. -/
theorem frame_is_batch (s : Scheduler) :
    let cycled := s.console.cycled s.dialect
    let goesOn (i : Nat) := ((cycled i).cycle s.dialect).1 = .ok .proceed
    let c := cycled s.cycles
    ((∀ i < s.cycles, goesOn i) →
      (c.render.1 = .ok () →
        let polled := c.render.2.tick.poll
        s.frame = (polled.1,
          { s with
            console := s.console.after s.dialect
              (List.replicate s.cycles .cycle ++ [.render, .tick, .poll])
            frames := s.frames + if polled.1 = .ok .proceed then 1 else 0 })) ∧
      (∀ fault, c.render.1 = .error fault →
        s.frame = (.error fault, { s with console := c.render.2 })) ∧
      (s.frame.1 = .ok .proceed ∧ s.frame.2.frames = s.frames + 1 ↔
        c.render.1 = .ok () ∧ ∃ code, c.keys.poll.1 = .ok code ∧ code ≠ some exitKey)) ∧
    (∀ i < s.cycles, (∀ j < i, goesOn j) → ¬ goesOn i →
      s.frame = (((cycled i).cycle s.dialect).1, { s with console := cycled (i + 1) })) ∧
    ∀ count, s.Completes count →
      let is := s.console.instructions s.dialect (runSteps count s)
      let before := s.console.machine
      let after := (s.afterFrames count).console.machine
      ((∀ x, .setDelay x ∉ is ∧ .waitKey x ∉ is) →
        after.delayTimer.toNat = before.delayTimer.toNat - count) ∧
      ((∀ x, .setSound x ∉ is ∧ .waitKey x ∉ is) →
        after.soundTimer.toNat = before.soundTimer.toNat - count) := by
  intro cycled goesOn c
  refine ⟨fun goOn => ⟨frame_of_drawn goOn, fun fault undrawn => frame_of_undrawn goOn undrawn, ?_⟩,
    fun i lt before ends => frame_of_first_end lt before ends, fun count completes =>
      ⟨value_afterFrames .delay completes, value_afterFrames .sound completes⟩⟩
  have counted : s.frame.1 = .ok .proceed ∧ s.frame.2.frames = s.frames + 1 ↔
      s.frame.1 = .ok .proceed :=
    and_iff_left_of_imp frames_of_completed
  have keys : c.render.2.tick.keys = c.keys := Console.keys_render c
  rw [counted, ← keys, ← Console.poll_proceeds_iff]
  cases drawn : c.render.1 with
  | error fault =>
    rw [frame_of_undrawn goOn drawn]
    simp
  | ok =>
    rw [frame_of_drawn goOn drawn]
    simp only [true_and]
    rfl

/-- Two frames that clear the screen while the delay timer runs out from 1; a frame that is
cut short by a word which stands for nothing; and one whose picture cannot be shown. -/
theorem frame_is_batch_whole_and_cut :
    let start (program : List UInt8) (faultAt : Nat → Option String) :=
      (Console.fresh (.ofSeed 0) { faultAt } {} {}).after {} [.load program]
    let clear := start [0x00, 0xE0, 0x12, 0x00]
    let loaded := clear fun _ => none
    let clears : Scheduler := {
      console := { loaded with machine := { loaded.machine with delayTimer := 1 } }, cycles := 2 }
    let cut : Scheduler := { console := start [0x60, 0x01, 0xFF, 0xFF] fun _ => none, cycles := 3 }
    let undrawn : Scheduler := {
      console := clear fun k => if k = 1 then some "draw failed" else none, cycles := 2 }
    (clears.frame.1 = .ok .proceed ∧ clears.frame.2.frames = 1 ∧ clears.Completes 2 ∧
      (clears.afterFrames 2).console.machine.delayTimer.toNat = 0) ∧
    (cut.frame.1 = .error (.undecodable 0x202 0xFFFF) ∧ cut.frame.2.frames = 0) ∧
    (undrawn.frame.1 = .error (.device "draw failed") ∧ undrawn.frame.2.frames = 0) := by
  intro start clear loaded clears cut undrawn
  obtain ⟨completes, goOn, drawn, polled, executed⟩ :
      (∀ k < 2, (clears.afterFrames k).frame.1 = .ok .proceed) ∧
      (∀ i < 2, ((clears.console.cycled {} i).cycle {}).1 = .ok .proceed) ∧
      (clears.console.cycled {} 2).render.1 = .ok () ∧
      (clears.console.cycled {} 2).keys.poll.1 = .ok none ∧
      (∀ i ∈ clears.console.instructions {} (runSteps 2 clears), i ∈ [.clear, .jump 0x200]) := by
    decide +kernel
  obtain ⟨goOn', ends⟩ : (∀ j < 1, ((cut.console.cycled {} j).cycle {}).1 = .ok .proceed) ∧
      ((cut.console.cycled {} 1).cycle {}).1 = .error (.undecodable 0x202 0xFFFF) := by
    decide +kernel
  obtain ⟨goOn'', fails⟩ :
      (∀ i < 2, ((undrawn.console.cycled {} i).cycle {}).1 = .ok .proceed) ∧
      (undrawn.console.cycled {} 2).render.1 = .error (.device "draw failed") := by
    decide +kernel
  have stops : ((cut.console.cycled {} 1).cycle {}).1 ≠ .ok .proceed := by simp [ends]
  have timer : clears.console.machine.delayTimer = 1 := rfl
  have untouched (x : Register) :
      .setDelay x ∉ clears.console.instructions {} (runSteps 2 clears) ∧
        .waitKey x ∉ clears.console.instructions {} (runSteps 2 clears) :=
    ⟨fun set => by simpa using executed _ set, fun wait => by simpa using executed _ wait⟩
  obtain ⟨-, -, counted⟩ := (frame_is_batch clears).1 goOn
  obtain ⟨completed, frames⟩ := counted.mpr ⟨drawn, none, polled, by simp⟩
  obtain ⟨countdown, -⟩ := (frame_is_batch clears).2.2 2 completes
  have cutShort := (frame_is_batch cut).2.1 1 (by decide) goOn' stops
  have unshown := ((frame_is_batch undrawn).1 goOn'').2.1 _ fails
  clear_value loaded
  refine ⟨⟨completed, frames, completes, ?_⟩, ?_, ?_⟩
  · rw [countdown untouched, timer]
    rfl
  · rw [cutShort, ends]
    exact ⟨rfl, rfl⟩
  · rw [unshown]
    exact ⟨rfl, rfl⟩

end Scheduler

end Chip8
