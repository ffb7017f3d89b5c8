import Chip8.Proofs.Scheduled

/-!
# Runs apart from their logs

A console writes its log and never reads it. Two consoles that differ in their logs alone
therefore go through every run side by side: each step gives the same on both, and they differ
in their logs alone after it.

  * `Console.unlogged` empties the log, `Console.aside` does so in the outcome of an operation.
  * `IgnoresLog` — an operation does the same whether the log was emptied before it or not. The
    lemmas `ignoresLog_cycle` and so on say it of each operation.
  * `trace_of_unlogged` and `Scheduler.run_of_unlogged` follow for runs step by step, and frame
    by frame.
-/

namespace Chip8

namespace Console

/-- The console with nothing in its log. -/
def unlogged (c : Console) : Console := { c with log := {} }

@[simp] theorem machine_unlogged (c : Console) : c.unlogged.machine = c.machine := rfl

section
variable {α : Type}

/-- What an operation gives and leaves, but for the log. -/
def aside (outcome : α × Console) : α × Console := (outcome.1, outcome.2.unlogged)

/-- It does not matter to an operation what is in the log. -/
def IgnoresLog (operation : Console → α × Console) : Prop :=
  ∀ c, aside (operation c.unlogged) = aside (operation c)

theorem IgnoresLog.congr {operation : Console → α × Console} (ignores : IgnoresLog operation)
    {c c' : Console} (same : c.unlogged = c'.unlogged) :
    aside (operation c) = aside (operation c') := by
  rw [← ignores c, same, ignores c']

/-- What comes after an operation that ignores the log may go by what it gave. -/
theorem IgnoresLog.andThen {β : Type} {operation : Console → α × Console}
    {next : α → Console → β × Console} (ignores : IgnoresLog operation)
    (later : ∀ a, IgnoresLog (next a)) :
    IgnoresLog fun c => next (operation c).1 (operation c).2 := by
  intro c
  obtain ⟨result, console⟩ := Prod.mk.inj (ignores c)
  show aside (next (operation c.unlogged).1 (operation c.unlogged).2) = _
  rw [result]
  exact (later _).congr console

end

theorem aside_plain {outcome outcome' : Except Fault Unit × Console}
    (same : aside outcome = aside outcome') : aside (plain outcome) = aside (plain outcome') := by
  obtain ⟨result, left⟩ := Prod.mk.inj same
  exact Prod.ext (congrArg (Except.map fun _ => Flow.proceed) result) left

/-! ## Steps -/

theorem ignoresLog_waitKey (x : Register) : IgnoresLog fun c => c.waitKey x := by
  intro c
  simp only [waitKey, present, unlogged]
  cases c.display.draw c.machine.frame.picture with
  | mk result display =>
    cases result with
    | error reason => rfl
    | ok =>
      have shown : (Except.ok () : Except String Unit).mapError Fault.device = .ok () := rfl
      simp only [shown]
      rcases c.keys.await.result with reason | _ | key
      · rfl
      · rfl
      · rfl

theorem ignoresLog_execute (dialect : Dialect) (f : Fetched) :
    IgnoresLog fun c => c.execute dialect f := by
  intro c
  by_cases waits : ∃ x, f.instruction = .waitKey x
  · obtain ⟨x, waits⟩ := waits
    obtain ⟨address, word, i⟩ := f
    obtain rfl : i = .waitKey x := waits
    -- both consoles write into their logs before they wait
    exact (ignoresLog_waitKey x).congr rfl
  · have noWait : ∀ x, f.instruction ≠ .waitKey x := fun x h => waits ⟨x, h⟩
    show aside (c.unlogged.execute dialect f) = aside (c.execute dialect f)
    rw [execute_of_ne_waitKey noWait, execute_of_ne_waitKey noWait, machine_unlogged]
    cases c.machine.execute dialect f with
    | error fault => rfl
    | ok machine => rfl

theorem ignoresLog_cycle (dialect : Dialect) : IgnoresLog (cycle dialect) := by
  intro c
  simp only [cycle, machine_unlogged]
  rcases c.machine.fetch with ⟨fault | fetched, machine⟩
  · rfl
  · exact (ignoresLog_execute dialect fetched).congr rfl

theorem ignoresLog_render : IgnoresLog render := by
  intro c
  cases pending : c.machine.frame.pending with
  | true =>
    rw [render_of_pending pending, render_of_pending (c := c.unlogged) pending]
    rfl
  | false =>
    rw [render_of_settled pending, render_of_settled (c := c.unlogged) pending]
    rfl

theorem ignoresLog_poll : IgnoresLog poll := by
  intro c
  simp only [poll, unlogged]
  rcases c.keys.poll with ⟨reason | _ | code, keys⟩
  · rfl
  · rfl
  · by_cases isExit : code = exitKey
    · simp only [if_pos isExit]
      rfl
    · simp only [if_neg isExit]
      cases Keypad.keyOf? code with
      | none => rfl
      | some key => rfl

theorem ignoresLog_load (program : List UInt8) : IgnoresLog fun c => c.load program := by
  intro c
  simp only [load, unlogged]
  cases c.machine.memory.load program with
  | error fault => rfl
  | ok memory => rfl

theorem ignoresLog_perform (dialect : Dialect) (step : Step) :
    IgnoresLog fun c => c.perform dialect step := by
  cases step with
  | cycle => exact ignoresLog_cycle dialect
  | tick => exact fun c => rfl
  | poll => exact ignoresLog_poll
  | render => exact fun c => aside_plain (ignoresLog_render c)
  | load program => exact fun c => aside_plain (ignoresLog_load program c)
  | shutdown => exact fun c => rfl

/-! ## Runs step by step -/

theorem trace_of_unlogged (dialect : Dialect) (steps : List Step) {c c' : Console}
    (same : c.unlogged = c'.unlogged) :
    (c.trace dialect steps).map aside = (c'.trace dialect steps).map aside := by
  induction steps generalizing c c' with
  | nil => rfl
  | cons step rest ih =>
    have first := (ignoresLog_perform dialect step).congr same
    rw [trace, trace, List.map_cons, List.map_cons, first]
    exact congrArg _ (ih (Prod.mk.inj first).2)

end Console

namespace Scheduler

open Console (unlogged aside IgnoresLog ignoresLog_cycle ignoresLog_render ignoresLog_poll)

/-! ## Runs frame by frame -/

theorem ignoresLog_batch (dialect : Dialect) (count : Nat) :
    IgnoresLog (batch dialect count) := by
  induction count with
  | zero => exact fun c => rfl
  | succ count ih =>
    intro c
    obtain ⟨result, console⟩ := Prod.mk.inj (ignoresLog_cycle dialect c)
    by_cases proceeds : (c.cycle dialect).1 = .ok .proceed
    · rw [batch_of_proceed count proceeds, batch_of_proceed count (result.trans proceeds)]
      exact ih.congr console
    · have ends : (c.unlogged.cycle dialect).1 ≠ .ok .proceed := result ▸ proceeds
      rw [batch_of_end count proceeds, batch_of_end count ends]
      exact ignoresLog_cycle dialect c

theorem ignoresLog_afterBatch : IgnoresLog afterBatch := by
  intro c
  obtain ⟨result, console⟩ := Prod.mk.inj (ignoresLog_render c)
  cases shows : c.render.1 with
  | error fault =>
    rw [afterBatch_of_error shows, afterBatch_of_error (result.trans shows)]
    exact Prod.ext rfl console
  | ok =>
    rw [afterBatch_of_ok shows, afterBatch_of_ok (result.trans shows)]
    exact ignoresLog_poll.congr (congrArg Console.tick console :)

/-- What is done once a batch has given a result: unless that ends the frame, the rest of it. -/
def goOn : Except Fault Flow → Console → Except Fault Flow × Console
  | .ok .proceed, c => afterBatch c
  | result, c => (result, c)

/-- What a frame does to the console. -/
def frameOn (dialect : Dialect) (cycles : Nat) (c : Console) : Except Fault Flow × Console :=
  goOn (batch dialect cycles c).1 (batch dialect cycles c).2

theorem ignoresLog_frameOn (dialect : Dialect) (cycles : Nat) :
    IgnoresLog (frameOn dialect cycles) := by
  suffices later : ∀ result, IgnoresLog (goOn result) from
    (ignoresLog_batch dialect cycles).andThen later
  intro result
  cases result with
  | error fault => exact fun c => rfl
  | ok flow =>
    cases flow with
    | proceed => exact ignoresLog_afterBatch
    | exit => exact fun c => rfl

theorem frame_eq (s : Scheduler) :
    s.frame =
      ((frameOn s.dialect s.cycles s.console).1,
        { s with
          console := (frameOn s.dialect s.cycles s.console).2
          frames :=
            match (frameOn s.dialect s.cycles s.console).1 with
            | .ok .proceed => s.frames + 1
            | _ => s.frames }) := by
  unfold frame frameOn
  rcases batch s.dialect s.cycles s.console with ⟨fault | flow, c⟩
  · rfl
  · cases flow with
    | exit => rfl
    | proceed =>
      simp only [goOn]
      rcases afterBatch c with ⟨fault | flow, c'⟩
      · rfl
      · cases flow with
        | exit => rfl
        | proceed => rfl

/-- The scheduler with nothing in its console's log. -/
def unlogged (s : Scheduler) : Scheduler := { s with console := s.console.unlogged }

theorem frame_of_unlogged {s s' : Scheduler} (same : s.unlogged = s'.unlogged) :
    s.frame.1 = s'.frame.1 ∧ s.frame.2.unlogged = s'.frame.2.unlogged := by
  -- but for its console a frame goes by what an emptied log leaves as it is
  have emptied (s : Scheduler) :
      s.unlogged.frame.1 = s.frame.1 ∧ s.unlogged.frame.2.unlogged = s.frame.2.unlogged := by
    obtain ⟨result, console⟩ := Prod.mk.inj (ignoresLog_frameOn s.dialect s.cycles s.console)
    rw [s.frame_eq, s.unlogged.frame_eq]
    refine ⟨result, ?_⟩
    simp only [unlogged, result, console]
  obtain ⟨result, scheduler⟩ := emptied s
  obtain ⟨result', scheduler'⟩ := emptied s'
  rw [same] at result scheduler
  exact ⟨result.symm.trans result', scheduler.symm.trans scheduler'⟩

theorem runFrames_of_unlogged (limit : Nat) {s s' : Scheduler} (same : s.unlogged = s'.unlogged) :
    (runFrames limit s).1 = (runFrames limit s').1 ∧
      (runFrames limit s).2.unlogged = (runFrames limit s').2.unlogged := by
  induction limit generalizing s s' with
  | zero => exact ⟨rfl, same⟩
  | succ limit ih =>
    obtain ⟨result, scheduler⟩ := frame_of_unlogged same
    by_cases proceeds : s.frame.1 = .ok .proceed
    · rw [runFrames_of_proceed limit proceeds,
        runFrames_of_proceed limit (result.symm.trans proceeds)]
      exact ih scheduler
    · have ends : s'.frame.1 ≠ .ok .proceed := result ▸ proceeds
      rw [runFrames_of_end limit proceeds, runFrames_of_end limit ends, result]
      exact ⟨rfl, scheduler⟩

theorem finish_of_unlogged (result : Except Fault Unit) {s s' : Scheduler}
    (same : s.unlogged = s'.unlogged) :
    (finish result s).1 = (finish result s').1 ∧
      (finish result s).2.unlogged = (finish result s').2.unlogged := by
  have emptied (s : Scheduler) :
      (finish result s.unlogged).1 = (finish result s).1 ∧
        (finish result s.unlogged).2.unlogged = (finish result s).2.unlogged := ⟨rfl, rfl⟩
  rw [← (emptied s).1, ← (emptied s).2, same]
  exact emptied s'

theorem run_of_unlogged (limit : Nat) {s s' : Scheduler} (same : s.unlogged = s'.unlogged) :
    (s.run limit).1 = (s'.run limit).1 ∧
      (s.run limit).2.unlogged = (s'.run limit).2.unlogged := by
  have told : (s.tell (.running s.cycles s.pacer)).unlogged =
      (s'.tell (.running s'.cycles s'.pacer)).unlogged := same
  obtain ⟨ended, left⟩ := runFrames_of_unlogged limit told
  unfold run
  rcases frames : runFrames limit (s.tell (.running s.cycles s.pacer)) with ⟨outcome, t⟩
  rcases frames' : runFrames limit (s'.tell (.running s'.cycles s'.pacer)) with ⟨outcome', t'⟩
  rw [frames, frames'] at ended left
  obtain rfl : outcome = outcome' := ended
  cases outcome with
  | none => exact ⟨rfl, left⟩
  | some result =>
    have beforeEnd : t.unlogged = t'.unlogged := left
    obtain ⟨finished, tornDown⟩ := finish_of_unlogged result beforeEnd
    exact ⟨congrArg some finished, tornDown⟩

end Scheduler

end Chip8
