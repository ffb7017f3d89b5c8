import Chip8.Proofs.Faults
import Chip8.Proofs.KeyWait
import Chip8.Proofs.Teardown

/-!
# Runs on devices that work

Where no call on the display or on the keys fails, a run ends by the exit key or by a fault
of the program, and the display has every picture that it was asked to show.

  * `Console.Works` — the devices work; every step keeps that (`Works.perform`).
  * `fault_of_cycle`, `result_render`, `result_poll` — a frame can only fail in a cycle, and
    only for a reason that is in the program.
  * `Scheduler.run_calls` — what a run has called on its display, whether it has stopped or
    is still going; `Scheduler.ends_of_run` — how it ends.
-/

namespace Chip8

/-- Whether a fault is one of the program that is run, and not of what is around it. -/
def Fault.OfProgram : Fault → Prop
  | .undecodable _ _ | .outsideProgram _ _ | .stackOverflow _ _ => True
  | .emptyProgram | .unreadable _ _ | .device _ => False

namespace KeySource

theorem faultAt_poll (s : KeySource) : s.poll.2.faultAt = s.faultAt := by
  unfold poll
  split
  · rfl
  · rfl

theorem faultAt_of_read {s s' : KeySource} {result : Except String UInt8}
    (h : s.read = (result, s')) : s'.faultAt = s.faultAt := by
  unfold read at h
  split at h
  · obtain ⟨-, rfl⟩ := Prod.mk.inj h
    rfl
  · obtain ⟨-, rfl⟩ := Prod.mk.inj h
    rfl

theorem faultAt_await (s : KeySource) : s.await.source.faultAt = s.faultAt := by
  induction s using await_induction with
  | error read | exit read | key read => exact faultAt_of_read read
  | unmapped read _ _ ih => exact ih.trans (faultAt_of_read read)

end KeySource

theorem Display.draw_of_works {d : Display} (h : ∀ k, d.faultAt k = none) (picture : Picture) :
    d.draw picture = (.ok (), { d with draws := d.draws + 1, shown := picture :: d.shown }) := by
  unfold draw
  simp only [h]

namespace Console

variable {dialect : Dialect} {c c' : Console}

/-! ## Each step -/

/-- No call on the devices fails, and the display has kept all the pictures it was given. -/
structure Works (c : Console) : Prop where
  draws : ∀ k, c.display.faultAt k = none
  releases : ∀ k, c.display.releaseFaultAt k = none
  keys : ∀ k, c.keys.faultAt k = none
  shown : c.display.shown.length = c.display.draws

theorem Works.of_eq (h : Works c) (display : c'.display = c.display)
    (keys : c'.keys.faultAt = c.keys.faultAt) : Works c' where
  draws := by rw [display]; exact h.draws
  releases := by rw [display]; exact h.releases
  keys := by rw [keys]; exact h.keys
  shown := by rw [display]; exact h.shown

theorem Works.of_draw (h : Works c) {picture : Picture}
    (display : c'.display = (c.display.draw picture).2)
    (keys : c'.keys.faultAt = c.keys.faultAt) : Works c' := by
  rw [Display.draw_of_works h.draws] at display
  exact {
    draws := by rw [display]; exact h.draws
    releases := by rw [display]; exact h.releases
    keys := by rw [keys]; exact h.keys
    shown := by rw [display]; exact congrArg (· + 1) h.shown }

theorem Works.released (h : Works c) : c.display.release.1 = .ok () := by
  unfold Display.release
  simp only [h.releases]
  split
  · rfl
  · rfl

theorem Works.drawn (h : Works c) : (c.display.draw c.machine.frame.picture).1 = .ok () := by
  rw [Display.draw_of_works h.draws]

theorem Works.waitKey (h : Works c) (x : Register) :
    Works (c.waitKey x).2 ∧ ∃ flow, (c.waitKey x).1 = .ok flow := by
  obtain ⟨_, _, _, -, after⟩ := waitKey_of_drawn x h.drawn
  obtain ⟨-, ends⟩ := c.waitKey_of_works x h.drawn fun _ _ => h.keys _
  constructor
  · rw [after]
    exact h.of_draw rfl (KeySource.faultAt_await c.keys)
  · revert ends
    cases KeySource.answer? c.keys.entries with
    | none => exact fun ends => ⟨.exit, ends.1⟩
    | some key => exact fun ends => ⟨.proceed, ends.1⟩

theorem Works.cycle (h : Works c) (dialect : Dialect) : Works (c.cycle dialect).2 := by
  cases cycle_cases dialect c with
  | outside _ _ console | undecodable _ _ _ console | overflow _ _ _ _ _ _ console
  | executed _ _ _ _ _ _ _ _ console =>
    rw [console]
    exact h.of_eq rfl rfl
  | waited bounds x word =>
    obtain ⟨log, cycle⟩ := cycle_waitKey dialect bounds word
    have before : Works { c with machine := c.machine.taken, log } := h.of_eq rfl rfl
    rw [cycle]
    exact (before.waitKey x).1

theorem fault_of_cycle (h : Works c) {fault : Fault} (failed : (c.cycle dialect).1 = .error fault) :
    fault.OfProgram := by
  cases fault_cases failed with
  | outside _ is | undecodable _ _ is | overflow _ _ _ _ is =>
    rw [is]
    trivial
  | device bounds x wait =>
    have read : Instruction.ofWord? c.machine.nextWord = some (.waitKey x) := by
      rw [← wait]
      exact Instruction.ofWord?_toWord trivial
    obtain ⟨log, cycle⟩ := cycle_waitKey dialect bounds read
    have before : Works { c with machine := c.machine.taken, log } := h.of_eq rfl rfl
    obtain ⟨-, flow, result⟩ := before.waitKey x
    rw [cycle, result] at failed
    cases failed

theorem Works.render (h : Works c) : Works c.render.2 := by
  cases pending : c.machine.frame.pending with
  | true =>
    rw [render_of_pending pending]
    exact h.of_draw rfl rfl
  | false =>
    rw [render_of_settled pending]
    exact h

theorem result_render (h : Works c) : c.render.1 = .ok () := by
  cases pending : c.machine.frame.pending with
  | true =>
    rw [render_of_pending pending, h.drawn]
    rfl
  | false => rw [render_of_settled pending]

theorem Works.poll (h : Works c) : Works c.poll.2 := by
  obtain ⟨_, _, -, polled⟩ := c.poll_eq
  rw [polled]
  exact h.of_eq rfl (KeySource.faultAt_poll c.keys)

theorem result_poll (h : Works c) : ∃ flow, c.poll.1 = .ok flow := by
  have found : c.keys.poll.1 = .ok c.keys.entries.head?.join := by
    unfold KeySource.poll KeySource.nextFault
    rw [h.keys]
  unfold Console.poll
  rcases polled : c.keys.poll with ⟨reason | _ | code, keys⟩
  · rw [polled] at found
    cases found
  · exact ⟨.proceed, rfl⟩
  · simp only
    split
    · exact ⟨.exit, rfl⟩
    · cases Keypad.keyOf? code with
      | none => exact ⟨.proceed, rfl⟩
      | some key => exact ⟨.proceed, rfl⟩

theorem Works.load (h : Works c) (program : List UInt8) : Works (c.load program).2 := by
  unfold Console.load
  split
  · exact h
  · exact h.of_eq rfl rfl

theorem Works.perform (h : Works c) (dialect : Dialect) (step : Step) :
    Works (c.perform dialect step).2 := by
  cases step with
  | cycle => exact h.cycle dialect
  | tick => exact h.of_eq rfl rfl
  | poll => exact h.poll
  | render => exact h.render
  | load program => exact h.load program
  | shutdown =>
    have display : (c.perform dialect .shutdown).2.display = c.display.release.2 := rfl
    rw [Display.release_eq] at display
    exact {
      draws := by rw [display]; exact h.draws
      releases := by rw [display]; exact h.releases
      keys := h.keys
      shown := by rw [display]; exact h.shown }

theorem Works.after (h : Works c) (dialect : Dialect) (steps : List Step) :
    Works (c.after dialect steps) := by
  induction steps generalizing c with
  | nil => exact h
  | cons step rest ih => exact ih (h.perform dialect step)

end Console

namespace Scheduler

open Console (Works Uses)

variable {s s' : Scheduler} {fault : Fault}

/-! ## A frame and a run -/

theorem fault_of_batch {dialect : Dialect} {count : Nat} {c : Console} (h : Works c)
    (failed : (batch dialect count c).1 = .error fault) : fault.OfProgram := by
  induction count generalizing c with
  | zero => cases failed
  | succ count ih =>
    by_cases proceeds : (c.cycle dialect).1 = .ok .proceed
    · rw [batch_of_proceed count proceeds] at failed
      exact ih (h.cycle dialect) failed
    · rw [batch_of_end count proceeds] at failed
      exact Console.fault_of_cycle h failed

theorem result_afterBatch {c : Console} (h : Works c) : ∃ flow, (afterBatch c).1 = .ok flow := by
  rw [afterBatch_of_ok (Console.result_render h)]
  have ticked : Works c.render.2.tick := h.render.of_eq rfl rfl
  exact Console.result_poll ticked

theorem fault_of_frame (h : Works s.console) (failed : s.frame.1 = .error fault) :
    fault.OfProgram := by
  cases frame_cases s with
  | stopped _ result =>
    rw [result] at failed
    exact fault_of_batch h failed
  | ended _ _ result =>
    have last : Works (batch s.dialect s.cycles s.console).2 := by
      rw [← after_batchSteps]
      exact h.after _ _
    obtain ⟨flow, ok⟩ := result_afterBatch last
    rw [result, ok] at failed
    cases failed
  | completed _ _ result =>
    rw [result] at failed
    cases failed

theorem works_frame (h : Works s.console) : Works s.frame.2.console := by
  rw [← after_frameSteps]
  exact h.after _ _

theorem works_afterFrames (h : Works s.console) (count : Nat) :
    Works (s.afterFrames count).console := by
  induction count with
  | zero => exact h
  | succ count ih =>
    rw [afterFrames_succ]
    exact works_frame ih

/-- A run that stops was ended by the exit key or by a fault of the program. -/
theorem ends_of_run {limit : Nat} {result : Except Fault Unit} (h : Works s.console)
    (run : s.run limit = (some result, s')) :
    result = .ok () ∨ ∃ fault, result = .error fault ∧ fault.OfProgram := by
  obtain ⟨count, -, ends, -, finished⟩ := run_stops run
  have first : Works (s.tell (.running s.cycles s.pacer)).console := h.of_eq rfl rfl
  have last := works_afterFrames first count
  have reported := congrArg Prod.fst finished
  cases outcome : ((s.tell (.running s.cycles s.pacer)).afterFrames count).frame.1 with
  | error fault =>
    rw [outcome] at reported
    exact .inr ⟨fault, reported, fault_of_frame last outcome⟩
  | ok flow =>
    rw [outcome] at reported
    exact .inl (reported.trans (finish_of_released (works_frame last).released))

/-- What a run has called on its display: drawings, as many as there are new pictures, and
once it has stopped one handing back behind them. -/
theorem run_calls (h : Works s.console) (owns : s.console.display.owns = true) (limit : Nat) :
    ∃ during, .release ∉ during ∧
      (s.run limit).2.console.display.shown.length =
        s.console.display.shown.length + during.count .draw ∧
      (s.run limit).2.console.display.releases =
        s.console.display.releases + (if (s.run limit).1.isSome then 1 else 0) ∧
      (s.run limit).2.console.calls =
        (if (s.run limit).1.isSome then [.release] else []) ++ (during ++ s.console.calls) := by
  let start := s.tell (.running s.cycles s.pacer)
  obtain ⟨during, uses⟩ := Console.uses_after start.dialect start.console
    (shutdown_notMem_runSteps limit start)
  have first : Works start.console := h.of_eq rfl rfl
  have last := first.after start.dialect (runSteps limit start)
  rw [after_runSteps] at uses last
  have drawn : (runFrames limit start).2.console.display.shown.length =
      s.console.display.shown.length + during.count .draw := by
    rw [last.shown, uses.draws, ← first.shown]
    rfl
  refine ⟨during, uses.kept, ?_⟩
  rcases frames : runFrames limit start with ⟨_ | result, last⟩
  · have goesOn : s.run limit = (none, last) := by
      unfold run
      rw [frames]
    rw [frames] at drawn uses
    rw [goesOn]
    exact ⟨drawn, uses.releases, uses.calls⟩
  · have stops : s.run limit = (some (finish result last).1, (finish result last).2) := by
      unfold run
      rw [frames]
    rw [frames] at drawn uses
    have display : (finish result last).2.console.display =
        { last.console.display with releases := last.console.display.releases + 1 } := by
      show last.console.display.release.2 = _
      rw [Display.release_eq, if_pos (uses.owns.trans owns)]
    rw [stops]
    refine ⟨?_, ?_, congrArg (DeviceCall.release :: ·) uses.calls⟩
    · rw [display]
      exact drawn
    · rw [display]
      exact congrArg (· + 1) uses.releases

end Scheduler

end Chip8
