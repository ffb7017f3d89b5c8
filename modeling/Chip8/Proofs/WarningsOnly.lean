import Chip8.Proofs.KeysAhead

/-!
# A log that keeps warnings only

The log of a session keeps warnings, and the only warning there is comes from loading a program
that is too long. So no run adds anything to the log of a session, which is what makes the log of
a run independent of how often it is looked at.

  * `Log.addAll_of_warn` — entries of other levels are not kept.
  * `log_cycle`, `log_poll`, `log_frame`, `log_runFrames` — nothing is added by a cycle, a poll, a
    frame and frames.
  * `run_of_works` — the beginning and the end of a run add nothing either, so that on devices
    that work a run is no more than its frames.
-/

namespace Chip8

namespace Log

variable {log : Log}

theorem add_of_warn {entry : Entry} (warn : log.level = .warn) (other : entry.level ≠ .warn) :
    log.add entry = log := by
  unfold add
  rw [warn]
  cases level : entry.level with
  | warn => exact absurd level other
  | trace | debug | info => rfl

theorem addAll_of_warn {entries : List Entry} (warn : log.level = .warn)
    (others : ∀ entry ∈ entries, entry.level ≠ .warn) : log.addAll entries = log := by
  induction entries with
  | nil => rfl
  | cons entry rest ih =>
    obtain ⟨first, later⟩ := List.forall_mem_cons.mp others
    show (log.add entry).addAll rest = log
    rw [add_of_warn warn first]
    exact ih later

end Log

namespace Console

variable {c : Console}

theorem level_of_mem_remark {m : Machine} {f : Fetched} {entry : Log.Entry}
    (h : entry ∈ remark m f) : entry.level = .debug := by
  obtain ⟨address, word, i⟩ := f
  cases i
  case hostCall target =>
    rw [List.mem_singleton.mp h]
    rfl
  case ret =>
    unfold remark at h
    cases stack : m.stack with
    | nil =>
      rw [stack] at h
      rw [List.mem_singleton.mp h]
      rfl
    | cons top rest =>
      rw [stack] at h
      exact absurd h List.not_mem_nil
  all_goals exact absurd h List.not_mem_nil

theorem told_of_warn (dialect : Dialect) (f : Fetched) (warn : c.log.level = .warn) :
    c.told dialect f = c.log := by
  refine Log.addAll_of_warn warn fun entry mem => ?_
  rcases List.mem_cons.mp mem with rfl | mem
  · show Log.Level.trace ≠ .warn
    decide
  · rw [level_of_mem_remark mem]
    decide

theorem log_waitKey (x : Register) (warn : c.log.level = .warn) :
    (c.waitKey x).2.log = c.log := by
  cases drawn : (c.display.draw c.machine.frame.picture).1 with
  | error reason => rw [waitKey_of_undrawn x drawn]
  | ok =>
    rw [left_of_drawn x drawn]
    refine Log.addAll_of_warn warn fun entry mem => ?_
    obtain ⟨code, -, rfl⟩ := List.mem_map.mp mem
    show Log.Level.debug ≠ .warn
    decide

theorem log_cycle (dialect : Dialect) (warn : c.log.level = .warn) :
    (c.cycle dialect).2.log = c.log := by
  unfold cycle
  rcases c.machine.fetch with ⟨fault | f, machine⟩
  · rfl
  · show (execute dialect { c with machine } f).2.log = c.log
    have told := told_of_warn (c := { c with machine }) dialect f warn
    by_cases waits : ∃ x, f.instruction = .waitKey x
    · obtain ⟨x, waits⟩ := waits
      obtain ⟨address, word, i⟩ := f
      obtain rfl : i = .waitKey x := waits
      rw [execute_waitKey, told]
      exact log_waitKey x warn
    · rw [execute_of_ne_waitKey fun x h => waits ⟨x, h⟩, told]
      split
      · rfl
      · rfl

theorem log_render (c : Console) : c.render.2.log = c.log := by
  cases pending : c.machine.frame.pending with
  | true => rw [render_of_pending pending]
  | false => rw [render_of_settled pending]

theorem log_poll (warn : c.log.level = .warn) : c.poll.2.log = c.log := by
  unfold poll
  rcases c.keys.poll with ⟨reason | _ | code, keys⟩
  · rfl
  · rfl
  · simp only
    split
    · rfl
    · split
      · rfl
      · refine Log.add_of_warn warn ?_
        show Log.Level.debug ≠ .warn
        decide

end Console

namespace Scheduler

variable {s : Scheduler}

theorem log_batch (dialect : Dialect) (count : Nat) {c : Console} (warn : c.log.level = .warn) :
    (batch dialect count c).2.log = c.log := by
  induction count generalizing c with
  | zero => rfl
  | succ count ih =>
    have first := c.log_cycle dialect warn
    by_cases proceeds : (c.cycle dialect).1 = .ok .proceed
    · rw [batch_of_proceed count proceeds, ih (first ▸ warn), first]
    · rw [batch_of_end count proceeds, first]

theorem log_afterBatch {c : Console} (warn : c.log.level = .warn) :
    (afterBatch c).2.log = c.log := by
  have rendered := c.log_render
  cases shows : c.render.1 with
  | error fault => rw [afterBatch_of_error shows, rendered]
  | ok =>
    rw [afterBatch_of_ok shows, Console.log_poll (c := c.render.2.tick) (rendered ▸ warn)]
    exact rendered

/-- A log that keeps warnings only has nothing to keep of a frame. -/
theorem log_frame (warn : s.console.log.level = .warn) :
    s.frame.2.console.log = s.console.log := by
  have cycled := log_batch s.dialect s.cycles warn
  cases frame_cases s with
  | stopped _ _ scheduler => rw [scheduler, cycled]
  | ended _ _ _ scheduler | completed _ _ _ scheduler =>
    rw [scheduler, log_afterBatch (cycled ▸ warn), cycled]

/-- Nor is the beginning or the end of a run told. -/
theorem tell_of_warn {entry : Log.Entry} (warn : s.console.log.level = .warn)
    (info : entry.level = .info) : s.tell entry = s := by
  rw [tell, Log.add_of_warn warn (by rw [info]; decide)]

theorem log_runFrames (limit : Nat) (warn : s.console.log.level = .warn) :
    (runFrames limit s).2.console.log = s.console.log := by
  induction limit generalizing s with
  | zero => rfl
  | succ limit ih =>
    have framed := log_frame warn
    by_cases proceeds : s.frame.1 = .ok .proceed
    · rw [runFrames_of_proceed limit proceeds, ih (framed ▸ warn), framed]
    · rw [runFrames_of_end limit proceeds, framed]

/-- Where devices work and warnings only are kept, the beginning and the end of a run add nothing
to its frames. -/
theorem run_of_works (limit : Nat) (works : s.console.Works) (warn : s.console.log.level = .warn) :
    (s.run limit).1 = (runFrames limit s).1 ∧
      (s.run limit).2.console.display.shown = (runFrames limit s).2.console.display.shown ∧
      (s.run limit).2.console.log = s.console.log := by
  have last : (runFrames limit s).2.console.Works := by
    rw [← after_runSteps]
    exact works.after _ _
  have log := log_runFrames limit warn
  unfold run
  rw [tell_of_warn warn rfl]
  rcases frames : runFrames limit s with ⟨_ | result, s'⟩
  · rw [frames] at log
    exact ⟨rfl, rfl, log⟩
  · rw [frames] at last log
    refine ⟨congrArg some ?_, ?_, ?_⟩
    · cases result with
      | error fault => rfl
      | ok => exact finish_of_released last.released
    · show s'.console.display.release.2.shown = _
      rw [Display.release_eq]
    · show (s'.tell (.stopped s'.frames)).console.log = _
      rw [tell_of_warn (by rw [log, warn]) rfl, log]

end Scheduler

end Chip8
