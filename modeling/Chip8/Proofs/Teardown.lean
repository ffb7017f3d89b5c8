import Chip8.Proofs.KeySources
import Chip8.Proofs.Scheduled

/-!
# The end of a run

A console keeps a record of the calls that it makes on its devices. `Uses` says of a
stretch of a run that the record is true, in that the devices have counted as many calls as
it holds, and that the display was not handed back. That is so of every step but
`shutdown`, and a frame makes no such step. A run shuts down once its frames have ended,
whatever ended them, so that handing back the display is the last call of a run and the
only one of its kind.

  * `uses_perform`, `uses_after` — a step and a run without `shutdown` only use the devices.
  * `shutdown_notMem_runSteps` — no frame shuts down.
  * `finish_of_fault`, `finish_of_unreleased`, `finish_of_released` — which of two faults a
    run reports.
  * `run_stops` — a run that stops is frames that were completed, one that was not, and the
    end.

`run_tears_down` says how every run ends that does.
-/

namespace Chip8

namespace Console

variable {c c' c'' : Console}

/-! ## The record of calls -/

/-- From `c` to `c'` the calls `during` were recorded, newest first, as the devices count
them, and the display was not handed back. -/
structure Uses (during : List DeviceCall) (c c' : Console) : Prop where
  calls : c'.calls = during ++ c.calls
  kept : .release ∉ during
  draws : c'.display.draws = c.display.draws + during.count .draw
  asked : c'.keys.calls = c.keys.calls + (during.count .poll + during.count .read)
  releases : c'.display.releases = c.display.releases
  owns : c'.display.owns = c.display.owns

theorem Uses.of_eq (calls : c'.calls = c.calls) (display : c'.display = c.display)
    (keys : c'.keys = c.keys) : Uses [] c c' where
  calls := calls
  kept := List.not_mem_nil
  draws := by rw [display]; rfl
  asked := by rw [keys]; rfl
  releases := by rw [display]
  owns := by rw [display]

theorem Uses.append {earlier later : List DeviceCall} (h : Uses earlier c c')
    (h' : Uses later c' c'') : Uses (later ++ earlier) c c'' where
  calls := by rw [h'.calls, h.calls, List.append_assoc]
  kept := by
    rw [List.mem_append, not_or]
    exact ⟨h'.kept, h.kept⟩
  draws := by
    rw [h'.draws, h.draws, List.count_append]
    omega
  asked := by
    rw [h'.asked, h.asked, List.count_append, List.count_append]
    omega
  releases := h'.releases.trans h.releases
  owns := h'.owns.trans h.owns

/-- The picture was shown, or at least tried to be. -/
theorem uses_of_draw (calls : c'.calls = .draw :: c.calls)
    (display : c'.display = (c.display.draw c.machine.frame.picture).2)
    (keys : c'.keys = c.keys) : Uses [.draw] c c' := by
  obtain ⟨_, drawn⟩ := c.display.draw_eq c.machine.frame.picture
  rw [drawn] at display
  exact {
    calls := calls
    kept := by simp
    draws := by rw [display]; rfl
    asked := by rw [keys]; rfl
    releases := by rw [display]
    owns := by rw [display] }

theorem uses_of_reads {reads : Nat} (calls : c'.calls = List.replicate reads .read ++ c.calls)
    (display : c'.display = c.display) (keys : c'.keys.calls = c.keys.calls + reads) :
    Uses (List.replicate reads .read) c c' where
  calls := calls
  kept := by simp
  draws := by simp [display, List.count_replicate]
  asked := by simp [keys, List.count_replicate]
  releases := by rw [display]
  owns := by rw [display]

theorem uses_waitKey (c : Console) (x : Register) :
    ∃ during, Uses during c (c.waitKey x).2 := by
  cases drawn : (c.display.draw c.machine.frame.picture).1 with
  | error reason =>
    rw [waitKey_of_undrawn x drawn]
    exact ⟨[.draw], uses_of_draw rfl rfl rfl⟩
  | ok =>
    obtain ⟨_, _, _, -, after⟩ := waitKey_of_drawn x drawn
    rw [after]
    -- the codes are read when the picture is up already
    have shown : Uses [.draw] c
        { c with
          display := (c.display.draw c.machine.frame.picture).2
          calls := .draw :: c.calls } := uses_of_draw rfl rfl rfl
    have le := KeySource.calls_le_await c.keys
    exact ⟨_, shown.append (uses_of_reads rfl rfl (Nat.add_sub_cancel' le).symm)⟩

theorem uses_cycle (dialect : Dialect) (c : Console) :
    ∃ during, Uses during c (c.cycle dialect).2 := by
  cases cycle_cases dialect c with
  | outside _ _ console | undecodable _ _ _ console | overflow _ _ _ _ _ _ console
  | executed _ _ _ _ _ _ _ _ console =>
    rw [console]
    exact ⟨[], .of_eq rfl rfl rfl⟩
  | waited bounds x word =>
    obtain ⟨log, cycle⟩ := cycle_waitKey dialect bounds word
    obtain ⟨during, uses⟩ := uses_waitKey { c with machine := c.machine.taken, log } x
    rw [cycle]
    exact ⟨during, uses.calls, uses.kept, uses.draws, uses.asked, uses.releases, uses.owns⟩

theorem uses_perform (dialect : Dialect) (c : Console) {step : Step} (h : step ≠ .shutdown) :
    ∃ during, Uses during c (c.perform dialect step).2 := by
  cases step with
  | shutdown => exact absurd rfl h
  | cycle => exact uses_cycle dialect c
  | tick => exact ⟨[], .of_eq rfl rfl rfl⟩
  | poll =>
    obtain ⟨_, _, -, polled⟩ := c.poll_eq
    show ∃ during, Uses during c c.poll.2
    rw [polled]
    exact ⟨[.poll], rfl, by simp, rfl, KeySource.calls_poll _, rfl, rfl⟩
  | render =>
    show ∃ during, Uses during c c.render.2
    cases pending : c.machine.frame.pending with
    | true =>
      rw [render_of_pending pending]
      exact ⟨[.draw], uses_of_draw rfl rfl rfl⟩
    | false =>
      rw [render_of_settled pending]
      exact ⟨[], .of_eq rfl rfl rfl⟩
  | load program =>
    show ∃ during, Uses during c (c.load program).2
    unfold load
    split
    · exact ⟨[], .of_eq rfl rfl rfl⟩
    · exact ⟨[], .of_eq rfl rfl rfl⟩

theorem uses_after (dialect : Dialect) (c : Console) {steps : List Step}
    (h : .shutdown ∉ steps) : ∃ during, Uses during c (c.after dialect steps) := by
  induction steps generalizing c with
  | nil => exact ⟨[], .of_eq rfl rfl rfl⟩
  | cons step steps ih =>
    rw [List.mem_cons, not_or] at h
    obtain ⟨first, uses⟩ := uses_perform dialect c (Ne.symm h.1)
    obtain ⟨later, uses'⟩ := ih (c.perform dialect step).2 h.2
    exact ⟨later ++ first, uses.append uses'⟩

end Console

namespace Scheduler

open Console (Uses)

variable {s s' : Scheduler}

/-! ## No frame shuts down -/

theorem shutdown_notMem_batchSteps (dialect : Dialect) (count : Nat) (c : Console) :
    .shutdown ∉ batchSteps dialect count c := by
  induction count generalizing c with
  | zero => exact List.not_mem_nil
  | succ count ih =>
    by_cases proceeds : (c.cycle dialect).1 = .ok .proceed
    · rw [batchSteps_of_proceed count proceeds, List.mem_cons, not_or]
      exact ⟨by simp, ih _⟩
    · rw [batchSteps_of_end count proceeds]
      simp

theorem shutdown_notMem_frameSteps (s : Scheduler) : .shutdown ∉ s.frameSteps := by
  have batch := shutdown_notMem_batchSteps s.dialect s.cycles s.console
  by_cases proceeds : (Scheduler.batch s.dialect s.cycles s.console).1 = .ok .proceed
  · rw [frameSteps_of_proceed proceeds, List.mem_append, not_or]
    refine ⟨batch, ?_⟩
    unfold afterBatchSteps
    split
    · simp
    · simp
  · rw [frameSteps_of_end proceeds]
    exact batch

theorem shutdown_notMem_runSteps (limit : Nat) (s : Scheduler) : .shutdown ∉ runSteps limit s := by
  induction limit generalizing s with
  | zero => exact List.not_mem_nil
  | succ limit ih =>
    have frame := shutdown_notMem_frameSteps s
    by_cases proceeds : s.frame.1 = .ok .proceed
    · rw [runSteps_of_proceed limit proceeds, List.mem_append, not_or]
      exact ⟨frame, ih _⟩
    · rw [runSteps_of_end limit proceeds]
      exact frame

/-! ## The end -/

theorem finish_of_fault (fault : Fault) (s : Scheduler) :
    (finish (.error fault) s).1 = .error fault := rfl

theorem finish_of_unreleased {reason : String}
    (h : s.console.display.release.1 = .error reason) :
    (finish (.ok ()) s).1 = .error (.device reason) := by
  show s.console.display.release.1.mapError Fault.device = _
  rw [h]
  rfl

theorem finish_of_released (h : s.console.display.release.1 = .ok ()) :
    (finish (.ok ()) s).1 = .ok () := by
  show s.console.display.release.1.mapError Fault.device = _
  rw [h]
  rfl

/-- A run that stops is frames that were completed, one that was not, and the end. -/
theorem run_stops {limit : Nat} {result : Except Fault Unit}
    (h : s.run limit = (some result, s')) :
    let start := s.tell (.running s.cycles s.pacer)
    ∃ count, start.Completes count ∧
      let last := (start.afterFrames count).frame
      last.1 ≠ .ok .proceed ∧ last.2 = (runFrames limit start).2 ∧
        (result, s') = finish (last.1.map fun _ => ()) last.2 := by
  intro start
  unfold run at h
  split at h
  · cases h
  · next outcome s'' frames =>
    obtain ⟨count, completes, ends, rfl, rfl⟩ := runFrames_stops frames
    have told := Prod.mk.inj h
    exact ⟨count, completes, ends, (congrArg Prod.snd frames).symm,
      Prod.ext (Option.some.inj told.1).symm told.2.symm⟩

/-- **Every run that stops is torn down.** It completes some frames and then one frame that
exits or fails. All that it calls on its devices, as these count it, comes before it hands
back the display, which it does once; the picture is blank then, the frames that were
completed are counted, and the fault of the last frame is reported before one of handing
back the display. -/
theorem run_tears_down (limit : Nat) (s s' : Scheduler) (result : Except Fault Unit)
    (h : s.run limit = (some result, s')) :
    let start := s.tell (.running s.cycles s.pacer)
    ∃ (count : Nat) (during : List DeviceCall),
      let last := (start.afterFrames count).frame
      (start.Completes count ∧ last.1 ≠ .ok .proceed) ∧
      (s'.console.calls = .release :: (during ++ s.console.calls) ∧ .release ∉ during ∧
        s'.console.display.draws = s.console.display.draws + during.count .draw ∧
        s'.console.keys.calls =
          s.console.keys.calls + (during.count .poll + during.count .read) ∧
        s'.console.display.releases =
          s.console.display.releases + if s.console.display.owns then 1 else 0) ∧
      s'.console.machine.frame.picture = .blank ∧
      s'.frames = s.frames + count ∧
      (∀ fault, last.1 = .error fault → result = .error fault) ∧
      (last.1 = .ok .exit → ∀ reason, last.2.console.display.release.1 = .error reason →
        result = .error (.device reason)) ∧
      (last.1 = .ok .exit → last.2.console.display.release.1 = .ok () → result = .ok ()) := by
  intro start
  obtain ⟨count, completes, ends, frames, finished⟩ := run_stops h
  obtain ⟨during, uses⟩ := Console.uses_after start.dialect start.console
    (shutdown_notMem_runSteps limit start)
  rw [after_runSteps, ← frames] at uses
  refine ⟨count, during, ?_⟩
  intro last
  have results : result = (finish (last.1.map fun _ => ()) last.2).1 := congrArg Prod.fst finished
  have scheduler : s' = (finish (last.1.map fun _ => ()) last.2).2 := congrArg Prod.snd finished
  have display : s'.console.display =
      { last.2.console.display with
        releases := last.2.console.display.releases +
          if last.2.console.display.owns then 1 else 0 } := by
    rw [scheduler]
    exact Display.release_eq _
  refine ⟨⟨completes, ends⟩, ⟨?_, uses.kept, ?_, ?_, ?_⟩, ?_, ?_, ?_, ?_, ?_⟩
  · rw [scheduler]
    exact congrArg (DeviceCall.release :: ·) uses.calls
  · rw [display]
    exact uses.draws
  · rw [scheduler]
    exact uses.asked
  · rw [display]
    show last.2.console.display.releases + _ = _
    rw [uses.releases, uses.owns]
    rfl
  · rw [scheduler]
    rfl
  · rw [scheduler]
    show last.2.frames = _
    rw [frames_of_ended ends, frames_afterFrames completes]
    rfl
  · intro fault failed
    rw [results, failed]
    exact finish_of_fault fault last.2
  · intro exits reason failed
    rw [results, exits]
    exact finish_of_unreleased failed
  · intro exits released
    rw [results, exits]
    exact finish_of_released released

theorem run_tears_down_after_two_faults :
    let display : Display := { releaseFault := some "release failed" }
    let console := ((Console.fresh (.ofSeed 0) display {} {}).load [0x00, 0xE0, 0xFF, 0xFF]).2
    let s : Scheduler := { console, cycles := 1 }
    let s' := (s.run 2).2
    s.run 2 = (some (.error (.undecodable 0x202 0xFFFF)), s') ∧
      s'.console.machine.frame.picture = .blank ∧
      ∃ during, s'.console.calls = .release :: (during ++ s.console.calls) ∧
        .release ∉ during := by
  intro display console s s'
  have stops : (s.run 2).1 = some (.error (.undecodable 0x202 0xFFFF)) := by decide +kernel
  have run : s.run 2 = (some (.error (.undecodable 0x202 0xFFFF)), s') := Prod.ext stops rfl
  obtain ⟨_, during, -, ⟨calls, kept, -⟩, blank, -⟩ := run_tears_down 2 s s' _ run
  exact ⟨run, blank, during, calls, kept⟩

end Scheduler

end Chip8
