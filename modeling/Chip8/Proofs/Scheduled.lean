import Chip8.Scheduler
import Chip8.Proofs.Step

/-!
# Frames as steps

A scheduler makes no steps of its own: what a batch, a frame and a run do to the console
is what a list of steps does to it, and the list is found as the frame goes along. What
holds of the consoles that steps lead to holds of a scheduler's console too.

  * `batchSteps`, `frameSteps`, `runSteps` — the steps that are made, up to the one that
    ends the run.
  * `frame_cases` — the ways in which a frame ends.
  * `after_batchSteps`, `after_frameSteps`, `after_runSteps` — the steps lead to the
    console that the batch, the frame and the run leave behind.
  * `afterFrames`, `Completes` — frames one after another; `runSteps_of_completes` gives the
    steps of completed frames, and `runFrames_stops` finds in a run that ends the frames that
    were completed and the one that was not.
-/

namespace Chip8.Scheduler

/-! ## The steps that are made -/

/-- The cycles of a batch, up to one that ends it. -/
def batchSteps (dialect : Dialect) : Nat → Console → List Step
  | 0, _ => []
  | count + 1, c =>
    .cycle :: match (c.cycle dialect).1 with
      | .ok .proceed => batchSteps dialect count (c.cycle dialect).2
      | _ => []

/-- What follows the batch, up to a picture that cannot be shown. -/
def afterBatchSteps (c : Console) : List Step :=
  .render :: match c.render.1 with
    | .ok () => [.tick, .poll]
    | .error _ => []

/-- The steps of a frame. -/
def frameSteps (s : Scheduler) : List Step :=
  batchSteps s.dialect s.cycles s.console ++
    match (batch s.dialect s.cycles s.console).1 with
    | .ok .proceed => afterBatchSteps (batch s.dialect s.cycles s.console).2
    | _ => []

/-- The steps of the frames of a run, at most `limit` of them. -/
def runSteps : Nat → Scheduler → List Step
  | 0, _ => []
  | limit + 1, s =>
    s.frameSteps ++ match s.frame.1 with
      | .ok .proceed => runSteps limit s.frame.2
      | _ => []

/-- The words that a run fetches in its frames, at most `limit` of them. -/
def words (limit : Nat) (s : Scheduler) : List UInt16 :=
  let s := s.tell (.running s.cycles s.pacer)
  s.console.words s.dialect (runSteps limit s)

/-! ## Batches -/

section
variable {dialect : Dialect} {c : Console}

theorem batch_of_proceed (count : Nat) (h : (c.cycle dialect).1 = .ok .proceed) :
    batch dialect (count + 1) c = batch dialect count (c.cycle dialect).2 := by
  have cycle : c.cycle dialect = (.ok .proceed, (c.cycle dialect).2) := Prod.ext h rfl
  rw [batch, cycle]

theorem batch_of_end (count : Nat) (h : (c.cycle dialect).1 ≠ .ok .proceed) :
    batch dialect (count + 1) c = c.cycle dialect := by
  rw [batch]
  split
  · next cycle => rw [cycle] at h; exact absurd rfl h
  · next cycle => exact cycle.symm

theorem batchSteps_of_proceed (count : Nat) (h : (c.cycle dialect).1 = .ok .proceed) :
    batchSteps dialect (count + 1) c =
      .cycle :: batchSteps dialect count (c.cycle dialect).2 := by
  rw [batchSteps, h]

theorem batchSteps_of_end (count : Nat) (h : (c.cycle dialect).1 ≠ .ok .proceed) :
    batchSteps dialect (count + 1) c = [.cycle] := by
  rw [batchSteps]
  split
  · next proceeds => exact absurd proceeds h
  · rfl

end

theorem after_batchSteps (dialect : Dialect) (count : Nat) (c : Console) :
    c.after dialect (batchSteps dialect count c) = (batch dialect count c).2 := by
  induction count generalizing c with
  | zero => rfl
  | succ count ih =>
    by_cases proceeds : (c.cycle dialect).1 = .ok .proceed
    · rw [batchSteps_of_proceed count proceeds, batch_of_proceed count proceeds]
      exact ih _
    · rw [batchSteps_of_end count proceeds, batch_of_end count proceeds]
      rfl

/-! ## Frames -/

theorem afterBatch_of_error {c : Console} {fault : Fault} (h : c.render.1 = .error fault) :
    afterBatch c = (.error fault, c.render.2) := by
  have render : c.render = (.error fault, c.render.2) := Prod.ext h rfl
  rw [afterBatch, render]

theorem afterBatch_of_ok {c : Console} (h : c.render.1 = .ok ()) :
    afterBatch c = c.render.2.tick.poll := by
  have render : c.render = (.ok (), c.render.2) := Prod.ext h rfl
  rw [afterBatch, render]

theorem render_of_afterBatch {c : Console} (h : (afterBatch c).1 = .ok .proceed) :
    c.render.1 = .ok () ∧ afterBatch c = c.render.2.tick.poll := by
  cases shows : c.render.1 with
  | error fault =>
    rw [afterBatch_of_error shows] at h
    cases h
  | ok => exact ⟨rfl, afterBatch_of_ok shows⟩

theorem after_afterBatchSteps (dialect : Dialect) (c : Console) :
    c.after dialect (afterBatchSteps c) = (afterBatch c).2 := by
  cases h : c.render.1 with
  | error fault => rw [afterBatch_of_error h, afterBatchSteps, h]; rfl
  | ok => rw [afterBatch_of_ok h, afterBatchSteps, h]; rfl

/-- How a frame ends. -/
inductive Frames (s : Scheduler) (outcome : Except Fault Flow × Scheduler) : Prop where
  /-- A cycle ends it. -/
  | stopped (ends : (batch s.dialect s.cycles s.console).1 ≠ .ok .proceed)
      (result : outcome.1 = (batch s.dialect s.cycles s.console).1)
      (scheduler : outcome.2 = { s with console := (batch s.dialect s.cycles s.console).2 })
  /-- What follows the batch ends it. -/
  | ended (proceeds : (batch s.dialect s.cycles s.console).1 = .ok .proceed)
      (ends : (afterBatch (batch s.dialect s.cycles s.console).2).1 ≠ .ok .proceed)
      (result : outcome.1 = (afterBatch (batch s.dialect s.cycles s.console).2).1)
      (scheduler : outcome.2 =
        { s with console := (afterBatch (batch s.dialect s.cycles s.console).2).2 })
  /-- It is completed. -/
  | completed (proceeds : (batch s.dialect s.cycles s.console).1 = .ok .proceed)
      (goesOn : (afterBatch (batch s.dialect s.cycles s.console).2).1 = .ok .proceed)
      (result : outcome.1 = .ok .proceed)
      (scheduler : outcome.2 =
        { s with
          console := (afterBatch (batch s.dialect s.cycles s.console).2).2
          frames := s.frames + 1 })

theorem frame_cases (s : Scheduler) : Frames s s.frame := by
  unfold frame
  split
  · next c done =>
    have proceeds : (batch s.dialect s.cycles s.console).1 = .ok .proceed := by rw [done]
    have console : (batch s.dialect s.cycles s.console).2 = c := by rw [done]
    split
    · next c' goesOn =>
      refine .completed proceeds ?_ rfl ?_
      · rw [console, goesOn]
      · rw [console, goesOn]
    · next result c' ends outcome =>
      refine .ended proceeds ?_ ?_ ?_
      · rw [console, outcome]; exact ends
      · rw [console, outcome]
      · rw [console, outcome]
  · next result c ends outcome =>
    refine .stopped ?_ ?_ ?_
    · rw [outcome]; exact ends
    · rw [outcome]
    · rw [outcome]

theorem frame_dialect (s : Scheduler) : s.frame.2.dialect = s.dialect := by
  cases frame_cases s with
  | stopped _ _ scheduler | ended _ _ _ scheduler | completed _ _ _ scheduler => rw [scheduler]

theorem frame_cycles (s : Scheduler) : s.frame.2.cycles = s.cycles := by
  cases frame_cases s with
  | stopped _ _ scheduler | ended _ _ _ scheduler | completed _ _ _ scheduler => rw [scheduler]

theorem frameSteps_of_end {s : Scheduler}
    (h : (batch s.dialect s.cycles s.console).1 ≠ .ok .proceed) :
    s.frameSteps = batchSteps s.dialect s.cycles s.console := by
  rw [frameSteps]
  split
  · next proceeds => exact absurd proceeds h
  · exact List.append_nil _

theorem frameSteps_of_proceed {s : Scheduler}
    (h : (batch s.dialect s.cycles s.console).1 = .ok .proceed) :
    s.frameSteps =
      batchSteps s.dialect s.cycles s.console ++
        afterBatchSteps (batch s.dialect s.cycles s.console).2 := by
  rw [frameSteps, h]

theorem after_frameSteps (s : Scheduler) :
    s.console.after s.dialect s.frameSteps = s.frame.2.console := by
  cases frame_cases s with
  | stopped ends _ scheduler =>
    rw [frameSteps_of_end ends, after_batchSteps, scheduler]
  | ended proceeds _ _ scheduler | completed proceeds _ _ scheduler =>
    rw [frameSteps_of_proceed proceeds, Console.after_append, after_batchSteps,
      after_afterBatchSteps, scheduler]

/-! ## Runs -/

section
variable {s : Scheduler} (limit : Nat)

theorem runFrames_of_proceed (h : s.frame.1 = .ok .proceed) :
    runFrames (limit + 1) s = runFrames limit s.frame.2 := by
  have frame : s.frame = (.ok .proceed, s.frame.2) := Prod.ext h rfl
  rw [runFrames, frame]

theorem runFrames_of_exit (h : s.frame.1 = .ok .exit) :
    runFrames (limit + 1) s = (some (.ok ()), s.frame.2) := by
  have frame : s.frame = (.ok .exit, s.frame.2) := Prod.ext h rfl
  rw [runFrames, frame]

theorem runFrames_of_error {fault : Fault} (h : s.frame.1 = .error fault) :
    runFrames (limit + 1) s = (some (.error fault), s.frame.2) := by
  have frame : s.frame = (.error fault, s.frame.2) := Prod.ext h rfl
  rw [runFrames, frame]

theorem runFrames_of_end (h : s.frame.1 ≠ .ok .proceed) :
    runFrames (limit + 1) s = (some (s.frame.1.map fun _ => ()), s.frame.2) := by
  rw [runFrames]
  split
  · next frame => rw [frame] at h; exact absurd rfl h
  · next frame => rw [frame]; rfl
  · next frame => rw [frame]; rfl

theorem runSteps_of_proceed (h : s.frame.1 = .ok .proceed) :
    runSteps (limit + 1) s = s.frameSteps ++ runSteps limit s.frame.2 := by
  rw [runSteps, h]

theorem runSteps_of_end (h : s.frame.1 ≠ .ok .proceed) :
    runSteps (limit + 1) s = s.frameSteps := by
  rw [runSteps]
  split
  · next proceeds => exact absurd proceeds h
  · exact List.append_nil _

end

theorem after_runSteps (limit : Nat) (s : Scheduler) :
    s.console.after s.dialect (runSteps limit s) = (runFrames limit s).2.console := by
  induction limit generalizing s with
  | zero => rfl
  | succ limit ih =>
    by_cases proceeds : s.frame.1 = .ok .proceed
    · -- the frames to come are run under the dialect of the next scheduler
      rw [runSteps_of_proceed limit proceeds, runFrames_of_proceed limit proceeds,
        Console.after_append, after_frameSteps, ← frame_dialect s]
      exact ih _
    · rw [runSteps_of_end limit proceeds, runFrames_of_end limit proceeds, after_frameSteps]

/-! ## One frame after another -/

/-- The scheduler after some frames, whatever they give. -/
def afterFrames : Nat → Scheduler → Scheduler
  | 0, s => s
  | count + 1, s => afterFrames count s.frame.2

/-- Each of so many frames is completed. -/
def Completes (count : Nat) (s : Scheduler) : Prop :=
  ∀ k < count, (s.afterFrames k).frame.1 = .ok .proceed

theorem afterFrames_succ (count : Nat) (s : Scheduler) :
    s.afterFrames (count + 1) = (s.afterFrames count).frame.2 := by
  induction count generalizing s with
  | zero => rfl
  | succ count ih => exact ih s.frame.2

theorem Completes.of_le {count k : Nat} {s : Scheduler} (h : s.Completes count) (le : k ≤ count) :
    s.Completes k :=
  fun j lt => h j (Nat.lt_of_lt_of_le lt le)

theorem completes_succ {count : Nat} {s : Scheduler} (first : s.frame.1 = .ok .proceed)
    (rest : s.frame.2.Completes count) : s.Completes (count + 1) := by
  intro k lt
  cases k with
  | zero => exact first
  | succ k => exact rest k (Nat.lt_of_succ_lt_succ lt)

theorem frames_of_completed {s : Scheduler} (h : s.frame.1 = .ok .proceed) :
    s.frame.2.frames = s.frames + 1 := by
  cases frame_cases s with
  | stopped ends result => rw [h] at result; exact absurd result.symm ends
  | ended _ ends result => rw [h] at result; exact absurd result.symm ends
  | completed _ _ _ scheduler => rw [scheduler]

theorem frames_of_ended {s : Scheduler} (h : s.frame.1 ≠ .ok .proceed) :
    s.frame.2.frames = s.frames := by
  cases frame_cases s with
  | stopped _ _ scheduler | ended _ _ _ scheduler => rw [scheduler]
  | completed _ _ result => exact absurd result h

theorem frames_afterFrames {count : Nat} {s : Scheduler} (h : s.Completes count) :
    (s.afterFrames count).frames = s.frames + count := by
  induction count with
  | zero => rfl
  | succ count ih =>
    have last : (s.afterFrames count).frame.1 = .ok .proceed := h count (Nat.lt_succ_self count)
    have before := ih (h.of_le (Nat.le_succ count))
    rw [afterFrames_succ, frames_of_completed last, before, Nat.add_assoc]

/-- Frames that end are some that are completed, and one more that is not. -/
theorem runFrames_stops {limit : Nat} {s s' : Scheduler} {result : Except Fault Unit}
    (h : runFrames limit s = (some result, s')) :
    ∃ count, s.Completes count ∧ (s.afterFrames count).frame.1 ≠ .ok .proceed ∧
      s' = (s.afterFrames count).frame.2 ∧
      result = (s.afterFrames count).frame.1.map fun _ => () := by
  induction limit generalizing s with
  | zero => cases h
  | succ limit ih =>
    by_cases proceeds : s.frame.1 = .ok .proceed
    · rw [runFrames_of_proceed limit proceeds] at h
      obtain ⟨count, completes, ends, scheduler, outcome⟩ := ih h
      exact ⟨count + 1, completes_succ proceeds completes, ends, scheduler, outcome⟩
    · rw [runFrames_of_end limit proceeds] at h
      obtain ⟨outcome, rfl⟩ := Prod.mk.inj h
      refine ⟨0, fun k lt => absurd lt (Nat.not_lt_zero k), proceeds, rfl, ?_⟩
      exact (Option.some.inj outcome).symm

/-! ## The steps of completed frames -/

/-- The steps of a frame that is completed. -/
def wholeFrame (cycles : Nat) : List Step :=
  List.replicate cycles .cycle ++ [.render, .tick, .poll]

theorem Completes.tail {count : Nat} {s : Scheduler} (h : s.Completes (count + 1)) :
    s.frame.1 = .ok .proceed ∧ s.frame.2.Completes count :=
  ⟨h 0 (Nat.succ_pos count), fun k lt => h (k + 1) (Nat.succ_lt_succ lt)⟩

theorem batchSteps_of_completed {dialect : Dialect} {count : Nat} {c : Console}
    (h : (batch dialect count c).1 = .ok .proceed) :
    batchSteps dialect count c = List.replicate count .cycle := by
  induction count generalizing c with
  | zero => rfl
  | succ count ih =>
    by_cases proceeds : (c.cycle dialect).1 = .ok .proceed
    · rw [batch_of_proceed count proceeds] at h
      rw [batchSteps_of_proceed count proceeds, ih h, List.replicate_succ]
    · rw [batch_of_end count proceeds] at h
      exact absurd h proceeds

theorem frameSteps_of_completed {s : Scheduler} (h : s.frame.1 = .ok .proceed) :
    s.frameSteps = wholeFrame s.cycles := by
  cases frame_cases s with
  | stopped ends result | ended _ ends result =>
    rw [h] at result
    exact absurd result.symm ends
  | completed proceeds goesOn =>
    obtain ⟨shows, -⟩ := render_of_afterBatch goesOn
    rw [frameSteps_of_proceed proceeds, batchSteps_of_completed proceeds, afterBatchSteps, shows]
    rfl

theorem runSteps_of_completes {count : Nat} {s : Scheduler} (h : s.Completes count) :
    runSteps count s = (List.replicate count (wholeFrame s.cycles)).flatten := by
  induction count generalizing s with
  | zero => rfl
  | succ count ih =>
    obtain ⟨first, rest⟩ := h.tail
    rw [runSteps_of_proceed count first, frameSteps_of_completed first, ih rest, frame_cycles,
      List.replicate_succ, List.flatten_cons]

theorem count_runSteps_of_completes {count : Nat} {s : Scheduler} (h : s.Completes count)
    (step : Step) : (runSteps count s).count step = count * (wholeFrame s.cycles).count step := by
  rw [runSteps_of_completes h, List.count_flatten, List.map_replicate, List.sum_replicate_nat]

theorem after_runSteps_of_completes {count : Nat} {s : Scheduler} (h : s.Completes count) :
    s.console.after s.dialect (runSteps count s) = (s.afterFrames count).console := by
  induction count generalizing s with
  | zero => rfl
  | succ count ih =>
    obtain ⟨first, rest⟩ := h.tail
    rw [runSteps_of_proceed count first, Console.after_append, after_frameSteps, ← frame_dialect s]
    exact ih rest

end Chip8.Scheduler
