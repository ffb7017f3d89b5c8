import Chip8.Proofs.InstructionWord
import Chip8.Proofs.KeySources
import Chip8.Proofs.Scheduled

/-!
# The exit key ends a run

A frame that is completed takes an entry from the keys, since it polls, and no cycle can
take the exit key without ending the run. So a run that has the exit key ahead of it behind
`n` entries completes at most `n` frames, whatever the program does and whatever fails, and
it leaves what comes behind the exit key.

  * `takes_cycle`, `takes_batch`, `frame_takes` — what a cycle, a batch and a frame take.
  * `place_of_quiet` — where nothing waits for a key the batch takes nothing, so that
    every frame takes one entry and the number of frames is known.
  * `suffix_after` — whatever is done, entries are taken from the front only.
  * `runFrames_ends` — the run ends, and how far it got.

`run_of_exitKey` puts them together.
-/

namespace Chip8

namespace Console

open KeySource

variable {c : Console} {n : Nat} {rest : List (Option UInt8)}

/-! ## Cycles -/

theorem takes_of_waits {x : Register} {outcome : Except Fault Flow × Console}
    (waits : Waits c x outcome) (h : ExitAfter n rest c.keys.entries) :
    Takes n rest (outcome.1 = .ok .exit) outcome.2.keys := by
  cases waits with
  | undrawn _ result _ keys =>
    rw [result, keys]
    exact .ahead (fun isExit => by cases isExit) n (Nat.le_refl n) h
  | unread _ wait result _ keys | exit wait result _ keys | key _ wait result _ keys =>
    rw [keys]
    exact (await_cases h).congr (by simp [wait, result])

/-- A word that waits for no key leaves the keys alone. -/
theorem keys_cycle_of_quiet (dialect : Dialect)
    (quiet : ∀ x, c.fetched? ≠ some (Instruction.waitKey x).toWord) :
    (c.cycle dialect).1 ≠ .ok .exit ∧ (c.cycle dialect).2.keys = c.keys := by
  cases cycle_cases dialect c with
  | outside _ result console | undecodable _ _ result console
  | overflow _ _ _ _ result _ console | executed _ _ _ _ _ _ result _ console =>
    rw [result, console]
    exact ⟨fun isExit => (by cases isExit), rfl⟩
  | waited bounds x word =>
    exact absurd (fetched?_of_ofWord? bounds word) (quiet x)

theorem takes_cycle (dialect : Dialect) (h : ExitAfter n rest c.keys.entries) :
    Takes n rest ((c.cycle dialect).1 = .ok .exit) (c.cycle dialect).2.keys := by
  cases cycle_cases dialect c with
  | outside _ result console | undecodable _ _ result console
  | overflow _ _ _ _ result _ console | executed _ _ _ _ _ _ result _ console =>
    rw [result, console]
    exact .ahead (fun isExit => by cases isExit) n (Nat.le_refl n) h
  | waited _ _ _ _ waits => exact takes_of_waits waits h

/-! ## The other steps of a frame -/

theorem keys_render (c : Console) : c.render.2.keys = c.keys := by
  cases pending : c.machine.frame.pending with
  | true => rw [render_of_pending pending]
  | false => rw [render_of_settled pending]

/-- How polling gets on. -/
inductive Polled (n : Nat) (rest : List (Option UInt8)) (c : Console)
    (outcome : Except Fault Flow × Console) : Prop where
  | failed (fault : Fault) (result : outcome.1 = .error fault)
      (kept : outcome.2.keys.entries = c.keys.entries)
  | exit (result : outcome.1 = .ok .exit) (first : n = 0)
      (taken : outcome.2.keys.entries = rest)
  | proceeded (result : outcome.1 = .ok .proceed) (m : Nat) (next : n = m + 1)
      (ahead : ExitAfter m rest outcome.2.keys.entries)

theorem polled_poll (h : ExitAfter n rest c.keys.entries) : Polled n rest c c.poll := by
  have polls := poll_cases h
  unfold poll
  cases polled : c.keys.poll with
  | mk result keys =>
    rw [polled] at polls
    cases polls with
    | failed reason result kept =>
      obtain rfl : _ = Except.error reason := result
      exact .failed (.device reason) rfl kept
    | exit result first taken =>
      obtain rfl : _ = Except.ok (some exitKey) := result
      exact .exit rfl first taken
    | other entry result other m next ahead =>
      obtain rfl : _ = Except.ok entry := result
      cases entry with
      | none => exact .proceeded rfl m next ahead
      | some code =>
        have isOther : code ≠ exitKey := fun isExit => other (congrArg some isExit)
        simp only [if_neg isOther]
        cases Keypad.keyOf? code with
        | none => exact .proceeded rfl m next ahead
        | some key => exact .proceeded rfl m next ahead

/-! ## Only from the front -/

theorem keys_poll (c : Console) : c.poll.2.keys = c.keys.poll.2 := by
  obtain ⟨_, _, -, polled⟩ := c.poll_eq
  rw [polled]

theorem suffix_perform (dialect : Dialect) (c : Console) (step : Step) :
    (c.perform dialect step).2.keys.entries <:+ c.keys.entries := by
  cases step with
  | cycle =>
    show (c.cycle dialect).2.keys.entries <:+ _
    cases cycle_cases dialect c with
    | outside _ _ console | undecodable _ _ _ console | overflow _ _ _ _ _ _ console
    | executed _ _ _ _ _ _ _ _ console => exact suffix_of_eq (by rw [console])
    | waited _ _ _ _ waits =>
      cases waits with
      | undrawn _ _ _ keys => exact suffix_of_eq (congrArg KeySource.entries keys)
      | unread _ _ _ _ keys | exit _ _ _ keys | key _ _ _ _ keys =>
        rw [keys]
        exact suffix_await _
  | poll =>
    show c.poll.2.keys.entries <:+ _
    rw [keys_poll]
    exact suffix_poll _
  | render => exact suffix_of_eq (congrArg KeySource.entries (keys_render c))
  | load program =>
    show (c.load program).2.keys.entries <:+ _
    unfold load
    split
    · exact List.suffix_refl _
    · exact List.suffix_refl _
  | tick | shutdown => exact List.suffix_refl _

theorem suffix_after (dialect : Dialect) (c : Console) (steps : List Step) :
    (c.after dialect steps).keys.entries <:+ c.keys.entries := by
  induction steps generalizing c with
  | nil => exact List.suffix_refl _
  | cons step steps ih => exact (ih _).trans (suffix_perform dialect c step)

end Console

/-- None of the words waits for a key. -/
def Quiet (words : List UInt16) : Prop := ∀ x, (Instruction.waitKey x).toWord ∉ words

theorem quiet_append {first second : List UInt16} (h : Quiet (first ++ second)) :
    Quiet first ∧ Quiet second :=
  ⟨fun x mem => h x (List.mem_append_left _ mem), fun x mem => h x (List.mem_append_right _ mem)⟩

namespace Scheduler

open KeySource

variable {n : Nat} {rest : List (Option UInt8)} {s : Scheduler}

/-! ## Batches -/

theorem takes_batch (dialect : Dialect) (count : Nat) {c : Console}
    (h : ExitAfter n rest c.keys.entries) :
    Takes n rest ((batch dialect count c).1 = .ok .exit) (batch dialect count c).2.keys := by
  induction count generalizing c n with
  | zero => exact .ahead (fun isExit => by cases isExit) n (Nat.le_refl n) h
  | succ count ih =>
    have taken := Console.takes_cycle dialect h
    by_cases proceeds : (c.cycle dialect).1 = .ok .proceed
    · rw [batch_of_proceed count proceeds]
      cases taken with
      | exit told => rw [proceeds] at told; cases told
      | ahead _ m le ahead => exact (ih ahead).of_le le
    · rw [batch_of_end count proceeds]
      exact taken

theorem keys_batch_of_quiet (dialect : Dialect) (count : Nat) {c : Console}
    (quiet : Quiet (c.words dialect (batchSteps dialect count c))) :
    (batch dialect count c).1 ≠ .ok .exit ∧ (batch dialect count c).2.keys = c.keys := by
  induction count generalizing c with
  | zero => exact ⟨fun isExit => (by cases isExit), rfl⟩
  | succ count ih =>
    have first : ∀ x, c.fetched? ≠ some (Instruction.waitKey x).toWord := by
      intro x fetched
      have mem : (Instruction.waitKey x).toWord ∈ (c.wordOf? .cycle).toList := by
        show _ ∈ c.fetched?.toList
        rw [fetched]
        exact List.mem_singleton_self _
      exact quiet x (List.mem_append_left _ mem)
    obtain ⟨noExit, kept⟩ := Console.keys_cycle_of_quiet dialect first
    by_cases proceeds : (c.cycle dialect).1 = .ok .proceed
    · rw [batchSteps_of_proceed count proceeds] at quiet
      obtain ⟨-, later⟩ := quiet_append quiet
      rw [batch_of_proceed count proceeds, ← kept]
      exact ih later
    · rw [batch_of_end count proceeds]
      exact ⟨noExit, kept⟩

/-! ## Frames -/

/-- What a frame takes that has the exit key ahead of it behind `n` entries. -/
inductive FrameTakes (n : Nat) (rest : List (Option UInt8)) (s : Scheduler)
    (outcome : Except Fault Flow × Scheduler) : Prop where
  | failed (fault : Fault) (result : outcome.1 = .error fault)
      (frames : outcome.2.frames = s.frames) (left : rest <:+ outcome.2.console.keys.entries)
  | exit (result : outcome.1 = .ok .exit) (frames : outcome.2.frames = s.frames)
      (taken : outcome.2.console.keys.entries = rest)
      (polled : Quiet (s.console.words s.dialect s.frameSteps) → n = 0)
  | completed (result : outcome.1 = .ok .proceed) (frames : outcome.2.frames = s.frames + 1)
      (m : Nat) (lt : m < n) (ahead : ExitAfter m rest outcome.2.console.keys.entries)
      (polled : Quiet (s.console.words s.dialect s.frameSteps) → n = m + 1)

/-- What follows the batch takes one entry, by the poll, if it does not fail. -/
theorem polled_afterBatch {c : Console} (h : ExitAfter n rest c.keys.entries) :
    Console.Polled n rest c (afterBatch c) := by
  cases render : c.render.1 with
  | error fault =>
    rw [afterBatch_of_error render]
    exact .failed fault rfl (congrArg KeySource.entries (Console.keys_render c))
  | ok =>
    rw [afterBatch_of_ok render]
    have keys : c.render.2.tick.keys = c.keys := Console.keys_render c
    rw [← keys] at h
    cases Console.polled_poll h with
    | failed fault result kept => exact .failed fault result (by rw [kept, keys])
    | exit result first taken => exact .exit result first taken
    | proceeded result m next ahead => exact .proceeded result m next ahead

/-- A quiet batch leaves the exit key where it was. -/
theorem place_of_quiet {m : Nat} (h : ExitAfter n rest s.console.keys.entries)
    (ahead : ExitAfter m rest (batch s.dialect s.cycles s.console).2.keys.entries)
    (quiet : Quiet (s.console.words s.dialect (batchSteps s.dialect s.cycles s.console))) :
    n = m := by
  obtain ⟨-, kept⟩ := keys_batch_of_quiet s.dialect s.cycles quiet
  rw [kept] at ahead
  exact h.unique ahead

theorem frame_takes (h : ExitAfter n rest s.console.keys.entries) :
    FrameTakes n rest s s.frame := by
  have taken := takes_batch s.dialect s.cycles h
  have batchQuiet (proceeds : (batch s.dialect s.cycles s.console).1 = .ok .proceed)
      (quiet : Quiet (s.console.words s.dialect s.frameSteps)) :
      Quiet (s.console.words s.dialect (batchSteps s.dialect s.cycles s.console)) := by
    rw [frameSteps_of_proceed proceeds, Console.words_append] at quiet
    exact (quiet_append quiet).1
  cases frame_cases s with
  | stopped ends result scheduler =>
    cases taken with
    | exit told taken =>
      rw [told] at result
      refine .exit result (by rw [scheduler]) (by rw [scheduler, taken]) ?_
      intro quiet
      rw [frameSteps_of_end ends] at quiet
      exact absurd told (keys_batch_of_quiet s.dialect s.cycles quiet).1
    | ahead untold m le ahead =>
      -- the batch ended the frame, and not by the exit key, so it failed
      cases outcome : (batch s.dialect s.cycles s.console).1 with
      | error fault =>
        rw [outcome] at result
        refine .failed fault result (by rw [scheduler]) ?_
        rw [scheduler]
        exact ahead.suffix
      | ok flow =>
        cases flow with
        | proceed => exact absurd outcome ends
        | exit => exact absurd outcome untold
  | ended proceeds ends result scheduler =>
    cases taken with
    | exit told => rw [proceeds] at told; cases told
    | ahead _ m le ahead =>
      cases polled_afterBatch ahead with
      | failed fault failed kept =>
        rw [failed] at result
        refine .failed fault result (by rw [scheduler]) ?_
        rw [scheduler, kept]
        exact ahead.suffix
      | exit isExit first taken =>
        rw [isExit] at result
        refine .exit result (by rw [scheduler]) (by rw [scheduler, taken]) ?_
        intro quiet
        rw [place_of_quiet h ahead (batchQuiet proceeds quiet), first]
      | proceeded goesOn => exact absurd goesOn ends
  | completed proceeds goesOn result scheduler =>
    cases taken with
    | exit told => rw [proceeds] at told; cases told
    | ahead _ m le ahead =>
      cases polled_afterBatch ahead with
      | failed _ failed => rw [failed] at goesOn; cases goesOn
      | exit isExit => rw [isExit] at goesOn; cases goesOn
      | proceeded _ m' next ahead' =>
        refine .completed result (by rw [scheduler]) m' (by omega)
          (by rw [scheduler]; exact ahead') ?_
        intro quiet
        rw [place_of_quiet h ahead (batchQuiet proceeds quiet), next]

/-! ## Runs -/

/-- How a run ends that has the exit key ahead of it behind `n` entries. -/
structure Ends (n : Nat) (rest : List (Option UInt8)) (s : Scheduler) (result : Except Fault Unit)
    (s' : Scheduler) : Prop where
  ran : ∀ limit, n ≤ limit → runFrames (limit + 1) s = (some result, s')
  frames_le : s.frames ≤ s'.frames
  le_frames : s'.frames ≤ s.frames + n
  left : rest <:+ s'.console.keys.entries
  taken : result = .ok () → s'.console.keys.entries = rest
  polled : result = .ok () → Quiet (s.console.words s.dialect (runSteps (n + 1) s)) →
    s'.frames = s.frames + n

theorem runFrames_ends (h : ExitAfter n rest s.console.keys.entries) :
    ∃ result s', Ends n rest s result s' := by
  -- on the entries before the exit key: a completed frame leaves fewer of them
  induction n using Nat.strongRecOn generalizing s with
  | ind n ih =>
    cases frame_takes h with
    | failed fault result frames left =>
      refine ⟨.error fault, s.frame.2, ?_, by omega, by omega, left, ?_, ?_⟩
      · intro limit _
        exact runFrames_of_error limit result
      · intro isOk
        cases isOk
      · intro isOk
        cases isOk
    | exit result frames taken polled =>
      have ends : s.frame.1 ≠ .ok .proceed := by rw [result]; intro proceeds; cases proceeds
      refine ⟨.ok (), s.frame.2, ?_, by omega, by omega, ?_, fun _ => taken, ?_⟩
      · intro limit _
        exact runFrames_of_exit limit result
      · exact suffix_of_eq taken.symm
      · intro _ quiet
        rw [runSteps_of_end n ends] at quiet
        rw [frames, polled quiet, Nat.add_zero]
    | completed result frames m lt ahead polled =>
      obtain ⟨outcome, s', later⟩ := ih m lt ahead
      have frames_le := later.frames_le
      have le_frames := later.le_frames
      refine ⟨outcome, s', ?_, by omega, by omega, later.left, later.taken, ?_⟩
      · intro limit within
        obtain ⟨left, rfl⟩ := Nat.exists_eq_add_of_lt (Nat.lt_of_lt_of_le lt within)
        rw [runFrames_of_proceed _ result]
        exact later.ran (m + left) (by omega)
      · intro isOk quiet
        rw [runSteps_of_proceed n result, Console.words_append] at quiet
        obtain ⟨first, rest⟩ := quiet_append quiet
        -- a quiet frame took one entry, so what is left of the limit fits the frames to come
        obtain rfl := polled first
        rw [after_frameSteps, ← frame_dialect s] at rest
        have count := later.polled isOk rest
        omega

theorem run_of_runFrames {limit : Nat} {result : Except Fault Unit} {s' : Scheduler}
    (h : runFrames limit (s.tell (.running s.cycles s.pacer)) = (some result, s')) :
    s.run limit = (some (finish result s').1, (finish result s').2) := by
  rw [run, h]

theorem ok_of_finish {result : Except Fault Unit} (h : (finish result s).1 = .ok ()) :
    result = .ok () := by
  cases result with
  | error fault => cases h
  | ok => rfl

/-- **The exit key ends a run.** Let it come first behind `k` entries. The run ends within
`k + 1` frames, of which it completes at most `k`, and exactly `k` where it succeeds and
waits for no key; it takes entries from the front only, none behind the exit key, and
where it succeeds the exit key is the last one that it took. -/
theorem run_of_exitKey (s : Scheduler) (h : some exitKey ∈ s.console.keys.entries) :
    let entries := s.console.keys.entries
    let k := entries.idxOf (some exitKey)
    ∃ result s', (∀ limit, k < limit → s.run limit = (some result, s')) ∧
      (s.frames ≤ s'.frames ∧ s'.frames ≤ s.frames + k) ∧
      (result = .ok () → Quiet (s.words (k + 1)) → s'.frames = s.frames + k) ∧
      (s'.console.keys.entries <:+ entries ∧ entries.drop (k + 1) <:+ s'.console.keys.entries) ∧
      (result = .ok () → s'.console.keys.entries = entries.drop (k + 1)) := by
  intro entries k
  let start := s.tell (.running s.cycles s.pacer)
  have ahead : ExitAfter k (entries.drop (k + 1)) start.console.keys.entries := exitAfter_of_mem h
  obtain ⟨result, s', ends⟩ := runFrames_ends ahead
  have front : s'.console.keys.entries <:+ entries := by
    have suffix := Console.suffix_after start.dialect start.console (runSteps (k + 1) start)
    rw [after_runSteps, ends.ran k (Nat.le_refl k)] at suffix
    exact suffix
  refine ⟨(finish result s').1, (finish result s').2, ?_, ⟨ends.frames_le, ends.le_frames⟩, ?_,
    ⟨front, ends.left⟩, ?_⟩
  · intro limit within
    obtain ⟨left, rfl⟩ := Nat.exists_eq_add_of_lt within
    exact run_of_runFrames (ends.ran (k + left) (by omega))
  · intro isOk quiet
    exact ends.polled (ok_of_finish isOk) quiet
  · intro isOk
    exact ends.taken (ok_of_finish isOk)

theorem run_of_exitKey_behind_one :
    let s : Scheduler :=
      { console := .fresh (.ofSeed 0) {} { entries := [none, some exitKey, some 0x31] } {}
        cycles := 1 }
    some exitKey ∈ s.console.keys.entries ∧
      ∃ result s', (∀ limit, 1 < limit → s.run limit = (some result, s')) ∧ s'.frames ≤ 1 ∧
        [some 0x31] <:+ s'.console.keys.entries := by
  intro s
  have mem : some exitKey ∈ s.console.keys.entries := by decide
  obtain ⟨result, s', ran, ⟨-, le_frames⟩, -, ⟨-, left⟩, -⟩ := run_of_exitKey s mem
  exact ⟨mem, result, s', ran, le_frames, left⟩

end Scheduler

end Chip8
