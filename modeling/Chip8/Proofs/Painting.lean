import Mathlib.Data.List.DropRight
import Chip8.Proofs.Scheduled

/-!
# What the display shows

Two operations paint: a wait for a key, which shows the picture in any case, and
`render`, which shows it if a change is pending. Clearing and drawing leave a change
pending, showing the picture takes the mark off.

  * `Paints` — how often a stretch of a run paints, what mark it leaves, and that the
    display stays current, `Current`: unless a change is pending, the picture that was
    shown last is the picture of the machine.
  * `paints_cycle`, `paints_batch`, `frame_paints` — a cycle, a batch and a frame that go
    on paint in this way.
  * `foldl_leavesPending` — the mark at the end of a frame, from the instructions behind
    the last wait.

`completed_frames_shown` is what this comes to for the frames of a run.
-/

namespace Chip8

namespace Instruction

/-- Whether an instruction waits for a key. -/
def waits : Instruction → Bool
  | .waitKey _ => true
  | _ => false

theorem waits_eq_false {i : Instruction} (h : ∀ x, i ≠ .waitKey x) : i.waits = false := by
  cases i with
  | waitKey x => exact absurd rfl (h x)
  | _ => rfl

/-- Whether an instruction clears the picture or draws on it. -/
def redraws : Instruction → Bool
  | .clear => true
  | .draw _ _ _ => true
  | _ => false

/-- The mark of a pending change after an instruction, from the mark before it. -/
def leavesPending (pending : Bool) (i : Instruction) : Bool :=
  !i.waits && (pending || i.redraws)

/-- Where nothing was pending, a change is pending if the picture was redrawn behind the
last wait. -/
theorem foldl_leavesPending (is : List Instruction) :
    is.foldl leavesPending false = (is.rtakeWhile fun i => !i.waits).any redraws := by
  induction is using List.reverseRecOn with
  | nil => rfl
  | append_singleton is i ih =>
    rw [List.foldl_append, ih]
    cases waits : i.waits with
    | true =>
      rw [List.rtakeWhile_concat_neg _ _ _ (by simp [waits])]
      simp [leavesPending, waits]
    | false =>
      rw [List.rtakeWhile_concat_pos _ _ _ (by simp [waits])]
      simp [leavesPending, waits]

end Instruction

namespace Machine

variable {dialect : Dialect} {f : Fetched} {m m' : Machine}

theorem frame_of_execute (h : m.execute dialect f = .ok m') :
    if f.instruction.redraws then m'.frame.pending = true else m'.frame = m.frame := by
  obtain ⟨address, word, i⟩ := f
  cases i
  case call target =>
    rcases Nat.lt_or_ge m.stack.length stackLimit with room | full
    · rw [execute_call dialect address word target room] at h
      obtain rfl := Except.ok.inj h
      rfl
    · rw [execute_call_full dialect address word target full] at h
      cases h
  case ret =>
    cases hs : m.stack with
    | nil =>
      rw [execute_ret_nil dialect address word hs] at h
      obtain rfl := Except.ok.inj h
      rfl
    | cons top rest =>
      rw [execute_ret_cons dialect address word hs] at h
      obtain rfl := Except.ok.inj h
      rfl
  case or | and | xor =>
    obtain rfl := Except.ok.inj h
    rw [setLogic_eq]
    rfl
  case storeRegisters =>
    obtain rfl := Except.ok.inj h
    rw [advanceIndex_eq, storeRegisters]
    rfl
  case loadRegisters =>
    obtain rfl := Except.ok.inj h
    rw [advanceIndex_eq, loadRegisters]
    rfl
  all_goals
    obtain rfl := Except.ok.inj h
    rfl

end Machine

namespace Console

variable {dialect : Dialect} {c c' c'' : Console} {earlier : List Picture}

/-! ## A current display -/

/-- The display shows the picture of the machine, unless a change is pending; before
anything was shown the picture is blank. `earlier` is what was shown before the run. -/
def Current (earlier : List Picture) (c : Console) : Prop :=
  ∃ pictures, c.display.shown = pictures ++ earlier ∧
    (c.machine.frame.pending = false → c.machine.frame.picture = pictures.headD .blank)

theorem Current.of_eq (h : Current earlier c) (display : c'.display = c.display)
    (frame : c'.machine.frame = c.machine.frame) : Current earlier c' := by
  obtain ⟨pictures, shown, same⟩ := h
  exact ⟨pictures, by rw [display, shown], by rw [frame]; exact same⟩

theorem Current.of_pending (h : Current earlier c) (display : c'.display = c.display)
    (pending : c'.machine.frame.pending = true) : Current earlier c' := by
  obtain ⟨pictures, shown, -⟩ := h
  refine ⟨pictures, by rw [display, shown], fun settled => ?_⟩
  rw [pending] at settled
  cases settled

/-- Once the picture could be shown, it is the last one that was. -/
theorem Current.of_drawn (h : Current earlier c)
    (drawn : (c.display.draw c.machine.frame.picture).1 = .ok ())
    (display : c'.display = (c.display.draw c.machine.frame.picture).2)
    (picture : c'.machine.frame.picture = c.machine.frame.picture) : Current earlier c' := by
  obtain ⟨pictures, shown, -⟩ := h
  refine ⟨c.machine.frame.picture :: pictures, ?_, fun _ => picture⟩
  rw [display, Display.shown_draw drawn, shown]
  rfl

theorem current_load (h : Current earlier c) (program : List UInt8) :
    Current earlier (c.load program).2 := by
  unfold load
  split
  · exact h
  · exact h.of_eq rfl rfl

/-! ## Cycles -/

/-- What a stretch of a run that executes some instructions does to the display. -/
structure Paints (is : List Instruction) (c c' : Console) : Prop where
  draws : c'.display.draws = c.display.draws + is.countP Instruction.waits
  pending : c'.machine.frame.pending =
    is.foldl Instruction.leavesPending c.machine.frame.pending
  current : ∀ {earlier}, Current earlier c → Current earlier c'

theorem Paints.nil (c : Console) : Paints [] c c := ⟨rfl, rfl, id⟩

theorem Paints.append {first second : List Instruction} (h : Paints first c c')
    (h' : Paints second c' c'') : Paints (first ++ second) c c'' where
  draws := by rw [h'.draws, h.draws, List.countP_append, Nat.add_assoc]
  pending := by rw [h'.pending, h.pending, List.foldl_append]
  current current := h'.current (h.current current)

theorem paints_of_display {i : Instruction} (waits : i.waits = false)
    (display : c'.display = c.display)
    (frame : if i.redraws then c'.machine.frame.pending = true
      else c'.machine.frame = c.machine.frame) : Paints [i] c c' := by
  have draws : c'.display.draws = c.display.draws + [i].countP Instruction.waits := by
    simp [display, waits]
  cases redraws : i.redraws with
  | true =>
    rw [if_pos redraws] at frame
    refine ⟨draws, ?_, fun current => current.of_pending display frame⟩
    simp [Instruction.leavesPending, frame, waits, redraws]
  | false =>
    rw [if_neg (by simp [redraws])] at frame
    refine ⟨draws, ?_, fun current => current.of_eq display frame⟩
    simp [Instruction.leavesPending, frame, waits, redraws]

theorem paints_waitKey {x : Register} (proceeds : (c.waitKey x).1 = .ok .proceed) :
    Paints [.waitKey x] c (c.waitKey x).2 := by
  cases drawn : (c.display.draw c.machine.frame.picture).1 with
  | error reason =>
    rw [waitKey_of_undrawn x drawn] at proceeds
    cases proceeds
  | ok =>
    obtain ⟨result, machine, log, frame, after⟩ := waitKey_of_drawn x drawn
    rw [after]
    refine ⟨?_, ?_, fun current => current.of_drawn drawn rfl ?_⟩
    · simp [Instruction.waits]
    · rw [frame]
      rfl
    · rw [frame]
      rfl

theorem paints_cycle (proceeds : (c.cycle dialect).1 = .ok .proceed) :
    Paints (c.instructions dialect [.cycle]) c (c.cycle dialect).2 := by
  cases cycle_cases dialect c with
  | outside _ result | undecodable _ _ result | overflow _ _ _ _ result =>
    rw [proceeds] at result
    cases result
  | executed bounds i word noWait m executed _ log console =>
    rw [instructions_cycle bounds word, console]
    exact paints_of_display (Instruction.waits_eq_false noWait) rfl
      (Machine.frame_of_execute executed)
  | waited bounds x word =>
    rw [instructions_cycle bounds word]
    obtain ⟨log, cycle⟩ := cycle_waitKey dialect bounds word
    rw [cycle] at proceeds ⊢
    have paints := paints_waitKey proceeds
    exact ⟨paints.draws, paints.pending, fun current => paints.current (current.of_eq rfl rfl)⟩

/-! ## The other steps of a frame -/

theorem draws_render (c : Console) :
    c.render.2.display.draws = c.display.draws + if c.machine.frame.pending then 1 else 0 := by
  cases pending : c.machine.frame.pending with
  | false =>
    rw [render_of_settled pending]
    rfl
  | true =>
    rw [render_of_pending pending]
    exact Display.draws_draw _ _

/-- No change is pending after `render`, and that also when the picture could not be shown. -/
theorem pending_render (c : Console) : c.render.2.machine.frame.pending = false := by
  cases pending : c.machine.frame.pending with
  | false => rw [render_of_settled pending, pending]
  | true =>
    rw [render_of_pending pending]
    rfl

theorem shown_render (pending : c.machine.frame.pending = true) (shows : c.render.1 = .ok ()) :
    c.render.2.display.shown = c.machine.frame.picture :: c.display.shown := by
  rw [render_of_pending pending] at shows ⊢
  apply Display.shown_draw
  cases result : (c.display.draw c.machine.frame.picture).1 with
  | error reason =>
    rw [result] at shows
    cases shows
  | ok => rfl

theorem Current.render (h : Current earlier c) (shows : c.render.1 = .ok ()) :
    Current earlier c.render.2 := by
  cases pending : c.machine.frame.pending with
  | false =>
    rw [render_of_settled pending]
    exact h
  | true =>
    obtain ⟨pictures, shown, -⟩ := h
    refine ⟨c.machine.frame.picture :: pictures, ?_, fun _ => ?_⟩
    · rw [shown_render pending shows, shown]
      rfl
    · rw [render_of_pending pending]
      rfl

/-! ## A picture that cannot be shown -/

theorem render_of_undrawn {reason : String} (pending : c.machine.frame.pending = true)
    (undrawn : (c.display.draw c.machine.frame.picture).1 = .error reason) :
    c.render.1 = .error (.device reason) ∧
      c.render.2.machine.frame = c.machine.frame.shown := by
  rw [render_of_pending pending, undrawn]
  exact ⟨rfl, rfl⟩

theorem cycle_of_undrawn (dialect : Dialect) {reason : String} {x : Register}
    (word : c.fetched? = some (Instruction.waitKey x).toWord)
    (undrawn : (c.display.draw c.machine.frame.picture).1 = .error reason) :
    (c.cycle dialect).1 = .error (.device reason) ∧
      (c.cycle dialect).2.machine.frame = c.machine.frame ∧
      (c.cycle dialect).2.display = (c.display.draw c.machine.frame.picture).2 := by
  obtain ⟨bounds, -⟩ := fetched?_eq_some_iff.mp word
  obtain ⟨log, cycle⟩ := cycle_waitKey dialect bounds (ofWord?_of_fetched? word trivial)
  have waits := waitKey_of_undrawn (c := { c with machine := c.machine.taken, log }) x undrawn
  rw [cycle, waits]
  exact ⟨rfl, rfl, rfl⟩

/-- **What becomes of a change that cannot be shown.** Let a change be pending and the
picture fail to be shown. A wait for a key fails and leaves the change pending: the next
`render` asks the display again, and if it succeeds the display shows the picture of the
machine. `render` fails too, but takes the mark off: the next `render` does nothing. -/
theorem failed_paint (dialect : Dialect) (c : Console) (reason : String)
    (pending : c.machine.frame.pending = true)
    (undrawn : (c.display.draw c.machine.frame.picture).1 = .error reason) :
    (∀ x, c.fetched? = some (Instruction.waitKey x).toWord →
      let after := (c.cycle dialect).2
      (c.cycle dialect).1 = .error (.device reason) ∧
        after.machine.frame = c.machine.frame ∧
        after.render.2.display.draws = after.display.draws + 1 ∧
        (after.render.1 = .ok () →
          after.render.2.display.shown.head? = some after.render.2.machine.frame.picture)) ∧
    c.render.1 = .error (.device reason) ∧
    c.render.2.machine.frame = { c.machine.frame with pending := false } ∧
    c.render.2.render = (.ok (), c.render.2) := by
  obtain ⟨failed, frame⟩ := render_of_undrawn pending undrawn
  refine ⟨fun x word => ?_, failed, frame, render_of_settled (pending_render c)⟩
  intro after
  obtain ⟨waits, kept, -⟩ := cycle_of_undrawn dialect word undrawn
  have still : after.machine.frame.pending = true := by
    show (c.cycle dialect).2.machine.frame.pending = true
    rw [kept, pending]
  refine ⟨waits, kept, ?_, fun shows => ?_⟩
  · rw [draws_render, if_pos still]
  · rw [shown_render still shows, render_of_pending still]
    rfl

theorem failed_paint_of_wait :
    let display : Display := { faultAt := fun k => if k = 1 then some "draw failed" else none }
    let c := (fresh (.ofSeed 0) display {} {}).after {} [.load [0x00, 0xE0, 0xF0, 0x0A], .cycle]
    let after := (c.cycle {}).2
    c.machine.frame.pending = true ∧
      (c.display.draw c.machine.frame.picture).1 = .error "draw failed" ∧
      c.fetched? = some (Instruction.waitKey 0).toWord ∧
      (c.cycle {}).1 = .error (.device "draw failed") ∧
      after.render.2.display.shown.head? = some after.render.2.machine.frame.picture := by
  intro display c after
  obtain ⟨pending, undrawn, word, shows⟩ : c.machine.frame.pending = true ∧
      (c.display.draw c.machine.frame.picture).1 = .error "draw failed" ∧
      c.fetched? = some (Instruction.waitKey 0).toWord ∧ after.render.1 = .ok () := by
    decide +kernel
  obtain ⟨failed, -, -, again⟩ := (failed_paint {} c "draw failed" pending undrawn).1 0 word
  exact ⟨pending, undrawn, word, failed, again shows⟩

/-- A cleared picture that `render` could not show is not shown by the next `render`. -/
theorem failed_render_forgets_change :
    let display : Display := { faultAt := fun k => if k = 1 then some "draw failed" else none }
    let c := (fresh (.ofSeed 0) display {} {}).after {} [.load [0x00, 0xE0], .cycle]
    Reachable {} c ∧ c.machine.frame.pending = true ∧
      c.render.1 = .error (.device "draw failed") ∧ c.render.2.render.1 = .ok () ∧
      c.render.2.render.2.display.draws = 1 ∧ c.render.2.render.2.display.shown = [] := by
  intro display c
  refine ⟨(Reachable.fresh _ display _ _).after _, ?_⟩
  decide +kernel

end Console

namespace Scheduler

open Console (Current Paints)

variable {s : Scheduler} {earlier : List Picture}

/-! ## Frames -/

theorem paints_batch (dialect : Dialect) (count : Nat) {c : Console}
    (proceeds : (batch dialect count c).1 = .ok .proceed) :
    Paints (c.instructions dialect (batchSteps dialect count c)) c (batch dialect count c).2 := by
  induction count generalizing c with
  | zero => exact Paints.nil c
  | succ count ih =>
    by_cases first : (c.cycle dialect).1 = .ok .proceed
    · rw [batch_of_proceed count first] at proceeds ⊢
      rw [batchSteps_of_proceed count first, Console.instructions_cons]
      exact (Console.paints_cycle first).append (ih proceeds)
    · rw [batch_of_end count first] at proceeds
      exact absurd proceeds first

theorem instructions_afterBatchSteps (dialect : Dialect) (c : Console) :
    c.instructions dialect (afterBatchSteps c) = [] := by
  unfold afterBatchSteps
  cases c.render.1 with
  | error fault => rfl
  | ok => rfl

/-- What a completed frame paints: once for each wait, and once more at the end if a change
is pending there. -/
theorem frame_paints (h : s.frame.1 = .ok .proceed) :
    let is := s.console.instructions s.dialect s.frameSteps
    s.frame.2.console.display.draws =
        s.console.display.draws + is.countP Instruction.waits +
          (if is.foldl Instruction.leavesPending s.console.machine.frame.pending then 1 else 0) ∧
      s.frame.2.console.machine.frame.pending = false ∧
      ∀ earlier, Current earlier s.console → Current earlier s.frame.2.console := by
  intro is
  cases frame_cases s with
  | stopped ends result =>
    rw [h] at result
    exact absurd result.symm ends
  | ended _ ends result =>
    rw [h] at result
    exact absurd result.symm ends
  | completed proceeds goesOn _ scheduler =>
    have paints := paints_batch s.dialect s.cycles proceeds
    obtain ⟨shows, after⟩ := render_of_afterBatch goesOn
    obtain ⟨keypad, log, -, polled⟩ :=
      (batch s.dialect s.cycles s.console).2.render.2.tick.poll_eq
    have same : is = s.console.instructions s.dialect
        (batchSteps s.dialect s.cycles s.console) := by
      show s.console.instructions s.dialect s.frameSteps = _
      rw [frameSteps_of_proceed proceeds, Console.instructions_append, after_batchSteps,
        instructions_afterBatchSteps, List.append_nil]
    rw [scheduler, after, same, polled]
    refine ⟨?_, Console.pending_render _, fun earlier current => ?_⟩
    · rw [← paints.draws, ← paints.pending]
      exact Console.draws_render _
    · exact ((paints.current current).render shows).of_eq rfl rfl

/-- A machine that has just been switched on has nothing to show. -/
theorem current_fresh (random : Keystream) (display : Display) (keys : KeySource) (log : Log) :
    Current display.shown (.fresh random display keys log) :=
  ⟨[], rfl, fun _ => rfl⟩

theorem settled_afterFrames {count : Nat} (h : s.Completes count)
    (settled : s.console.machine.frame.pending = false) :
    (s.afterFrames count).console.machine.frame.pending = false := by
  cases count with
  | zero => exact settled
  | succ count =>
    have last : (s.afterFrames count).frame.1 = .ok .proceed := h count (Nat.lt_succ_self count)
    rw [afterFrames_succ]
    exact (frame_paints last).2.1

theorem current_afterFrames {count : Nat} (h : s.Completes count)
    (current : Current earlier s.console) : Current earlier (s.afterFrames count).console := by
  induction count with
  | zero => exact current
  | succ count ih =>
    have last : (s.afterFrames count).frame.1 = .ok .proceed := h count (Nat.lt_succ_self count)
    rw [afterFrames_succ]
    exact (frame_paints last).2.2 earlier (ih (h.of_le (Nat.le_succ count)))

/-- **The screen neither lags nor is painted in vain.** After any number of completed frames
the picture that was shown last is that of the machine, which is blank if none was shown,
and no change is pending. Each of the frames has shown a picture once for each wait for a
key, and once more if the picture was cleared or drawn on behind the last of them. A frame
in which a picture cannot be shown is not completed. -/
theorem completed_frames_shown (random : Keystream) (display : Display) (keys : KeySource)
    (log : Log) (program : List UInt8) (s : Scheduler)
    (start : s.console = ((Console.fresh random display keys log).load program).2)
    (count : Nat) (completes : s.Completes count) :
    let c := (s.afterFrames count).console
    (∃ pictures, c.display.shown = pictures ++ display.shown ∧
      c.machine.frame.picture = pictures.headD .blank) ∧
    c.machine.frame.pending = false ∧
    ∀ k < count,
      let before := s.afterFrames k
      let is := before.console.instructions before.dialect before.frameSteps
      let redrawn := (is.rtakeWhile fun i => !i.waits).any Instruction.redraws
      before.frame.2.console.display.draws =
        before.console.display.draws + is.countP Instruction.waits +
          if redrawn then 1 else 0 := by
  intro c
  have settled : s.console.machine.frame.pending = false := by
    rw [start]
    unfold Console.load
    split
    · rfl
    · rfl
  have current : Current display.shown s.console := by
    rw [start]
    exact Console.current_load (current_fresh random display keys log) program
  have still : c.machine.frame.pending = false := settled_afterFrames completes settled
  obtain ⟨pictures, shown, same⟩ := current_afterFrames completes current
  refine ⟨⟨pictures, shown, same still⟩, still, fun k lt => ?_⟩
  intro before is redrawn
  have pending : before.console.machine.frame.pending = false :=
    settled_afterFrames (completes.of_le (Nat.le_of_lt lt)) settled
  obtain ⟨draws, -, -⟩ := frame_paints (completes k lt)
  rw [pending, Instruction.foldl_leavesPending] at draws
  exact draws

theorem completed_frames_shown_with_wait :
    let console := ((Console.fresh (.ofSeed 0) {} { entries := [some 0x31, none] } {}).load
      [0x00, 0xE0, 0xF0, 0x0A, 0xD0, 0x05]).2
    let s : Scheduler := { console, cycles := 3 }
    s.Completes 1 ∧ s.frame.2.console.display.draws = s.console.display.draws + 1 + 1 ∧
      s.frame.2.console.machine.frame.pending = false := by
  intro console s
  obtain ⟨first, executed⟩ : s.frame.1 = .ok .proceed ∧
      s.console.instructions s.dialect s.frameSteps = [.clear, .waitKey 0, .draw 0 0 5] := by
    decide +kernel
  have completes : s.Completes 1 := completes_succ first fun k lt => absurd lt (Nat.not_lt_zero k)
  obtain ⟨-, settled, draws⟩ := completed_frames_shown (.ofSeed 0) {}
    { entries := [some 0x31, none] } {} _ s rfl 1 completes
  clear_value s
  have drawn := draws 0 Nat.zero_lt_one
  simp only [afterFrames, executed] at drawn
  exact ⟨completes, drawn, settled⟩

end Scheduler

end Chip8
