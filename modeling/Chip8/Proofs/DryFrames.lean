import Chip8.Proofs.KeysAhead

/-!
# Frames that run dry

A frame that waits for a key nobody has typed exits, and is made again when there are more keys.
What it has shown by then must not stay on the screen for want of another picture. It does not:
a wait shows its picture before it reads, so that the frame made again shows one as well.

  * `suffix_shown_perform` — what was shown stays shown.
  * `batch_of_dry` — a frame runs dry in its batch, since a poll never gives a key that nobody
    typed.
  * `shown_batch_of_dry`, `shown_frame_of_dry` — a batch and a frame that run dry show a picture,
    whatever keys come behind those that they have.
-/

namespace Chip8

theorem Display.suffix_shown_draw (d : Display) (picture : Picture) :
    d.shown <:+ (d.draw picture).2.shown := by
  simp only [draw]
  cases d.faultAt (d.draws + 1) with
  | some reason => exact List.suffix_refl _
  | none => exact List.suffix_cons picture d.shown

namespace Console

open KeySource (suffix_of_eq)

variable {c c' : Console}

theorem display_waitKey (c : Console) (x : Register) :
    (c.waitKey x).2.display = (c.display.draw c.machine.frame.picture).2 := by
  cases drawn : (c.display.draw c.machine.frame.picture).1 with
  | error reason => rw [waitKey_of_undrawn x drawn]
  | ok =>
    obtain ⟨_, _, _, -, after⟩ := waitKey_of_drawn x drawn
    rw [after]

/-- A cycle leaves the display alone or shows a picture. -/
theorem display_cycle (dialect : Dialect) (c : Console) :
    (c.cycle dialect).2.display = c.display ∨
      ∃ picture, (c.cycle dialect).2.display = (c.display.draw picture).2 := by
  cases cycle_cases dialect c with
  | outside _ _ console | undecodable _ _ _ console | overflow _ _ _ _ _ _ console
  | executed _ _ _ _ _ _ _ _ console => exact .inl (by rw [console])
  | waited bounds x word =>
    obtain ⟨log, cycle⟩ := cycle_waitKey dialect bounds word
    rw [cycle]
    exact .inr ⟨_, display_waitKey _ x⟩

theorem suffix_shown_cycle (dialect : Dialect) (c : Console) :
    c.display.shown <:+ (c.cycle dialect).2.display.shown := by
  rcases display_cycle dialect c with same | ⟨picture, drawn⟩
  · exact suffix_of_eq (by rw [same])
  · rw [drawn]
    exact c.display.suffix_shown_draw picture

theorem drawFault_cycle (dialect : Dialect) (c : Console) :
    (c.cycle dialect).2.display.faultAt = c.display.faultAt := by
  rcases display_cycle dialect c with same | ⟨picture, drawn⟩
  · rw [same]
  · obtain ⟨_, eq⟩ := c.display.draw_eq picture
    rw [drawn, eq]

theorem suffix_shown_perform (dialect : Dialect) (c : Console) (step : Step) :
    c.display.shown <:+ (c.perform dialect step).2.display.shown := by
  cases step with
  | cycle => exact suffix_shown_cycle dialect c
  | tick => exact List.suffix_refl _
  | poll =>
    obtain ⟨_, _, -, polled⟩ := c.poll_eq
    show c.display.shown <:+ c.poll.2.display.shown
    exact suffix_of_eq (by rw [polled])
  | render =>
    show c.display.shown <:+ c.render.2.display.shown
    cases pending : c.machine.frame.pending with
    | true =>
      rw [render_of_pending pending]
      exact Display.suffix_shown_draw _ _
    | false => exact suffix_of_eq (by rw [render_of_settled pending])
  | load program =>
    show c.display.shown <:+ (c.load program).2.display.shown
    unfold load
    split
    · exact List.suffix_refl _
    · exact List.suffix_refl _
  | shutdown =>
    show c.display.shown <:+ c.display.release.2.shown
    exact suffix_of_eq (by rw [Display.release_eq])

theorem suffix_shown_after (dialect : Dialect) (c : Console) (steps : List Step) :
    c.display.shown <:+ (c.after dialect steps).display.shown := by
  induction steps generalizing c with
  | nil => exact List.suffix_refl _
  | cons step steps ih => exact (suffix_shown_perform dialect c step).trans (ih _)

/-- Where one console waits and is told to exit, any other with the same machine shows a picture,
whatever keys it has. -/
theorem shown_cycle_of_exit {dialect : Dialect} (exits : (c.cycle dialect).1 = .ok .exit)
    (same : c'.machine = c.machine) (works : ∀ k, c'.display.faultAt k = none) :
    c'.display.shown.length < (c'.cycle dialect).2.display.shown.length := by
  cases cycle_cases dialect c with
  | outside _ result | undecodable _ _ result | overflow _ _ _ _ result
  | executed _ _ _ _ _ _ result => rw [result] at exits; cases exits
  | waited bounds x word =>
    rw [← same] at bounds word
    obtain ⟨log, cycle⟩ := cycle_waitKey dialect bounds word
    have drawn : (c'.display.draw c'.machine.taken.frame.picture).1 = .ok () := by
      rw [Display.draw_of_works works]
    rw [cycle, display_waitKey]
    show _ < (c'.display.draw c'.machine.taken.frame.picture).2.shown.length
    rw [Display.shown_draw drawn]
    exact Nat.lt_succ_self _

theorem exitKey_mem_of_poll (exits : c.poll.1 = .ok .exit) : some exitKey ∈ c.keys.entries := by
  rw [result_poll_eq] at exits
  unfold KeySource.poll at exits
  split at exits
  · next failed =>
    split at failed
    · cases exits
    · cases failed
  · next found =>
    split at found
    · cases found
    · split at exits
      · next isExit =>
        obtain rfl := Except.ok.inj found
        exact List.mem_of_head? (Option.join_eq_some_iff.mp isExit)
      · cases exits

end Console

namespace Scheduler

variable {c : Console}

theorem suffix_shown_batch (dialect : Dialect) (count : Nat) (c : Console) :
    c.display.shown <:+ (batch dialect count c).2.display.shown := by
  rw [← after_batchSteps]
  exact c.suffix_shown_after dialect _

/-- A batch goes dry in a wait, and the wait shows its picture before it reads. -/
theorem shown_batch_of_dry {dialect : Dialect} {count : Nat}
    (works : ∀ k, c.display.faultAt k = none) (exits : (batch dialect count c).1 = .ok .exit)
    (untyped : some exitKey ∉ c.keys.entries) (past : Past) (more : List (Option UInt8)) :
    (c.within past more).display.shown.length <
      (batch dialect count (c.within past more)).2.display.shown.length := by
  induction count generalizing c with
  | zero => cases exits
  | succ count ih =>
    by_cases proceeds : (c.cycle dialect).1 = .ok .proceed
    · have cycled : (c.within past more).cycle dialect =
          Console.inside past more (c.cycle dialect) :=
        c.cycle_within dialect past fun _ exits => by rw [proceeds] at exits; cases exits
      have works' (k : Nat) : (c.cycle dialect).2.display.faultAt k = none := by
        rw [Console.drawFault_cycle]
        exact works k
      have left : (c.cycle dialect).2.keys.entries <:+ c.keys.entries :=
        c.suffix_perform dialect .cycle
      rw [batch_of_proceed count proceeds] at exits
      have later := ih works' exits fun mem => untyped (left.mem mem)
      have first := ((c.within past more).suffix_shown_cycle dialect).length_le
      rw [cycled] at first
      rw [batch_of_proceed count (by rw [cycled]; exact proceeds), cycled]
      exact Nat.lt_of_le_of_lt first later
    · rw [batch_of_end count proceeds] at exits
      have same : (c.within past more).machine = c.machine := rfl
      have shows := Console.shown_cycle_of_exit exits same works
      refine Nat.lt_of_lt_of_le shows ?_
      by_cases goesOn : ((c.within past more).cycle dialect).1 = .ok .proceed
      · rw [batch_of_proceed count goesOn]
        exact (suffix_shown_batch dialect count _).length_le
      · exact Nat.le_of_eq (by rw [batch_of_end count goesOn])

theorem suffix_shown_frame (s : Scheduler) :
    (batch s.dialect s.cycles s.console).2.display.shown <:+
      s.frame.2.console.display.shown := by
  cases frame_cases s with
  | stopped _ _ scheduler => exact KeySource.suffix_of_eq (by rw [scheduler])
  | ended _ _ _ scheduler | completed _ _ _ scheduler =>
    rw [scheduler, ← after_afterBatchSteps s.dialect]
    exact Console.suffix_shown_after _ _ _

theorem suffix_shown_of_frame (s : Scheduler) :
    s.console.display.shown <:+ s.frame.2.console.display.shown :=
  (suffix_shown_batch _ _ _).trans s.suffix_shown_frame

/-- A frame that runs dry does so in its batch. -/
theorem batch_of_dry {s : Scheduler} (exits : s.frame.1 = .ok .exit)
    (untyped : some exitKey ∉ s.console.keys.entries) :
    (batch s.dialect s.cycles s.console).1 = .ok .exit := by
  cases frame_cases s with
  | stopped _ result => rw [← result, exits]
  | completed _ _ result => rw [exits] at result; cases result
  | ended _ _ result =>
    rw [result] at exits
    -- a poll only finds the exit key where it is
    have left : (batch s.dialect s.cycles s.console).2.keys.entries <:+ s.console.keys.entries := by
      rw [← after_batchSteps]
      exact Console.suffix_after _ _ _
    cases shows : (batch s.dialect s.cycles s.console).2.render.1 with
    | error fault =>
      rw [afterBatch_of_error shows] at exits
      cases exits
    | ok =>
      rw [afterBatch_of_ok shows] at exits
      have mem := Console.exitKey_mem_of_poll exits
      have keys : (batch s.dialect s.cycles s.console).2.render.2.tick.keys = _ :=
        Console.keys_render _
      rw [keys] at mem
      exact absurd (left.mem mem) untyped

/-- A frame that runs dry shows a picture, and so does every frame made instead of it with more
keys. -/
theorem shown_frame_of_dry {s : Scheduler} (works : ∀ k, s.console.display.faultAt k = none)
    (exits : s.frame.1 = .ok .exit) (untyped : some exitKey ∉ s.console.keys.entries)
    (past : Past) (more : List (Option UInt8)) :
    (s.within past more).console.display.shown.length <
      (s.within past more).frame.2.console.display.shown.length := by
  have first := shown_batch_of_dry works (batch_of_dry exits untyped) untyped past more
  exact Nat.lt_of_lt_of_le first (s.within past more).suffix_shown_frame.length_le

end Scheduler

end Chip8
