import Mathlib.Algebra.Order.Group.Int
import Chip8.Pacing.Pacer

/-!
# Deadlines over many frames

A sleeping pacer is called at the end of each frame, at whatever instant that is. This module
follows it over all of its calls.

  * `idle_sleep` — one call: the deadline moves on by at least a frame and is not left behind the
    present, yet it runs ahead by no more than a frame, and only a call that is late by more than
    a frame takes it out of phase (`Moved`).
  * `atCall_sleep` — any number of calls: a sleeping pacer stays one.
  * `deadlineAt_eq_iff` — the deadlines of the calls up to some point are whole frames apart if
    and only if no call up to there is late by more than a frame.
  * `unslept_cases` — each call that reads an instant and does not sleep pushes the deadline
    further past that instant, so that the third one would find it in the future.

`deadlines_keep_phase` puts these together. The instants need not even be in order. They are
written as the whole numbers that they are, so that `omega` can compare them.
-/

namespace Chip8.Pacer

section
variable (p : Pacer) (now : Nat → Int)

/-- The pacer that the `i`-th call finds, counted from zero, where the calls read the instants
`now 0`, `now 1` and so on. -/
def atCall : Nat → Pacer
  | 0 => p
  | i + 1 => ((atCall i).idle (now i)).2

/-- What the `i`-th call finds to be done. -/
def restAt (i : Nat) : Rest := ((p.atCall now i).idle (now i)).1

/-- How many of the first `count` calls read an instant and do not sleep. -/
def unslept (instant : Int) (count : Nat) : Nat :=
  (List.range count).countP fun i => now i = instant ∧ p.restAt now i = .none

end

/-- The deadline after a call that reads `now`. -/
def nextDeadline (frame : Nat) (deadline now : Int) : Int :=
  if now - deadline > frame then now + frame else deadline + frame

/-- The deadline that the `i`-th call of a sleeping pacer finds. -/
def deadlineAt (frame : Nat) (first : Int) (now : Nat → Int) : Nat → Int
  | 0 => first
  | i + 1 => nextDeadline frame (deadlineAt frame first now i) (now i)

/-- What a call that reads `now` may do to the deadline. -/
structure Moved (frame : Nat) (now deadline next : Int) : Prop where
  onward : deadline + frame ≤ next
  not_behind : now ≤ next
  no_burst : next ≤ max deadline now + frame
  in_phase_iff : next = deadline + frame ↔ now - deadline ≤ frame

variable {frame : Nat} {first : Int} {now : Nat → Int}

/-! ## One call -/

theorem moved_nextDeadline (frame : Nat) (deadline now : Int) :
    Moved frame now deadline (nextDeadline frame deadline now) := by
  unfold nextDeadline
  split
  · next late => exact ⟨by omega, by omega, by omega, by omega⟩
  · next caught_up => exact ⟨by omega, by omega, by omega, by omega⟩

/-- A call sleeps until the deadline, if that is still to come. -/
theorem idle_sleep (frame : Nat) (deadline now : Int) :
    (Pacer.sleep frame deadline).idle now =
      (if now < deadline then .sleep (deadline - now).toNat else .none,
        .sleep frame (nextDeadline frame deadline now)) := by
  simp only [idle, nextDeadline]
  by_cases early : now < deadline
  · -- a call before its deadline is not late at all
    have caught_up : ¬ now - deadline > frame := by omega
    simp only [early, caught_up, if_true, if_false]
  · simp only [early, if_false]
    split
    · rfl
    · rfl

/-! ## All calls -/

theorem atCall_sleep (frame : Nat) (first : Int) (now : Nat → Int) (i : Nat) :
    (Pacer.sleep frame first).atCall now i = .sleep frame (deadlineAt frame first now i) := by
  induction i with
  | zero => rfl
  | succ i ih => rw [atCall, ih, idle_sleep, deadlineAt]

theorem restAt_sleep (frame : Nat) (first : Int) (now : Nat → Int) (i : Nat) :
    (Pacer.sleep frame first).restAt now i =
      if now i < deadlineAt frame first now i then
        .sleep (deadlineAt frame first now i - now i).toNat
      else .none := by
  rw [restAt, atCall_sleep, idle_sleep]

theorem restAt_sleep_eq_none_iff {i : Nat} :
    (Pacer.sleep frame first).restAt now i = .none ↔ deadlineAt frame first now i ≤ now i := by
  rw [restAt_sleep]
  split
  · next early => simp only [reduceCtorEq, false_iff, Int.not_le, early]
  · next due => simp only [Int.not_lt.mp due]

theorem moved_deadlineAt (frame : Nat) (first : Int) (now : Nat → Int) (i : Nat) :
    Moved frame (now i) (deadlineAt frame first now i) (deadlineAt frame first now (i + 1)) :=
  moved_nextDeadline frame _ (now i)

theorem frames_succ (first : Int) (i frame : Nat) :
    first + (i + 1 : Nat) * (frame : Int) = first + i * frame + frame := by
  push_cast
  rw [Int.add_mul, Int.one_mul, Int.add_assoc]

/-- One late call is enough to lose the phase for good: later deadlines only move on. -/
theorem deadlineAt_eq_iff (frame : Nat) (first : Int) (now : Nat → Int) (count : Nat) :
    (∀ i ≤ count, deadlineAt frame first now i = first + i * frame) ↔
      ∀ i < count, now i - deadlineAt frame first now i ≤ frame := by
  constructor
  · intro exact_until i lt
    apply (moved_deadlineAt frame first now i).in_phase_iff.mp
    calc deadlineAt frame first now (i + 1)
        = first + (i + 1 : Nat) * frame := exact_until (i + 1) lt
      _ = first + i * frame + frame := frames_succ first i frame
      _ = deadlineAt frame first now i + frame := by rw [exact_until i (Nat.le_of_lt lt)]
  · intro in_time i le
    induction i with
    | zero => simp [deadlineAt]
    | succ i ih =>
      calc deadlineAt frame first now (i + 1)
          = deadlineAt frame first now i + frame :=
            (moved_deadlineAt frame first now i).in_phase_iff.mpr (in_time i le)
        _ = first + i * frame + frame := by rw [ih (Nat.le_of_lt le)]
        _ = first + (i + 1 : Nat) * frame := (frames_succ first i frame).symm

/-- The first call that reads an instant and does not sleep leaves the deadline at that instant
or later, the second one leaves it later, and a third one there cannot be. -/
theorem unslept_cases (positive : 0 < frame) (first : Int) (now : Nat → Int)
    (instant : Int) (count : Nat) :
    let unslept := (Pacer.sleep frame first).unslept now instant count
    let deadline := deadlineAt frame first now count
    unslept = 0 ∨ (unslept = 1 ∧ instant ≤ deadline) ∨ (unslept = 2 ∧ instant < deadline) := by
  induction count with
  | zero => exact .inl rfl
  | succ count ih =>
    intro unslept deadline
    have onward := (moved_deadlineAt frame first now count).onward
    have not_behind := (moved_deadlineAt frame first now count).not_behind
    by_cases counts : now count = instant ∧ (Pacer.sleep frame first).restAt now count = .none
    · have more : unslept = (Pacer.sleep frame first).unslept now instant count + 1 := by
        simp only [unslept, Pacer.unslept, List.range_succ, List.countP_append,
          List.countP_singleton, counts, and_self, decide_true, if_true]
      obtain ⟨reads, no_rest⟩ := counts
      have due := restAt_sleep_eq_none_iff.mp no_rest
      rw [reads] at due not_behind
      rcases ih with none_yet | ⟨one_yet, reached⟩ | ⟨-, passed⟩
      · exact .inr (.inl ⟨by omega, not_behind⟩)
      · exact .inr (.inr ⟨by omega, by omega⟩)
      · omega
    · have same : unslept = (Pacer.sleep frame first).unslept now instant count := by
        simp only [unslept, Pacer.unslept, List.range_succ, List.countP_append,
          List.countP_singleton, counts, decide_false, Bool.false_eq_true, if_false, Nat.add_zero]
      rw [same]
      rcases ih with none_yet | ⟨one_yet, reached⟩ | ⟨two_yet, passed⟩
      · exact .inl none_yet
      · exact .inr (.inl ⟨one_yet, by omega⟩)
      · exact .inr (.inr ⟨two_yet, by omega⟩)

/-- **Deadlines keep their phase and never come in bursts.** A sleeping pacer is called at any
instants, one call after another. Each call sleeps until the deadline that it finds, or does not
sleep if that has passed; it moves the deadline on by at least one frame, to no earlier than the
present and to no later than a frame past the deadline and the present, and by exactly one frame
if and only if it is late by no more than a frame. So the deadlines are whole frames apart
exactly up to the first call that is later than that, and of all the calls that read one and the
same instant at most two do not sleep. -/
theorem deadlines_keep_phase (frame : Nat) (positive : 0 < frame) (first : Int)
    (now : Nat → Int) :
    let p := Pacer.sleep frame first
    ∃ deadline : Nat → Int, deadline 0 = first ∧
      (∀ i, p.atCall now i = .sleep frame (deadline i) ∧
        p.restAt now i =
          (if now i < deadline i then .sleep (deadline i - now i).toNat else .none) ∧
        Moved frame (now i) (deadline i) (deadline (i + 1))) ∧
      (∀ count : Nat, (∀ i ≤ count, deadline i = first + i * frame) ↔
        ∀ i < count, now i - deadline i ≤ frame) ∧
      ∀ (instant : Int) (count : Nat), p.unslept now instant count ≤ 2 := by
  intro p
  refine ⟨deadlineAt frame first now, rfl, fun i => ?_, deadlineAt_eq_iff frame first now,
    fun instant count => ?_⟩
  · exact ⟨atCall_sleep frame first now i, restAt_sleep frame first now i,
      moved_deadlineAt frame first now i⟩
  · rcases unslept_cases positive first now instant count with none | ⟨one, -⟩ | ⟨two, -⟩
    · exact Nat.le_trans (Nat.le_of_eq none) (by decide)
    · exact Nat.le_trans (Nat.le_of_eq one) (by decide)
    · exact Nat.le_of_eq two

/-- The first call is late by exactly a frame and the next two read the same instant: two of the
three do not sleep, and none of them breaks the phase. -/
theorem deadlines_keep_phase_through_late_call :
    let now : Nat → Int := fun i => if i < 3 then 33333332 else 1000000000
    let p := Pacer.sleep frameLength 16666666
    0 < frameLength ∧ p.unslept now 33333332 3 = 2 ∧
      (∀ count, p.unslept now 33333332 count ≤ 2) ∧
      p.atCall now 3 = .sleep frameLength (16666666 + 3 * frameLength) ∧
      p.atCall now 4 = .sleep frameLength (1000000000 + frameLength) := by
  intro now p
  have positive : 0 < frameLength := by decide
  obtain ⟨deadline, start, calls, phase, few⟩ :=
    deadlines_keep_phase frameLength positive 16666666 now
  have late : ∀ i < 3, now i - deadline i ≤ frameLength := by
    have length : frameLength = 16666666 := rfl
    have first : deadline 0 + frameLength ≤ deadline 1 := (calls 0).2.2.onward
    have second : deadline 1 + frameLength ≤ deadline 2 := (calls 1).2.2.onward
    intro i lt
    have reads : now i = 33333332 := if_pos lt
    obtain rfl | rfl | rfl : i = 0 ∨ i = 1 ∨ i = 2 := by omega
    all_goals omega
  refine ⟨positive, by decide, few 33333332, ?_, by decide⟩
  rw [(calls 3).1, (phase 3).mpr late 3 (Nat.le_refl 3)]
  rfl

end Chip8.Pacer
