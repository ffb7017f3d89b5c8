import Mathlib.Algebra.Group.Nat.Defs
import Mathlib.Data.Nat.Find
import Chip8.Pacing.Calibration

/-!
# What a calibration finds

The clock is read twice for each attempt, and the first attempt whose second reading is above
its first is the one that counts. Whatever the clock does before and after, standing still or
going back, makes no difference but for the iterations, which grow tenfold from attempt to
attempt up to the largest count there is.

  * `attempts_of_still`, `attempts_of_advance` — one attempt.
  * `calibrate_of_never`, `calibrate_of_first` — all of them: nothing is found unless the clock
    advances within some attempt, and then it is the first of these, however many are allowed.
  * `advances_ofReadings` — a clock that counts up from some reading on advances soon.

`calibrate_finds_first_advance` gives the formula for what is found.
-/

namespace Chip8

/-- The clock advances within the `k`-th attempt, counted from zero. -/
def Clock.Advances (clock : Clock) (k : Nat) : Prop := clock (2 * k) < clock (2 * k + 1)

instance (clock : Clock) : DecidablePred clock.Advances := fun k => by
  unfold Clock.Advances; infer_instance

/-- The milliseconds that the `k`-th attempt is seen to take. -/
def Clock.elapsed (clock : Clock) (k : Nat) : Nat :=
  (clock (2 * k + 1)).toNat - (clock (2 * k)).toNat

theorem Clock.elapsed_pos_iff {clock : Clock} {k : Nat} :
    0 < clock.elapsed k ↔ clock.Advances k := by
  rw [elapsed, Nat.sub_pos_iff_lt]
  exact UInt64.lt_iff_toNat_lt.symm

theorem Clock.elapsed_le_limit {clock : Clock} {k : Nat} : clock.elapsed k ≤ limit :=
  Nat.le_trans (Nat.sub_le _ _) (Nat.le_of_lt_succ (UInt64.toNat_lt _))

/-- The last of given readings, or zero. -/
def Clock.lastOf (readings : List UInt64) : Nat := (readings.getLast?.getD 0).toNat

theorem Clock.lastOf_le_limit (readings : List UInt64) : lastOf readings ≤ limit :=
  Nat.le_of_lt_succ (UInt64.toNat_lt _)

/-- From the last given reading on the clock counts up, as far as it goes. -/
theorem Clock.toNat_ofReadings (readings : List UInt64) {k : Nat}
    (late : readings.length ≤ k + 1) :
    (ofReadings readings k).toNat =
      min (lastOf readings + (k + 1 - readings.length)) limit := by
  rcases Nat.lt_or_ge k readings.length with inside | past
  · have last : readings.length - 1 = k := by omega
    have shown : ofReadings readings k = readings[k] := by
      simp only [ofReadings, List.getElem?_eq_getElem inside]
    have lastOf_eq : lastOf readings = readings[k].toNat := by
      rw [lastOf, List.getLast?_eq_getElem?, last, List.getElem?_eq_getElem inside,
        Option.getD_some]
    have bound := lastOf_le_limit readings
    rw [shown, ← lastOf_eq]
    omega
  · have shown : ofReadings readings k =
        UInt64.ofNat (min (lastOf readings + (k + 1 - readings.length)) limit) := by
      simp only [ofReadings, List.getElem?_eq_none past, lastOf]
    rw [shown]
    exact UInt64.toNat_ofNat_of_lt' (Nat.lt_succ_of_le (Nat.min_le_right _ limit))

/-- The attempt that reaches past the given readings sees the clock count up, whether it reads
the last of them or only what comes after. -/
theorem Clock.advances_ofReadings {readings : List UInt64}
    (room : lastOf readings ≤ limit - 2) :
    (ofReadings readings).Advances (readings.length / 2) := by
  have first := toNat_ofReadings readings (k := 2 * (readings.length / 2)) (by omega)
  have second := toNat_ofReadings readings (k := 2 * (readings.length / 2) + 1) (by omega)
  rw [limit] at room
  rw [Advances, UInt64.lt_iff_toNat_lt, first, second, limit]
  omega

namespace Calibration

/-- The iterations of the `k`-th attempt. -/
def tried (k : Nat) : Nat := min (firstIterations * 10 ^ k) Clock.limit

theorem tried_zero : tried 0 = firstIterations := by decide

theorem tried_le_limit (k : Nat) : tried k ≤ Clock.limit := Nat.min_le_right _ _

/-- The counts stay at the limit once they have reached it. -/
theorem min_tried_mul_ten (k : Nat) : min (tried k * 10) Clock.limit = tried (k + 1) := by
  unfold tried
  rw [pow_succ, ← Nat.mul_assoc]
  omega

/-- What is found if the `k`-th attempt is the first within which the clock advances. -/
def found (clock : Clock) (cycles k : Nat) : Calibration :=
  { iterations := tried k
    elapsed := clock.elapsed k
    idle := perFrame (tried k) (clock.elapsed k) - cycles - frameOverhead
    readings := 2 * (k + 1) }

variable {clock : Clock} {cycles left k : Nat}

theorem attempts_of_still (still : ¬ clock.Advances k) :
    attempts clock cycles (left + 1) (2 * k) (tried k) =
      attempts clock cycles left (2 * (k + 1)) (tried (k + 1)) := by
  have unseen : clock.elapsed k = 0 := by
    rw [← Clock.elapsed_pos_iff] at still
    omega
  rw [attempts, ← min_tried_mul_ten]
  exact if_pos unseen

theorem attempts_of_advance (advances : clock.Advances k) :
    attempts clock cycles (left + 1) (2 * k) (tried k) = some (found clock cycles k) := by
  have seen : clock.elapsed k ≠ 0 := Nat.ne_of_gt (Clock.elapsed_pos_iff.mpr advances)
  rw [attempts]
  exact if_neg seen

theorem attempts_of_never (still : ∀ j, k ≤ j → ¬ clock.Advances j) :
    attempts clock cycles left (2 * k) (tried k) = none := by
  induction left generalizing k with
  | zero => rfl
  | succ left ih =>
    rw [attempts_of_still (still k (Nat.le_refl k))]
    exact ih fun j le => still j (Nat.le_of_succ_le le)

theorem attempts_of_first {first : Nat} (le : k ≤ first) (advances : clock.Advances first)
    (still : ∀ j, k ≤ j → j < first → ¬ clock.Advances j) :
    attempts clock cycles left (2 * k) (tried k) =
      if first < k + left then some (found clock cycles first) else none := by
  induction left generalizing k with
  | zero => exact (if_neg (Nat.not_lt.mpr le)).symm
  | succ left ih =>
    rcases Nat.eq_or_lt_of_le le with rfl | lt
    · rw [attempts_of_advance advances, if_pos (Nat.lt_add_of_pos_right (Nat.succ_pos left))]
    · rw [attempts_of_still (still k (Nat.le_refl k) lt),
        ih lt fun j after before => still j (Nat.le_of_succ_le after) before]
      simp only [Nat.succ_add, Nat.add_succ]

/-- The formula for what is found in the `k`-th attempt, and that the quotient in it can be
taken in 128 bits. -/
structure Formula (clock : Clock) (cycles k : Nat) (c : Calibration) : Prop where
  readings : c.readings = 2 * (k + 1)
  iterations : c.iterations = min (100000 * 10 ^ k) (2 ^ 64 - 1)
  elapsed : c.elapsed = (clock (2 * k + 1)).toNat - (clock (2 * k)).toNat
  divisor_pos : 0 < 60 * c.elapsed
  divisor_lt : 60 * c.elapsed < 2 ^ 128
  dividend_lt : 1000 * c.iterations < 2 ^ 128
  idle : (c.idle : Int) =
    max (0 : Int)
      (((min (1000 * c.iterations / (60 * c.elapsed)) (2 ^ 64 - 1) : Nat) : Int) - cycles - 100)

theorem formula_found (advances : clock.Advances k) :
    Formula clock cycles k (found clock cycles k) where
  readings := rfl
  iterations := rfl
  elapsed := rfl
  divisor_pos := Nat.mul_pos (by decide) (Clock.elapsed_pos_iff.mpr advances)
  divisor_lt := by
    have le : clock.elapsed k ≤ Clock.limit := Clock.elapsed_le_limit
    simp only [found, Clock.limit] at le ⊢
    omega
  dividend_lt := by
    have le := tried_le_limit k
    simp only [found, Clock.limit] at le ⊢
    omega
  idle := by
    have limit_eq : Clock.limit = 2 ^ 64 - 1 := rfl
    simp only [found, perFrame, framesPerSecond, frameOverhead, Nat.mul_comm _ 1000,
      Nat.mul_comm _ 60, limit_eq]
    omega

end Calibration

open Calibration

section
variable {clock : Clock} {cycles k : Nat}

theorem calibrate_of_never (still : ∀ j, ¬ clock.Advances j) (limit : Nat) :
    calibrate clock cycles limit = none := by
  rw [calibrate, ← tried_zero]
  exact attempts_of_never (k := 0) fun j _ => still j

theorem calibrate_of_first (advances : clock.Advances k) (still : ∀ j < k, ¬ clock.Advances j)
    (limit : Nat) :
    calibrate clock cycles limit = if k < limit then some (found clock cycles k) else none := by
  have first : attempts clock cycles limit (2 * 0) (tried 0) = _ :=
    attempts_of_first (Nat.zero_le k) advances fun j _ lt => still j lt
  rw [calibrate, ← tried_zero]
  rwa [Nat.zero_add] at first

/-- Among the attempts up to one within which the clock advances there is a first one. -/
theorem exists_first (advances : clock.Advances k) :
    ∃ first ≤ k, clock.Advances first ∧ ∀ j < first, ¬ clock.Advances j :=
  ⟨Nat.find ⟨k, advances⟩, Nat.find_min' _ advances, Nat.find_spec ⟨k, advances⟩,
    fun _ lt => Nat.find_min ⟨k, advances⟩ lt⟩

end

/-- A calibration ends if and only if the clock advances within some attempt, and what it finds
is given by the first of these alone, whatever the other readings are and however many more
attempts it might have made. A clock that counts up after given readings ends it with the
first attempt past them. -/
theorem calibrate_finds_first_advance (clock : Clock) (cycles : Nat) :
    ((∃ limit, (calibrate clock cycles limit).isSome) ↔
      ∃ k, clock (2 * k) < clock (2 * k + 1)) ∧
    (∀ k, clock (2 * k) < clock (2 * k + 1) →
      (∀ j < k, ¬ clock (2 * j) < clock (2 * j + 1)) →
      ∃ c, Formula clock cycles k c ∧
        ∀ limit, calibrate clock cycles limit = if k < limit then some c else none) ∧
    ∀ readings : List UInt64, (readings.getLast?.getD 0).toNat ≤ 2 ^ 64 - 3 →
      ∃ c : Calibration, c.readings ≤ 2 * (readings.length / 2 + 1) ∧
        ∀ limit > readings.length / 2,
          calibrate (Clock.ofReadings readings) cycles limit = some c := by
  refine ⟨⟨?ends, ?seen⟩, ?formula, ?counts⟩
  case ends =>
    rintro ⟨limit, ended⟩
    by_contra never
    rw [calibrate_of_never (fun j advances => never ⟨j, advances⟩)] at ended
    exact Bool.noConfusion ended
  case seen =>
    rintro ⟨k, advances⟩
    obtain ⟨first, _, advances, still⟩ := exists_first advances
    refine ⟨first + 1, ?_⟩
    rw [calibrate_of_first advances still, if_pos first.lt_succ_self]
    rfl
  case formula =>
    intro k advances still
    exact ⟨found clock cycles k, formula_found advances, calibrate_of_first advances still⟩
  case counts =>
    intro readings room
    obtain ⟨first, le, advances, still⟩ := exists_first (Clock.advances_ofReadings room)
    refine ⟨found (Clock.ofReadings readings) cycles first, ?_, fun limit enough => ?_⟩
    · exact Nat.mul_le_mul_left 2 (Nat.succ_le_succ le)
    · rw [calibrate_of_first advances still, if_pos (Nat.lt_of_le_of_lt le enough)]

/-- Ten milliseconds are seen in the third attempt; a clock that goes back to where it can count
up only twice is seen in the second. -/
theorem calibrate_finds_first_advance_third_and_second :
    (∃ c : Calibration, calibrate (Clock.ofReadings [5, 5, 5, 5, 5, 15]) 20 3 = some c ∧
      c.readings = 6 ∧ c.idle = 16666546) ∧
    ∃ c : Calibration, c.readings ≤ 4 ∧
      calibrate (Clock.ofReadings [0xFFFFFFFFFFFFFFFF, 0xFFFFFFFFFFFFFFFD]) 20 2 = some c := by
  constructor
  · obtain ⟨c, formula, eq⟩ :=
      (calibrate_finds_first_advance (Clock.ofReadings [5, 5, 5, 5, 5, 15]) 20).2.1 2
        (by decide) (by decide)
    have iterations : c.iterations = 10000000 := formula.iterations.trans (by decide)
    have elapsed : c.elapsed = 10 := formula.elapsed.trans (by decide)
    have idle := formula.idle
    rw [iterations, elapsed] at idle
    exact ⟨c, eq 3, formula.readings, by omega⟩
  · obtain ⟨c, few, eq⟩ := (calibrate_finds_first_advance (fun _ => 0) 20).2.2
      [0xFFFFFFFFFFFFFFFF, 0xFFFFFFFFFFFFFFFD] (by decide)
    exact ⟨c, few, eq 2 (by decide)⟩

end Chip8
