import Mathlib.Data.List.Nodup
import Chip8.Terminal.Painter

/-!
# A picture as points

A picture is painted as two lists of points, one of the pixels that are off and one of those that
are on. Both are what is left of one and the same list, that of all spots row by row, when the
other half is taken out.

  * `spots` — the spots of a grid, row by row; `pairwise_spots` is their order.
  * `points_eq` — the points of a picture are its spots in that order, without those in the other
    state. The lemmas after it say what follows: no spot is lost or doubled, and the order stays.
  * `dot?_ofSpot` — the canvas paints the point of a spot at the spot itself.
-/

namespace Chip8.Terminal

/-- The spots of a grid, row by row. -/
def spots (columns rows : Nat) : List (Nat × Nat) :=
  (List.range rows).flatMap fun y => (List.range columns).map fun x => (x, y)

/-- A spot of the screen. -/
def OnScreen (s : Nat × Nat) : Prop := s.1 < Picture.width ∧ s.2 < Picture.height

/-- One spot comes before another if its row does, or in the same row if its column does. -/
def SpotBefore (s s' : Nat × Nat) : Prop := s.2 < s'.2 ∨ s.2 = s'.2 ∧ s.1 < s'.1

/-- The point at which the pixel of a spot is painted. -/
def Point.ofSpot (s : Nat × Nat) : Point := { x := s.1, y := -(s.2 : Int) }

/-- The same for points, on which rows are counted downwards. -/
def Point.Before (p q : Point) : Prop := q.y < p.y ∨ p.y = q.y ∧ p.x < q.x

section
variable {columns rows : Nat}

theorem mem_spots {s : Nat × Nat} : s ∈ spots columns rows ↔ s.1 < columns ∧ s.2 < rows := by
  obtain ⟨x, y⟩ := s
  simp only [spots, List.mem_flatMap, List.mem_map, List.mem_range, Prod.mk.injEq]
  constructor
  · rintro ⟨y, below, x, left, rfl, rfl⟩
    exact ⟨left, below⟩
  · rintro ⟨left, below⟩
    exact ⟨y, below, x, left, rfl, rfl⟩

theorem length_spots (columns rows : Nat) : (spots columns rows).length = rows * columns := by
  simp only [spots, List.length_flatMap, List.length_map, List.length_range, List.map_const']
  rw [List.sum_replicate_nat]

theorem pairwise_spots (columns rows : Nat) : (spots columns rows).Pairwise SpotBefore := by
  rw [spots, List.pairwise_flatMap]
  constructor
  · intro y _
    exact List.pairwise_lt_range.map _ fun x x' lt => .inr ⟨rfl, lt⟩
  · refine List.pairwise_lt_range.imp fun {y y'} lt => ?_
    intro s first s' second
    obtain ⟨x, -, rfl⟩ := List.mem_map.mp first
    obtain ⟨x', -, rfl⟩ := List.mem_map.mp second
    exact .inl lt

theorem SpotBefore.ne {s s' : Nat × Nat} (before : SpotBefore s s') : s ≠ s' := by
  rintro rfl
  rcases before with lt | ⟨-, lt⟩
  · exact Nat.lt_irrefl _ lt
  · exact Nat.lt_irrefl _ lt

theorem nodup_spots (columns rows : Nat) : (spots columns rows).Nodup :=
  (pairwise_spots columns rows).imp SpotBefore.ne

end

theorem Point.ofSpot_injective : Function.Injective Point.ofSpot := by
  intro s s' same
  obtain ⟨columns, rows⟩ := Point.mk.inj same
  exact Prod.ext (by omega) (by omega)

theorem Point.before_ofSpot {s s' : Nat × Nat} (before : SpotBefore s s') :
    (Point.ofSpot s).Before (Point.ofSpot s') := by
  simp only [SpotBefore] at before
  simp only [Point.Before, Point.ofSpot]
  omega

end Chip8.Terminal

namespace Chip8.Picture

open Terminal

variable (p : Picture) (lit : Bool)

/-! ## The points of a picture -/

theorem zipIdx_map_range {α : Type} (n : Nat) (f : Nat → α) :
    ((List.range n).map f).zipIdx = (List.range n).map fun i => (f i, i) := by
  apply List.ext_getElem
  · simp
  · intro i _ _
    simp

/-- The points of a picture are those of its spots that are in the given state. -/
theorem points_eq :
    p.points lit =
      ((spots width height).filter fun s => p.pixel s.1 s.2 == lit).map Point.ofSpot := by
  simp only [points, rows, row, zipIdx_map_range, List.flatMap_map, spots, List.filter_flatMap,
    List.map_flatMap, List.filter_map, List.map_map]
  rfl

theorem mem_points {s : Nat × Nat} :
    Point.ofSpot s ∈ p.points lit ↔ OnScreen s ∧ p.pixel s.1 s.2 = lit := by
  rw [points_eq, List.mem_map_of_injective Point.ofSpot_injective, List.mem_filter, mem_spots,
    beq_iff_eq, OnScreen]

theorem exists_spot_of_mem_points {point : Point} (mem : point ∈ p.points lit) :
    ∃ s, OnScreen s ∧ Point.ofSpot s = point := by
  rw [points_eq, List.mem_map] at mem
  obtain ⟨s, kept, rfl⟩ := mem
  exact ⟨s, mem_spots.mp (List.mem_of_mem_filter kept), rfl⟩

theorem pairwise_points : (p.points lit).Pairwise Point.Before := by
  rw [points_eq]
  exact ((pairwise_spots width height).filter _).map _ fun _ _ => Point.before_ofSpot

theorem nodup_points : (p.points lit).Nodup := by
  rw [points_eq]
  exact ((nodup_spots width height).filter _).map Point.ofSpot_injective

/-- Together the two lists hold the points of all spots. -/
theorem points_perm :
    (p.points true ++ p.points false).Perm ((spots width height).map Point.ofSpot) := by
  rw [points_eq, points_eq, ← List.map_append]
  refine List.Perm.map _ ?_
  have states : (fun s : Nat × Nat => p.pixel s.1 s.2 == false) =
      fun s => !(p.pixel s.1 s.2 == true) := by
    funext s
    cases p.pixel s.1 s.2 <;> rfl
  rw [states]
  exact List.filter_append_perm _ _

theorem count_points {s : Nat × Nat} (inside : OnScreen s) :
    (p.points true ++ p.points false).count (Point.ofSpot s) = 1 := by
  rw [(p.points_perm).count_eq]
  apply List.count_eq_one_of_mem
  · exact (nodup_spots width height).map Point.ofSpot_injective
  · exact List.mem_map_of_mem (mem_spots.mpr inside)

theorem length_points : (p.points true).length + (p.points false).length = 2048 := by
  rw [← List.length_append, (p.points_perm).length_eq, List.length_map, length_spots]
  rfl

end Chip8.Picture

namespace Chip8.Terminal

/-! ## Points on the canvas -/

/-- A point within the bounds of a resolution. -/
structure Resolution.Within (r : Resolution) (point : Point) : Prop where
  right : r.xBounds.1 ≤ point.x
  left : point.x ≤ r.xBounds.2
  above : r.yBounds.1 ≤ point.y
  below : point.y ≤ r.yBounds.2

theorem xBounds_screen : Resolution.screen.xBounds = (0, 63) := by decide

theorem yBounds_screen : Resolution.screen.yBounds = (-31, 0) := by decide

theorem within_ofSpot {s : Nat × Nat} (inside : OnScreen s) :
    Resolution.screen.Within (Point.ofSpot s) := by
  simp only [OnScreen, Picture.width, Picture.height] at inside
  constructor
  all_goals
    simp only [xBounds_screen, yBounds_screen, Point.ofSpot]
    omega

/-- A scale with one dot more than its bounds are apart has a dot for each whole coordinate. -/
theorem scale_of_le {n c : Nat} (pos : 0 < n) (le : c ≤ n) :
    Resolution.scale 0 n (n + 1) c = some c := by
  have inside : ¬ ((c : Int) < 0 ∨ (n : Int) < c ∨ (n : Int) = 0) := by omega
  have apart : (n : Int) ≠ 0 := by omega
  rw [Resolution.scale, if_neg inside]
  push_cast
  rw [Int.sub_zero, Int.sub_zero, Int.add_sub_cancel, Int.mul_ediv_cancel _ apart,
    Int.toNat_natCast]

/-- The canvas is as wide and as high as the picture, so that each spot has a dot of its own. -/
theorem dot?_ofSpot {s : Nat × Nat} (inside : OnScreen s) :
    Resolution.screen.dot? (Point.ofSpot s) = some s := by
  obtain ⟨left, below⟩ := inside
  have columns : Resolution.screen.columns.toNat = 64 := by decide
  have rows : Resolution.screen.rows.toNat = 32 := by decide
  have column : Resolution.scale 0 63 64 (s.1 : Int) = some s.1 :=
    scale_of_le (n := 63) (by decide) (Nat.le_of_lt_succ left)
  have row : Resolution.scale 0 31 32 (s.2 : Int) = some s.2 :=
    scale_of_le (n := 31) (by decide) (Nat.le_of_lt_succ below)
  simp only [Resolution.dot?, xBounds_screen, yBounds_screen, Point.ofSpot, Int.neg_neg,
    Int.neg_zero, columns, rows, column, row]

end Chip8.Terminal
