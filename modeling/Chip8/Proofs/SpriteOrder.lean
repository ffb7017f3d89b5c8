import Chip8.Frame

/-!
# Sprites in any order

A sprite turns over the pixels under its set bits, so what a list of sprites leaves of a
pixel depends only on how often the pixel is hit. Which sprite reports a collision does
depend on the order, but whether any of them does is again a matter of counting.

Think of a pixel that is on as covered by one layer, and of each hit as one layer more.

  * `layers_cons` — a hit on a pixel that is on takes two layers off, any other leaves
    their number as it is.
  * `pixel_foldl_toggle` — at the end a pixel is on if its layers are odd in number.
  * `collided_foldl_toggle` — some pixel went off if some pixel has two layers or more.
  * `drawing_order` — hence the picture and the collisions of all sprites taken together
    are the same in every order, and a sprite drawn twice leaves no trace.
-/

namespace Chip8

namespace Picture

/-! ## Pixels -/

theorem pixel_congr (p : Picture) {x y x' y' : Nat}
    (same : x % 64 = x' % 64 ∧ y % 32 = y' % 32) : p.pixel x y = p.pixel x' y' :=
  congrArg (fun n : Fin 2048 => p.pixels[n]) (place_eq_iff.mpr same)

theorem ext_pixel {p q : Picture} (h : ∀ x y, p.pixel x y = q.pixel x y) : p = q := by
  obtain ⟨ps⟩ := p
  obtain ⟨qs⟩ := q
  congr 1
  apply Vector.ext
  intro i hi
  have found : (place (i % 64) (i / 64)).val = i := by
    rw [place, Fin.val_ofNat]
    omega
  have := h (i % 64) (i / 64)
  simpa only [pixel, Fin.getElem_fin, found] using this

/-- How many of some spots fall on a pixel; both axes wrap. -/
def hits (spots : List (Nat × Nat)) (x y : Nat) : Nat :=
  spots.countP fun spot => spot.1 % 64 = x % 64 ∧ spot.2 % 32 = y % 32

/-- The layers on a pixel: one if it is on, and one for each spot that falls on it. -/
def layers (p : Picture) (spots : List (Nat × Nat)) (x y : Nat) : Nat :=
  (p.pixel x y).toNat + hits spots x y

theorem layers_cons (p : Picture) (spot : Nat × Nat) (spots : List (Nat × Nat)) (x y : Nat) :
    p.layers (spot :: spots) x y =
      (p.toggle spot.1 spot.2).layers spots x y +
        if (spot.1 % 64 = x % 64 ∧ spot.2 % 32 = y % 32) ∧ p.pixel x y = true then 2 else 0 := by
  unfold layers hits
  rw [List.countP_cons, pixel_toggle]
  by_cases hit : spot.1 % 64 = x % 64 ∧ spot.2 % 32 = y % 32
  · cases on : p.pixel x y with
    | true =>
      simp only [hit, and_self, decide_true, if_true, Bool.toNat_true, Bool.not_true,
        Bool.toNat_false]
      omega
    | false =>
      simp only [hit, and_self, decide_true, if_true, Bool.toNat_false, Bool.not_false,
        Bool.toNat_true, Bool.false_eq_true, and_false, if_false]
      omega
  · simp only [hit, decide_false, if_false, Bool.false_eq_true, false_and, Nat.add_zero]

/-! ## Strokes -/

theorem pixel_foldl_toggle (spots : List (Nat × Nat)) (s : Stroke) (x y : Nat) :
    (spots.foldl Stroke.toggle s).picture.pixel x y =
      decide (s.picture.layers spots x y % 2 = 1) := by
  induction spots generalizing s with
  | nil =>
    show s.picture.pixel x y = decide (((s.picture.pixel x y).toNat + 0) % 2 = 1)
    cases s.picture.pixel x y with
    | true => rfl
    | false => rfl
  | cons spot spots ih =>
    rw [List.foldl_cons, ih, layers_cons]
    show decide ((s.picture.toggle spot.1 spot.2).layers spots x y % 2 = 1) = _
    -- two layers more or less do not change what is odd
    split
    · rw [Nat.add_mod_right]
    · rw [Nat.add_zero]

theorem collided_foldl_toggle (spots : List (Nat × Nat)) (s : Stroke) :
    (spots.foldl Stroke.toggle s).collided = true ↔
      s.collided = true ∨ ∃ x y, 2 ≤ s.picture.layers spots x y := by
  induction spots generalizing s with
  | nil =>
    show s.collided = true ↔ _
    constructor
    · exact Or.inl
    · rintro (collided | ⟨x, y, two⟩)
      · exact collided
      · have one : (s.picture.pixel x y).toNat ≤ 1 := Bool.toNat_le _
        have none : s.picture.layers [] x y = (s.picture.pixel x y).toNat := rfl
        omega
  | cons spot spots ih =>
    have toggled : (s.toggle spot).collided = true ↔
        s.collided = true ∨ s.picture.pixel spot.1 spot.2 = true := Bool.or_eq_true_iff
    rw [List.foldl_cons, ih, toggled, or_assoc]
    apply or_congr_right
    -- the pixel under the first spot goes off at once, or it has its layers still to come
    constructor
    · rintro (on | ⟨x, y, two⟩)
      · refine ⟨spot.1, spot.2, ?_⟩
        rw [layers_cons, if_pos ⟨⟨rfl, rfl⟩, on⟩]
        exact Nat.le_add_left 2 _
      · refine ⟨x, y, ?_⟩
        rw [layers_cons]
        exact Nat.le_trans two (Nat.le_add_right _ _)
    · rintro ⟨x, y, two⟩
      rw [layers_cons] at two
      split at two
      · next struck =>
        left
        rw [s.picture.pixel_congr struck.1]
        exact struck.2
      · exact Or.inr ⟨x, y, two⟩

/-- What went off before a stroke shows in its end and nowhere else. -/
theorem foldl_toggle_collided (spots : List (Nat × Nat)) (p : Picture) (earlier : Bool) :
    spots.foldl Stroke.toggle ⟨p, earlier⟩ =
      let stroke := spots.foldl Stroke.toggle ⟨p, false⟩
      ⟨stroke.picture, earlier || stroke.collided⟩ := by
  induction spots generalizing p earlier with
  | nil => simp only [List.foldl_nil, Bool.or_false]
  | cons spot spots ih =>
    simp only [List.foldl_cons, Stroke.toggle]
    rw [ih, ih (p.toggle spot.1 spot.2) (false || p.pixel spot.1 spot.2)]
    simp only [Bool.false_or, Bool.or_assoc]

end Picture

/-! ## Sprites -/

namespace Sprite

/-- A sprite and where its top left corner goes. -/
structure Placed where
  x : UInt8
  y : UInt8
  rows : List UInt8
  deriving DecidableEq, Repr

/-- The spots under the set bits of a sprite. -/
def Placed.spots (s : Placed) : List (Nat × Nat) := pixels s.x.toNat s.y.toNat s.rows

theorem columns_ne_nil {bits : UInt8} (h : bits ≠ 0) : columns bits ≠ [] := by
  have some_bit : bits.toNat ≠ 0 := fun zero => h (UInt8.toNat_inj.mp zero)
  obtain ⟨i, set⟩ := Nat.exists_testBit_of_ne_zero some_bit
  have low : i < 8 := by
    refine Nat.lt_of_not_le fun high => ?_
    have unset : bits.toNat.testBit i = false :=
      Nat.testBit_lt_two_pow
        (Nat.lt_of_lt_of_le bits.toNat_lt (Nat.pow_le_pow_right (by decide) high))
    rw [unset] at set
    cases set
  have place : 7 - (7 - i) = i := by omega
  apply List.ne_nil_of_mem (a := 7 - i)
  rw [columns, List.mem_filter, List.mem_range, place]
  exact ⟨by omega, set⟩

theorem pixels_ne_nil {rows : List UInt8} (h : ∃ bits ∈ rows, bits ≠ 0) (x y : Nat) :
    pixels x y rows ≠ [] := by
  induction rows generalizing y with
  | nil =>
    obtain ⟨bits, mem, -⟩ := h
    cases mem
  | cons first rest ih =>
    rw [pixels, ne_eq, List.append_eq_nil_iff, List.map_eq_nil_iff]
    rintro ⟨blank, others⟩
    obtain ⟨bits, mem, set⟩ := h
    rcases List.mem_cons.mp mem with rfl | mem
    · exact columns_ne_nil set blank
    · exact ih ⟨bits, mem, set⟩ (y + 1) others

end Sprite

namespace Frame

open Picture Sprite

/-- The frame with some sprites drawn on it, one after the other, and whether each of them
collided. -/
def drawAll : List Placed → Frame → List Bool × Frame
  | [], f => ([], f)
  | s :: rest, f =>
    let (collided, drawn) := f.draw s.x s.y s.rows
    let (others, last) := drawAll rest drawn
    (collided :: others, last)

/-- Drawing some sprites is one stroke over all their spots. -/
theorem drawAll_eq_stroke (sprites : List Placed) (f : Frame) :
    let stroke := (sprites.flatMap Placed.spots).foldl Stroke.toggle ⟨f.picture, false⟩
    (drawAll sprites f).2.picture = stroke.picture ∧
      (drawAll sprites f).1.any id = stroke.collided := by
  induction sprites generalizing f with
  | nil => exact ⟨rfl, rfl⟩
  | cons s rest ih =>
    intro stroke
    -- the other sprites start from the picture of the first, but with a flag of their own
    let first := s.spots.foldl Stroke.toggle ⟨f.picture, false⟩
    let later := (rest.flatMap Placed.spots).foldl Stroke.toggle ⟨first.picture, false⟩
    have split : stroke = ⟨later.picture, first.collided || later.collided⟩ := by
      show (s.spots ++ rest.flatMap Placed.spots).foldl Stroke.toggle _ = _
      rw [List.foldl_append]
      exact foldl_toggle_collided _ first.picture first.collided
    obtain ⟨picture, collided⟩ := ih (f.draw s.x s.y s.rows).2
    rw [split]
    refine ⟨picture, ?_⟩
    show (first.collided || (drawAll rest (f.draw s.x s.y s.rows).2).1.any id) = _
    rw [collided]
    rfl

theorem pixel_drawAll (sprites : List Placed) (f : Frame) (x y : Nat) :
    (drawAll sprites f).2.picture.pixel x y =
      decide (f.picture.layers (sprites.flatMap Placed.spots) x y % 2 = 1) := by
  rw [(drawAll_eq_stroke sprites f).1]
  exact pixel_foldl_toggle _ _ x y

theorem any_drawAll (sprites : List Placed) (f : Frame) :
    (drawAll sprites f).1.any id = true ↔
      ∃ x y, 2 ≤ f.picture.layers (sprites.flatMap Placed.spots) x y := by
  rw [(drawAll_eq_stroke sprites f).2, collided_foldl_toggle]
  simp only [Bool.false_eq_true, false_or]

theorem pending_drawAll (sprites : List Placed) (f : Frame) :
    (drawAll sprites f).2.pending = (f.pending || !sprites.isEmpty) := by
  induction sprites generalizing f with
  | nil => exact (Bool.or_false _).symm
  | cons s rest ih =>
    show (drawAll rest (f.draw s.x s.y s.rows).2).2.pending = (f.pending || true)
    rw [ih, Bool.or_true]
    rfl

theorem layers_flatMap_perm {sprites sprites' : List Placed} (order : sprites.Perm sprites')
    (p : Picture) (x y : Nat) :
    p.layers (sprites.flatMap Placed.spots) x y =
      p.layers (sprites'.flatMap Placed.spots) x y := by
  rw [layers, layers, hits, hits, (order.flatMap_right Placed.spots).countP_eq]

theorem layers_twice (p : Picture) (s : Placed) (x y : Nat) :
    p.layers ([s, s].flatMap Placed.spots) x y =
      (p.pixel x y).toNat + 2 * hits s.spots x y := by
  have twice : [s, s].flatMap Placed.spots = s.spots ++ s.spots := by simp
  rw [layers, twice, hits, hits, List.countP_append]
  omega

/-- Drawing a sprite twice at the same place restores every pixel. -/
theorem picture_drawAll_twice (s : Placed) (f : Frame) :
    (drawAll [s, s] f).2.picture = f.picture := by
  apply ext_pixel
  intro x y
  rw [pixel_drawAll, layers_twice, Nat.add_mul_mod_self_left]
  cases f.picture.pixel x y with
  | true => rfl
  | false => rfl

/-- A set bit that is drawn twice turns a pixel off, the first time or the second. -/
theorem any_drawAll_twice {s : Placed} (h : ∃ bits ∈ s.rows, bits ≠ 0) (f : Frame) :
    (drawAll [s, s] f).1.any id = true := by
  obtain ⟨spot, mem⟩ := List.exists_mem_of_ne_nil _ (pixels_ne_nil h s.x.toNat s.y.toNat)
  have hit : 0 < hits s.spots spot.1 spot.2 :=
    List.countP_pos_iff.mpr ⟨spot, mem, by simp⟩
  rw [any_drawAll]
  refine ⟨spot.1, spot.2, ?_⟩
  rw [layers_twice]
  omega

/-- **Sprites may be drawn in any order.** Any two orders leave the same frame, and some
sprite collides in the one exactly if some sprite does in the other. A sprite drawn twice at
the same place restores the picture, and collides at least once if it has a set bit. -/
theorem drawing_order (f : Frame) {sprites sprites' : List Placed}
    (order : sprites.Perm sprites') :
    (drawAll sprites f).2 = (drawAll sprites' f).2 ∧
      (drawAll sprites f).1.any id = (drawAll sprites' f).1.any id ∧
      ∀ s : Placed,
        let first := f.draw s.x s.y s.rows
        let second := first.2.draw s.x s.y s.rows
        second.2.picture = f.picture ∧
          ((∃ bits ∈ s.rows, bits ≠ 0) → first.1 = true ∨ second.1 = true) := by
  have picture : (drawAll sprites f).2.picture = (drawAll sprites' f).2.picture := by
    apply ext_pixel
    intro x y
    rw [pixel_drawAll, pixel_drawAll, layers_flatMap_perm order]
  have pending : (drawAll sprites f).2.pending = (drawAll sprites' f).2.pending := by
    rw [pending_drawAll, pending_drawAll, order.isEmpty_eq]
  refine ⟨?_, ?_, fun s => ?_⟩
  · show Frame.mk _ _ = Frame.mk _ _
    rw [picture, pending]
  · rw [Bool.eq_iff_iff, any_drawAll, any_drawAll]
    simp only [layers_flatMap_perm order]
  · intro first second
    refine ⟨picture_drawAll_twice s f, fun set => ?_⟩
    have collides : (first.1 || (second.1 || false)) = true := any_drawAll_twice set f
    rwa [Bool.or_false, Bool.or_eq_true_iff] at collides

/-- A sprite of forty rows, which overlaps itself, and one that lies across both edges. In the last
row the second lights a pixel on its own at column 60 and turns off at column 63 one that the first
has lit, which collides. -/
theorem drawing_order_of_overlapping :
    let column : Placed := ⟨63, 20, List.replicate 40 0xC0⟩
    let corner : Placed := ⟨60, 31, [0xFF, 0x0C]⟩
    let first := ({} : Frame).draw corner.x corner.y corner.rows
    let second := first.2.draw corner.x corner.y corner.rows
    [column, corner].Perm [corner, column] ∧
      (drawAll [column, corner] {}).2 = (drawAll [corner, column] {}).2 ∧
      (drawAll [corner, column] {}).2.picture.pixel 60 31 = true ∧
      (drawAll [corner, column] {}).2.picture.pixel 63 31 = false ∧
      (drawAll [corner, column] {}).1.any id = true ∧
      (∃ bits ∈ corner.rows, bits ≠ 0) ∧ (first.1 = true ∨ second.1 = true) := by
  intro column corner first second
  have order : [column, corner].Perm [corner, column] := List.Perm.swap corner column []
  have set : ∃ bits ∈ corner.rows, bits ≠ 0 := ⟨0xFF, by decide, by decide⟩
  obtain ⟨frames, collisions, twice⟩ := drawing_order {} order
  have lit : (drawAll [column, corner] {}).2.picture.pixel 60 31 = true := by
    rw [pixel_drawAll]
    decide +kernel
  have off : (drawAll [column, corner] {}).2.picture.pixel 63 31 = false := by
    rw [pixel_drawAll]
    decide +kernel
  have collides : (drawAll [column, corner] {}).1.any id = true :=
    (any_drawAll _ _).mpr ⟨63, 31, by decide +kernel⟩
  rw [frames] at lit off
  exact ⟨order, frames, lit, off, collisions.symm.trans collides, set, (twice corner).2 set⟩

end Frame

end Chip8
