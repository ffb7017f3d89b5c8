import Mathlib.Algebra.BigOperators.Fin
import Mathlib.Data.Fintype.BigOperators
import Chip8.Proofs.SpriteOrder

/-!
# Sprites on the torus

A sprite is drawn bit by bit, and whether it collides is found out on the way. Seen from a
single cell of the screen neither the way nor the order of the bits matters: all that counts
is how many set bits of the sprite fall on the cell, `Sprite.hitsOn`, where the columns wrap
at 64 and the rows at 32.

  * `countP_columns`, `hitsOn_cons` — the bits of one row, and the rows one by one.
  * `hits_pixels` — the spots that a sprite draws hit a cell as often as its bits fall on it.
  * `hitsOn_mod` — a sprite falls on the same cells from anywhere that is the same place on
    the torus.

`draw_on_torus` puts together what drawing a sprite does to every cell.
-/

namespace Chip8

namespace Sprite

/-- How many bits of a sprite at `x` and `y` are set and fall on a cell, out of all pairs of
a row and a column of the sprite. The leftmost column is the highest bit of a row. -/
def hitsOn (x y : Nat) (rows : List UInt8) (cx : Fin 64) (cy : Fin 32) : Nat :=
  (Finset.univ.filter fun bit : Fin rows.length × Fin 8 =>
    (rows.get bit.1).toNat.testBit (7 - bit.2.val) = true ∧
      (x + bit.2.val) % 64 = cx.val ∧ (y + bit.1.val) % 32 = cy.val).card

/-! ## Rows -/

theorem countP_range (n : Nat) (p : Nat → Bool) :
    (List.range n).countP p = ∑ j : Fin n, if p j.val = true then 1 else 0 := by
  induction n with
  | zero => rfl
  | succ n ih =>
    rw [List.range_succ, List.countP_append, ih, Fin.sum_univ_castSucc, List.countP_singleton]
    rfl

theorem countP_columns (bits : UInt8) (p : Nat → Bool) :
    (columns bits).countP p =
      ∑ j : Fin 8, if bits.toNat.testBit (7 - j.val) = true ∧ p j.val = true then 1 else 0 := by
  rw [columns, List.countP_filter, countP_range]
  refine Finset.sum_congr rfl fun j _ => ?_
  simp only [Bool.and_eq_true, and_comm]

section
variable (x y : Nat) (cx : Fin 64) (cy : Fin 32)

theorem hitsOn_cons (bits : UInt8) (rest : List UInt8) :
    hitsOn x y (bits :: rest) cx cy =
      (columns bits).countP (fun j => (x + j) % 64 = cx.val ∧ y % 32 = cy.val) +
        hitsOn x (y + 1) rest cx cy := by
  rw [countP_columns]
  simp only [hitsOn, Finset.card_filter, Fintype.sum_prod_type]
  refine (Fin.sum_univ_succ _).trans ?_
  simp only [List.get_eq_getElem, Fin.val_zero, Fin.val_succ, List.getElem_cons_zero,
    List.getElem_cons_succ, Nat.add_zero, decide_eq_true_eq, Nat.add_assoc, Nat.add_comm 1]
  rfl

theorem hits_pixels (rows : List UInt8) :
    Picture.hits (pixels x y rows) cx.val cy.val = hitsOn x y rows cx cy := by
  induction rows generalizing y with
  | nil => rfl
  | cons bits rest ih =>
    rw [hitsOn_cons, ← ih, pixels, Picture.hits, List.countP_append, List.countP_map]
    congr 1
    refine List.countP_congr fun j _ => ?_
    simp [Nat.mod_eq_of_lt cx.isLt, Nat.mod_eq_of_lt cy.isLt]

theorem hitsOn_mod (rows : List UInt8) :
    hitsOn (x % 64) (y % 32) rows cx cy = hitsOn x y rows cx cy := by
  simp only [hitsOn, Nat.mod_add_mod]

end

end Sprite

namespace Picture

/-! ## Cells -/

theorem ext_cell {p q : Picture}
    (h : ∀ (cx : Fin 64) (cy : Fin 32), p.pixel cx.val cy.val = q.pixel cx.val cy.val) : p = q := by
  apply ext_pixel
  intro x y
  have cell : x % 64 % 64 = x % 64 ∧ y % 32 % 32 = y % 32 := ⟨Nat.mod_mod x 64, Nat.mod_mod y 32⟩
  rw [← p.pixel_congr cell, ← q.pixel_congr cell]
  exact h ⟨x % 64, Nat.mod_lt x (by decide)⟩ ⟨y % 32, Nat.mod_lt y (by decide)⟩

theorem layers_mod (p : Picture) (spots : List (Nat × Nat)) (x y : Nat) :
    p.layers spots (x % 64) (y % 32) = p.layers spots x y := by
  have same : p.pixel (x % 64) (y % 32) = p.pixel x y :=
    p.pixel_congr ⟨Nat.mod_mod x 64, Nat.mod_mod y 32⟩
  simp only [layers, hits, same, Nat.mod_mod]

theorem layers_pixels (p : Picture) (x y : Nat) (rows : List UInt8) (cx : Fin 64) (cy : Fin 32) :
    p.layers (Sprite.pixels x y rows) cx.val cy.val =
      (p.pixel cx.val cy.val).toNat + Sprite.hitsOn x y rows cx cy := by
  rw [layers, Sprite.hits_pixels]

theorem two_le_layer_iff (on : Bool) (hits : Nat) :
    2 ≤ on.toNat + hits ↔ (1 ≤ hits ∧ on = true) ∨ 2 ≤ hits := by
  cases on with
  | false => simp
  | true =>
    simp only [Bool.toNat_true, and_true]
    omega

theorem odd_layer (on : Bool) (hits : Nat) :
    decide ((on.toNat + hits) % 2 = 1) = (on ^^ decide (hits % 2 = 1)) := by
  cases on with
  | false => simp
  | true =>
    rw [Bool.toNat_true, Bool.true_xor, ← decide_not, decide_eq_decide]
    omega

end Picture

namespace Frame

open Picture Sprite

section
variable (f : Frame) (x y : UInt8) (rows : List UInt8)

theorem pixel_draw (cx : Fin 64) (cy : Fin 32) :
    (f.draw x y rows).2.picture.pixel cx.val cy.val =
      (f.picture.pixel cx.val cy.val ^^ decide (hitsOn x.toNat y.toNat rows cx cy % 2 = 1)) := by
  rw [← odd_layer, ← layers_pixels]
  exact pixel_foldl_toggle _ ⟨f.picture, false⟩ cx.val cy.val

theorem collided_draw :
    (f.draw x y rows).1 = true ↔
      ∃ cx cy, (1 ≤ hitsOn x.toNat y.toNat rows cx cy ∧ f.picture.pixel cx.val cy.val = true) ∨
        2 ≤ hitsOn x.toNat y.toNat rows cx cy := by
  simp only [← two_le_layer_iff, ← layers_pixels]
  refine (collided_foldl_toggle (pixels x.toNat y.toNat rows) ⟨f.picture, false⟩).trans ?_
  simp only [Bool.false_eq_true, false_or]
  constructor
  · rintro ⟨cx, cy, two⟩
    -- any pixel is the same as one of the 64 by 32
    refine ⟨⟨cx % 64, Nat.mod_lt _ (by decide)⟩, ⟨cy % 32, Nat.mod_lt _ (by decide)⟩, ?_⟩
    rw [layers_mod]
    exact two
  · rintro ⟨cx, cy, two⟩
    exact ⟨cx.val, cy.val, two⟩

theorem draw_mod : f.draw (x % 64) (y % 32) rows = f.draw x y rows := by
  have hits (cx : Fin 64) (cy : Fin 32) :
      hitsOn (x % 64).toNat (y % 32).toNat rows cx cy = hitsOn x.toNat y.toNat rows cx cy := by
    rw [UInt8.toNat_mod, UInt8.toNat_mod]
    exact hitsOn_mod x.toNat y.toNat cx cy rows
  have collided : (f.draw (x % 64) (y % 32) rows).1 = (f.draw x y rows).1 := by
    rw [Bool.eq_iff_iff, collided_draw, collided_draw]
    simp only [hits]
  have picture : (f.draw (x % 64) (y % 32) rows).2.picture = (f.draw x y rows).2.picture := by
    apply ext_cell
    intro cx cy
    rw [pixel_draw, pixel_draw, hits]
  exact Prod.ext collided (congrArg (Frame.mk · true) picture)

end

/-- **Drawing a sprite, cell by cell.** Let `hits` be how many of its bits are set and fall on
a cell. Each cell is turned over if its hits are odd in number, and stays as it is otherwise.
The sprite collides exactly if it hits a cell that was on, or hits some cell twice. A change
is pending then, and nothing depends on where the sprite is but its place on the torus. -/
theorem draw_on_torus (f : Frame) (x y : UInt8) (rows : List UInt8) :
    let drawn := f.draw x y rows
    let hits := hitsOn x.toNat y.toNat rows
    (∀ cx cy, drawn.2.picture.pixel cx.val cy.val =
      (f.picture.pixel cx.val cy.val ^^ decide (hits cx cy % 2 = 1))) ∧
    (drawn.1 = true ↔
      ∃ cx cy, (1 ≤ hits cx cy ∧ f.picture.pixel cx.val cy.val = true) ∨ 2 ≤ hits cx cy) ∧
    drawn.2.pending = true ∧
    f.draw (x % 64) (y % 32) rows = drawn :=
  ⟨f.pixel_draw x y rows, f.collided_draw x y rows, rfl, f.draw_mod x y rows⟩

/-- A sprite longer than the screen, from the last cell on: two of its bits fall on the first. -/
example : hitsOn 63 31 (List.replicate 40 0xC0) 0 0 = 2 := by decide +kernel

end Frame

end Chip8
