import Chip8.Proofs.MemoryCells
import Chip8.Proofs.SpriteTorus
import Chip8.Proofs.Step

/-!
# Drawing from memory

The instruction that draws takes its place on the screen from two registers, and its sprite
from the cells at I. The flag may be one of the two registers: the place is read before the
flag is written, so that the sprite goes where the registers say.

A sprite of an instruction has no more than fifteen rows, and so never falls on a cell twice
(`hitsOn_le_one`). What a longer sprite would do by counting is then a matter of what the
sprite covers:

  * `pixel_draw_ne_iff` — the cells that change are those that are covered.
  * `collided_draw_iff` — the sprite collides if some pixel goes off.
  * `picture_draw_again`, `collided_draw_again` — drawn again at the same place, it takes
    itself off, and collides if some pixel that it covers was off at first.

`sprite_from_memory` says it for a cycle that executes the instruction.
-/

namespace Chip8

namespace Sprite

/-- Some set bit of a sprite at `x` and `y` falls on a cell. -/
def Covers (x y : Nat) (rows : List UInt8) (cx : Fin 64) (cy : Fin 32) : Prop :=
  ∃ (row : Fin rows.length) (column : Fin 8),
    (rows.get row).toNat.testBit (7 - column.val) = true ∧
      (x + column.val) % 64 = cx.val ∧ (y + row.val) % 32 = cy.val

section
variable {x y : Nat} {rows : List UInt8} {cx : Fin 64} {cy : Fin 32}

theorem hitsOn_pos_iff : 0 < hitsOn x y rows cx cy ↔ Covers x y rows cx cy := by
  rw [hitsOn, Finset.card_pos]
  constructor
  · rintro ⟨⟨row, column⟩, mem⟩
    exact ⟨row, column, (Finset.mem_filter.mp mem).2⟩
  · rintro ⟨row, column, falls⟩
    exact ⟨(row, column), Finset.mem_filter.mpr ⟨Finset.mem_univ _, falls⟩⟩

/-- Eight columns and no more rows than the screen has: each bit has a cell of its own. -/
theorem hitsOn_le_one (few : rows.length ≤ 32) : hitsOn x y rows cx cy ≤ 1 := by
  rw [hitsOn, Finset.card_le_one]
  rintro ⟨row, column⟩ mem ⟨row', column'⟩ mem'
  obtain ⟨-, across, down⟩ := (Finset.mem_filter.mp mem).2
  obtain ⟨-, across', down'⟩ := (Finset.mem_filter.mp mem').2
  dsimp only at across down across' down'
  have same_column : column = column' := Fin.ext (by omega)
  have same_row : row = row' := Fin.ext (by omega)
  rw [same_column, same_row]

theorem hitsOn_odd_iff (few : rows.length ≤ 32) :
    hitsOn x y rows cx cy % 2 = 1 ↔ Covers x y rows cx cy := by
  have one : hitsOn x y rows cx cy ≤ 1 := hitsOn_le_one few
  rw [← hitsOn_pos_iff]
  omega

end

end Sprite

theorem Picture.pixel_blank (x y : Nat) : blank.pixel x y = false :=
  Vector.getElem_replicate _

namespace Frame

open Sprite

variable {f f' : Frame} {x y : UInt8} {rows : List UInt8}

/-- A sprite that is drawn again, at the same place and on the picture that it left. -/
theorem picture_draw_again (left : f'.picture = (f.draw x y rows).2.picture) :
    (f'.draw x y rows).2.picture = f.picture := by
  apply Picture.ext_cell
  intro cx cy
  rw [pixel_draw, left, pixel_draw, Bool.xor_assoc, Bool.xor_self, Bool.xor_false]

section
variable (few : rows.length ≤ 32)
include few

theorem pixel_draw_ne_iff (cx : Fin 64) (cy : Fin 32) :
    (f.draw x y rows).2.picture.pixel cx.val cy.val ≠ f.picture.pixel cx.val cy.val ↔
      Covers x.toNat y.toNat rows cx cy := by
  rw [pixel_draw, ← hitsOn_odd_iff few]
  cases f.picture.pixel cx.val cy.val with
  | false => simp
  | true => simp

theorem collided_draw_iff_covers :
    (f.draw x y rows).1 = true ↔
      ∃ cx cy, Covers x.toNat y.toNat rows cx cy ∧ f.picture.pixel cx.val cy.val = true := by
  have never (cx cy) : ¬ 2 ≤ hitsOn x.toNat y.toNat rows cx cy :=
    Nat.not_le.mpr (Nat.lt_succ_of_le (hitsOn_le_one few))
  simp only [collided_draw, never, or_false, ← hitsOn_pos_iff]
  rfl

theorem collided_draw_iff :
    (f.draw x y rows).1 = true ↔
      ∃ (cx : Fin 64) (cy : Fin 32), f.picture.pixel cx.val cy.val = true ∧
        (f.draw x y rows).2.picture.pixel cx.val cy.val = false := by
  rw [collided_draw_iff_covers few]
  refine exists_congr fun cx => exists_congr fun cy => ?_
  rw [← pixel_draw_ne_iff (f := f) few, and_comm]
  refine and_congr_right fun on => ?_
  rw [on]
  exact Iff.of_eq (Bool.not_eq_true _)

theorem collided_draw_again (left : f'.picture = (f.draw x y rows).2.picture) :
    (f'.draw x y rows).1 = true ↔
      ∃ cx cy, Covers x.toNat y.toNat rows cx cy ∧ f.picture.pixel cx.val cy.val = false := by
  rw [collided_draw_iff_covers few]
  refine exists_congr fun cx => exists_congr fun cy => and_congr_right fun covers => ?_
  -- a covered pixel is on now if it was off before
  rw [left]
  have turned := (pixel_draw_ne_iff (f := f) few cx cy).mpr covers
  cases before : f.picture.pixel cx.val cy.val with
  | false =>
    rw [before] at turned
    simpa using turned
  | true =>
    rw [before] at turned
    simpa using turned

end

end Frame

namespace Machine

open Memory (behind)

/-- The sprite at I, row by row. -/
def spriteAt (m : Machine) (rows : Digit) : List UInt8 :=
  (List.range rows.val).map fun r => m.memory.cells.get (behind m.index r)

/-- What drawing the sprite at I, at the place that VX and VY tell, gives: whether it collides
and the frame with it. -/
def drawing (m : Machine) (x y : Register) (rows : Digit) : Bool × Frame :=
  m.frame.draw (m.register x) (m.register y) (m.spriteAt rows)

theorem length_spriteAt_le (m : Machine) (rows : Digit) : (m.spriteAt rows).length ≤ 32 := by
  have low := rows.isLt
  rw [spriteAt, List.length_map, List.length_range]
  omega

theorem drawSprite_eq (m : Machine) (x y : Register) (rows : Digit) :
    m.drawSprite x y rows =
      { m with frame := (m.drawing x y rows).2 }.setRegister .flag
        (if (m.drawing x y rows).1 = true then 1 else 0) := by
  rw [drawSprite, drawing, spriteAt, Memory.read_eq_map]

/-- From `m` to `m'` the sprite at I is drawn, and nothing else is done. -/
structure SpriteDrawn (x y : Register) (rows : Digit) (m m' : Machine) : Prop where
  frame : m'.frame = (m.drawing x y rows).2
  flag : m'.register .flag = if (m.drawing x y rows).1 = true then 1 else 0
  others : ∀ r ≠ .flag, m'.register r = m.register r
  memory : m'.memory = m.memory
  index : m'.index = m.index
  delayTimer : m'.delayTimer = m.delayTimer
  soundTimer : m'.soundTimer = m.soundTimer
  stack : m'.stack = m.stack
  keypad : m'.keypad = m.keypad

section
variable {x y : Register} {rows : Digit} {m m' n n' : Machine}

theorem spriteDrawn (x y : Register) (rows : Digit) (m : Machine) :
    SpriteDrawn x y rows m (m.drawSprite x y rows) := by
  rw [drawSprite_eq]
  refine ⟨rfl, ?_, fun r other => ?_, rfl, rfl, rfl, rfl, rfl, rfl⟩
  · rw [register_setRegister, if_pos rfl]
  · rw [register_setRegister, if_neg other]
    rfl

theorem SpriteDrawn.flag_eq_one_iff (drawn : SpriteDrawn x y rows m m') :
    m'.register .flag = 1 ↔ (m.drawing x y rows).1 = true := by
  rw [drawn.flag]
  split
  · next collided => exact iff_of_true rfl collided
  · next missed => exact iff_of_false (by decide) missed

/-- The flag tells whether some pixel went off. -/
theorem SpriteDrawn.flag_eq_one_iff_off (drawn : SpriteDrawn x y rows m m') :
    m'.register .flag = 1 ↔ ∃ (cx : Fin 64) (cy : Fin 32),
      m.frame.picture.pixel cx.val cy.val = true ∧
        m'.frame.picture.pixel cx.val cy.val = false := by
  rw [drawn.flag_eq_one_iff, drawn.frame]
  exact Frame.collided_draw_iff (m.length_spriteAt_le rows)

/-- Where a drawing finds the same sprite and the same place, it differs by the frame alone. -/
theorem drawing_congr (memory : n.memory = m.memory) (index : n.index = m.index)
    (across : n.register x = m.register x) (down : n.register y = m.register y) :
    n.drawing x y rows = n.frame.draw (m.register x) (m.register y) (m.spriteAt rows) := by
  rw [drawing, spriteAt, memory, index, across, down]
  rfl

/-- The same sprite drawn again at the same place. -/
theorem SpriteDrawn.again (first : SpriteDrawn x y rows m m') (second : SpriteDrawn x y rows n n')
    (picture : n.frame.picture = m'.frame.picture) (memory : n.memory = m.memory)
    (index : n.index = m.index) (across : n.register x = m.register x)
    (down : n.register y = m.register y) :
    n'.frame.picture = m.frame.picture ∧
      (n'.register .flag = 1 ↔ ∃ cx cy,
        Sprite.Covers (m.register x).toNat (m.register y).toNat (m.spriteAt rows) cx cy ∧
          m.frame.picture.pixel cx.val cy.val = false) := by
  rw [first.frame] at picture
  rw [second.flag_eq_one_iff, second.frame, drawing_congr memory index across down]
  exact ⟨Frame.picture_draw_again picture,
    Frame.collided_draw_again (m.length_spriteAt_le rows) picture⟩

end

end Machine

namespace Console

theorem spriteDrawn_cycle (dialect : Dialect) {c : Console} {x y : Register} {rows : Digit}
    (executes : c.instruction? = some (.draw x y rows)) :
    (c.cycle dialect).1 = .ok .proceed ∧
      c.machine.SpriteDrawn x y rows (c.cycle dialect).2.machine := by
  obtain ⟨proceeds, machine⟩ := @cycle_of_execute dialect _ _ _ executes (by simp) rfl
  rw [machine]
  have drawn := Machine.spriteDrawn x y rows c.machine.taken
  exact ⟨proceeds, drawn.frame, drawn.flag, drawn.others, drawn.memory, drawn.index,
    drawn.delayTimer, drawn.soundTimer, drawn.stack, drawn.keypad⟩

/-- **A sprite is drawn from memory, and drawn again it is gone.** A cycle that draws leaves
the frame on which the sprite at I was drawn, where VX and VY said before, and in VF whether it
collided; it did if some pixel went off. Memory, I, all other registers, the timers, the stack
and the keypad are as they were. The same instruction on that picture, with the same VX, VY, I
and memory, restores every pixel, and leaves 1 in VF exactly if the sprite covers a pixel that
was off at first. -/
theorem sprite_from_memory (dialect : Dialect) (c : Console) (x y : Register) (rows : Digit)
    (executes : c.instruction? = some (.draw x y rows)) :
    let m := c.machine
    let m' := (c.cycle dialect).2.machine
    (c.cycle dialect).1 = .ok .proceed ∧ m.SpriteDrawn x y rows m' ∧
    (m'.register .flag = 1 ↔ ∃ (cx : Fin 64) (cy : Fin 32),
      m.frame.picture.pixel cx.val cy.val = true ∧
        m'.frame.picture.pixel cx.val cy.val = false) ∧
    ∀ (dialect' : Dialect) (again : Console), again.instruction? = some (.draw x y rows) →
      again.machine.frame.picture = m'.frame.picture → again.machine.memory = m'.memory →
      again.machine.index = m.index → again.machine.register x = m.register x →
      again.machine.register y = m.register y →
      let m'' := (again.cycle dialect').2.machine
      m''.frame.picture = m.frame.picture ∧
        (m''.register .flag = 1 ↔ ∃ cx cy,
          Sprite.Covers (m.register x).toNat (m.register y).toNat (m.spriteAt rows) cx cy ∧
            m.frame.picture.pixel cx.val cy.val = false) := by
  intro m m'
  obtain ⟨proceeds, drawn⟩ := spriteDrawn_cycle dialect executes
  refine ⟨proceeds, drawn, drawn.flag_eq_one_iff_off, ?_⟩
  intro dialect' again same picture memory index across down m''
  obtain ⟨-, drawnAgain⟩ := spriteDrawn_cycle dialect' same
  exact drawn.again drawnAgain picture (memory.trans drawn.memory) index across down

/-- A sprite whose rows lie in the cells `FFF` and `000`, at the place that VF tells for both
axes: it goes on the blank screen, and drawn again it goes off and collides. -/
theorem sprite_from_memory_at_flag :
    let loaded := (fresh (.ofSeed 0) {} {} {}).after {} [.load [0xDF, 0xF2, 0xDF, 0xF2]]
    let c := { loaded with machine := { loaded.machine with
      index := 0xFFFF, memory := loaded.machine.memory.write 0xFFFF [0xF0, 0x81] } }
    let drawn := (c.cycle {}).2
    let again := { drawn with machine := drawn.machine.setRegister .flag 0 }
    c.instruction? = some (.draw .flag .flag 2) ∧ again.instruction? = some (.draw .flag .flag 2) ∧
      c.machine.spriteAt 2 = [0xF0, 0x81] ∧
      drawn.machine.register .flag ≠ 1 ∧
      (again.cycle {}).2.machine.frame.picture = .blank ∧
      (again.cycle {}).2.machine.register .flag = 1 := by
  intro loaded c drawn again
  obtain ⟨executes, same, sprite, place⟩ : c.instruction? = some (.draw .flag .flag 2) ∧
      again.instruction? = some (.draw .flag .flag 2) ∧
      c.machine.spriteAt 2 = [0xF0, 0x81] ∧
      c.machine.register .flag = 0 := by
    decide +kernel
  have blank : c.machine.frame.picture = .blank := rfl
  clear_value c
  obtain ⟨-, first, lit, second⟩ := sprite_from_memory {} c .flag .flag 2 executes
  have back : again.machine.register .flag = c.machine.register .flag := by
    rw [place]
    exact (Machine.register_setRegister _ _ _ _).trans (if_pos rfl)
  obtain ⟨picture, flag⟩ := second {} again same rfl rfl first.index back back
  refine ⟨executes, same, sprite, ?_, picture.trans blank, flag.mpr ⟨0, 1, ?_, ?_⟩⟩
  · rw [ne_eq, lit, blank]
    rintro ⟨cx, cy, on, -⟩
    rw [Picture.pixel_blank] at on
    cases on
  · rw [sprite, place]
    exact ⟨1, 0, by decide⟩
  · rw [blank]
    exact Picture.pixel_blank 0 1

end Console

end Chip8
