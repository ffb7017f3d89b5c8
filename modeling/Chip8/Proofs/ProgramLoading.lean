import Chip8.Proofs.MemoryCells
import Chip8.Proofs.Unlogged

/-!
# Programs in memory

A program is put into the cells from `0x200` on, one byte to a cell, as far as there are cells.
It cannot wrap around to the cells below: there is room for 3584 bytes, and no more of them are
written.

  * `get_put_of_lt`, `get_put` — what each cell holds once a program was put in place.
  * `put_congr` — two programs that begin with the same 3584 bytes leave the same memory.
  * `get_foldl_put` — several programs one after the other: each cell holds what the last of
    them has for it that is long enough.
  * `aside_load` — so the consoles on which they were loaded differ in their logs alone.

`program_in_memory` says all of it of a console on which programs are loaded, at any time.
-/

namespace Chip8

namespace Memory

/-- The memory with as much of a program in place as there is room for. -/
def put (m : Memory) (program : List UInt8) : Memory :=
  m.write programStart (program.take programRoom)

/-- The cell of a program's `j`-th byte. -/
def programCell (j : Nat) (lt : j < 3584) : ThreeDigits := ⟨0x200 + j, by omega⟩

/-- From `m` to `m'` a program is put in place: its bytes go into the cells from `0x200` on, and
every other cell keeps what it holds. -/
structure Placed (program : List UInt8) (m m' : Memory) : Prop where
  inside : ∀ j (lt : j < min program.length 3584),
    m'.cells.get ⟨0x200 + j, by omega⟩ = program[j]
  outside : ∀ n : ThreeDigits, n.val < 0x200 ∨ 0x200 + program.length ≤ n.val →
    m'.cells.get n = m.cells.get n

section
variable (m : Memory) (program : List UInt8)

theorem load_of_ne_nil {program : List UInt8} (filled : program ≠ []) :
    m.load program = .ok (m.put program) := by
  rw [load, if_neg (by simp [filled]), put]

theorem programCell_eq_behind {j : Nat} (lt : j < 3584) :
    programCell j lt = behind programStart j := by
  apply Fin.ext
  show 0x200 + j = (0x200 + j) % 4096
  omega

theorem get_put_of_unwritten {n : ThreeDigits}
    (unwritten : ∀ k < program.length, n.val ≠ 0x200 + k) :
    (m.put program).cells.get n = m.cells.get n := by
  have outside : ∀ k < (program.take programRoom).length, n ≠ behind programStart k := by
    intro k lt same
    rw [List.length_take, programRoom] at lt
    have place : n.val = (0x200 + k) % 4096 := congrArg Fin.val same
    exact unwritten k (by omega) (by omega)
  exact getElem_write_of_outside outside

/-- No byte of a program lands below `0x200`, however long the program is. -/
theorem get_put_of_lt {n : ThreeDigits} (below : n.val < 0x200) :
    (m.put program).cells.get n = m.cells.get n :=
  m.get_put_of_unwritten program fun k _ => by omega

theorem get_put {j : Nat} (lt : j < 3584) :
    (m.put program).cells.get (programCell j lt) =
      (program[j]?).getD (m.cells.get (programCell j lt)) := by
  rcases Nat.lt_or_ge j program.length with inside | past
  · have room : (program.take programRoom).length ≤ 3584 := List.length_take_le _ _
    have written : j < (program.take programRoom).length := by
      rw [List.length_take, programRoom]
      omega
    rw [programCell_eq_behind, List.getElem?_eq_getElem inside, Option.getD_some, put,
      get_write_of_length_le (by omega) written, List.getElem_take]
  · rw [List.getElem?_eq_none past, Option.getD_none]
    apply get_put_of_unwritten
    intro k inside
    show 0x200 + j ≠ 0x200 + k
    omega

theorem placed_put : Placed program m (m.put program) := by
  constructor
  · intro j lt
    have inside : j < program.length := Nat.lt_of_lt_of_le lt (Nat.min_le_left _ _)
    have cell := m.get_put program (Nat.lt_of_lt_of_le lt (Nat.min_le_right _ _))
    rw [List.getElem?_eq_getElem inside, Option.getD_some] at cell
    exact cell
  · intro n outside
    apply get_put_of_unwritten
    intro k inside
    omega

end

/-- What is cut off makes no difference. -/
theorem put_congr (m : Memory) {p q : List UInt8}
    (agree : ∀ j < 3584, ∀ (hp : j < p.length) (hq : j < q.length), p[j] = q[j])
    (lengths : p.length = q.length ∨ 3584 ≤ p.length ∧ 3584 ≤ q.length) :
    m.put p = m.put q := by
  have same : p.take programRoom = q.take programRoom := by
    apply List.ext_getElem
    · rw [List.length_take, List.length_take, programRoom]
      omega
    · intro j hp hq
      rw [List.length_take, programRoom] at hp hq
      rw [List.getElem_take, List.getElem_take]
      exact agree j (by omega) (by omega) (by omega)
  rw [put, put, same]

/-- The last program that has a byte for a cell decides what is in it. -/
theorem get_foldl_put (programs : List (List UInt8)) (m : Memory) {j : Nat} (lt : j < 3584) :
    (programs.foldl put m).cells.get (programCell j lt) =
      (programs.reverse.findSome? (·[j]?)).getD (m.cells.get (programCell j lt)) := by
  induction programs generalizing m with
  | nil => rfl
  | cons program later ih =>
    rw [List.foldl_cons, ih, get_put, List.reverse_cons, List.findSome?_append]
    cases later.reverse.findSome? (·[j]?) with
    | some byte => rfl
    | none =>
      rw [Option.none_or, Option.getD_none]
      cases h : program[j]? <;> simp [h]

theorem get_foldl_put_of_lt (programs : List (List UInt8)) (m : Memory) {n : ThreeDigits}
    (below : n.val < 0x200) : (programs.foldl put m).cells.get n = m.cells.get n := by
  induction programs generalizing m with
  | nil => rfl
  | cons program later ih => rw [List.foldl_cons, ih, get_put_of_lt m program below]

end Memory

namespace Console

variable {p q : List UInt8}

/-! ## Loading on a console -/

theorem load_of_nil (c : Console) : c.load [] = (.error .emptyProgram, c) := rfl

theorem load_of_ne_nil (c : Console) (filled : p ≠ []) :
    c.load p =
      (.ok (), { c with
        machine := { c.machine with memory := c.machine.memory.put p }
        log :=
          if Memory.programRoom < p.length then
            c.log.add (.programCut p.length Memory.programRoom)
          else c.log }) := by
  rw [load, Memory.load_of_ne_nil _ filled]

/-- An empty program leaves the memory as it would be with nothing put into it. -/
theorem machine_load (c : Console) (p : List UInt8) :
    (c.load p).2.machine = { c.machine with memory := c.machine.memory.put p } := by
  cases p with
  | nil => rfl
  | cons byte rest => rw [load_of_ne_nil c (List.cons_ne_nil byte rest)]

theorem memory_after_loads (dialect : Dialect) (programs : List (List UInt8)) (c : Console) :
    (c.after dialect (programs.map .load)).machine.memory =
      programs.foldl Memory.put c.machine.memory := by
  induction programs generalizing c with
  | nil => rfl
  | cons program later ih =>
    rw [List.map_cons, after, ih, List.foldl_cons]
    show later.foldl Memory.put (c.load program).2.machine.memory = _
    rw [machine_load]

/-- Two programs that agree as far as there is room are loaded alike; the log may tell how much
was cut off. -/
theorem aside_load (c : Console)
    (agree : ∀ j < 3584, ∀ (hp : j < p.length) (hq : j < q.length), p[j] = q[j])
    (lengths : p.length = q.length ∨ 3584 ≤ p.length ∧ 3584 ≤ q.length) :
    aside (c.load p) = aside (c.load q) := by
  have memory := c.machine.memory.put_congr agree lengths
  cases p with
  | nil =>
    obtain rfl : q = [] := List.eq_nil_of_length_eq_zero (by simp at lengths; omega)
    rfl
  | cons byte rest =>
    have filled : q ≠ [] := by
      rintro rfl
      simp at lengths
    rw [load_of_ne_nil c (List.cons_ne_nil byte rest), load_of_ne_nil c filled, memory]
    rfl

/-- A log that tells how much was cut off goes by the length alone. -/
theorem load_of_length_eq (c : Console) (lengths : p.length = q.length)
    (agree : ∀ j < 3584, ∀ (hp : j < p.length) (hq : j < q.length), p[j] = q[j]) :
    c.load p = c.load q := by
  have memory := c.machine.memory.put_congr agree (.inl lengths)
  cases p with
  | nil =>
    obtain rfl : q = [] := List.eq_nil_of_length_eq_zero lengths.symm
    rfl
  | cons byte rest =>
    have filled : q ≠ [] := List.ne_nil_of_length_pos (lengths ▸ Nat.succ_pos _)
    rw [load_of_ne_nil c (List.cons_ne_nil byte rest), load_of_ne_nil c filled, memory, lengths]

/-- **A program in memory.** Loading nothing is refused and changes nothing. Anything else is
loaded: its bytes go into the cells from `0x200` on in order, those for which there is a cell,
and nothing else of the machine is touched. So two programs that agree in their first 3584 bytes,
and are of one length or reach at least that far, lead to the same run whatever follows, step by
step as well as frame by frame, but for what the log tells of their lengths. Where programs are
loaded one after another, each cell holds what the last of them has for it that is long enough. -/
theorem program_in_memory (c : Console) :
    c.load [] = (.error .emptyProgram, c) ∧
    (∀ p ≠ [], (c.load p).1 = .ok () ∧
      c.machine.memory.Placed p (c.load p).2.machine.memory ∧
      (c.load p).2.machine =
        { c.machine with memory := (c.load p).2.machine.memory }) ∧
    (∀ p q : List UInt8,
      (∀ j < 3584, ∀ (hp : j < p.length) (hq : j < q.length), p[j] = q[j]) →
      (p.length = q.length ∨ 3584 ≤ p.length ∧ 3584 ≤ q.length) →
      (p.length = q.length → c.load p = c.load q) ∧
      (∀ dialect steps,
        (c.trace dialect (.load p :: steps)).map aside =
          (c.trace dialect (.load q :: steps)).map aside) ∧
      ∀ (s : Scheduler) (limit : Nat),
        let run (program : List UInt8) := { s with console := (c.load program).2 }.run limit
        (run p).1 = (run q).1 ∧ (run p).2.unlogged = (run q).2.unlogged) ∧
    ∀ (dialect : Dialect) (programs : List (List UInt8)),
      let memory := (c.after dialect (programs.map .load)).machine.memory
      (∀ n : ThreeDigits, n.val < 0x200 → memory.cells.get n = c.machine.memory.cells.get n) ∧
      ∀ j (lt : j < 3584),
        memory.cells.get ⟨0x200 + j, by omega⟩ =
          (programs.reverse.findSome? (·[j]?)).getD
            (c.machine.memory.cells.get ⟨0x200 + j, by omega⟩) := by
  refine ⟨c.load_of_nil, fun p filled => ?placed, fun p q agree lengths => ?alike,
    fun dialect programs => ?last⟩
  case placed =>
    rw [machine_load]
    refine ⟨?_, Memory.placed_put _ p, rfl⟩
    rw [load_of_ne_nil c filled]
  case alike =>
    obtain ⟨-, loaded⟩ := Prod.mk.inj (c.aside_load agree lengths)
    refine ⟨fun same => c.load_of_length_eq same agree, fun dialect steps => ?_,
      fun s limit => ?_⟩
    · have first : aside (c.perform dialect (.load p)) = aside (c.perform dialect (.load q)) :=
        aside_plain (c.aside_load agree lengths)
      rw [trace, trace, List.map_cons, List.map_cons, first]
      exact congrArg _ (trace_of_unlogged dialect steps loaded)
    · apply Scheduler.run_of_unlogged
      show ({ s with console := (c.load p).2.unlogged } : Scheduler) =
        { s with console := (c.load q).2.unlogged }
      rw [loaded]
  case last =>
    rw [memory_after_loads]
    exact ⟨fun n below => Memory.get_foldl_put_of_lt programs _ below,
      fun j lt => Memory.get_foldl_put programs _ lt⟩

/-- Two programs that are both too long and differ in what is cut off, and a short one that is
loaded over the second of them. -/
theorem program_in_memory_over_top :
    let c := fresh (.ofSeed 0) {} {} {}
    let p : List UInt8 := List.replicate 3585 0x60
    let q : List UInt8 := List.replicate 3584 0x60 ++ [1, 2]
    let filled := (c.load p).2.machine.memory
    let reloaded := (c.after {} ([q, [0x12, 0x00]].map .load)).machine.memory
    (p ≠ [] ∧ (c.load p).1 = .ok () ∧ filled.cells.get 0xFFF = 0x60 ∧
      filled.cells.get 0x000 = c.machine.memory.cells.get 0x000) ∧
    (p.length ≠ q.length ∧ ∀ steps, (c.trace {} (.load p :: steps)).map aside =
      (c.trace {} (.load q :: steps)).map aside) ∧
    reloaded.cells.get 0x201 = 0x00 ∧ reloaded.cells.get 0x202 = 0x60 := by
  intro c p q filled reloaded
  -- what there is to know of the two programs, so that nothing looks at their bytes again
  have lengthP : p.length = 3585 := List.length_replicate
  have lengthQ : q.length = 3586 := by rw [List.length_append, List.length_replicate]; rfl
  have bytesP : ∀ j (lt : j < p.length), p[j] = 0x60 := fun j lt => List.getElem_replicate lt
  have bytesQ : ∀ j (lt : j < q.length), j < 3584 → q[j] = 0x60 := by
    intro j lt room
    have first : j < (List.replicate 3584 (0x60 : UInt8)).length := by
      rw [List.length_replicate]; exact room
    exact (List.getElem_append_left first).trans (List.getElem_replicate first)
  clear_value p q
  obtain ⟨-, placed, alike, last⟩ := program_in_memory c
  have nonempty : p ≠ [] := List.ne_nil_of_length_pos (by omega)
  obtain ⟨loads, place, -⟩ := placed p nonempty
  have agree : ∀ j < 3584, ∀ (hp : j < p.length) (hq : j < q.length), p[j] = q[j] :=
    fun j room hp hq => (bytesP j hp).trans (bytesQ j hq room).symm
  have long : 3584 ≤ p.length ∧ 3584 ≤ q.length := by omega
  refine ⟨⟨nonempty, loads, ?_, place.outside 0x000 (.inl (by decide))⟩,
    ⟨by omega, (alike p q agree (.inr long)).2.1 {}⟩, (last {} _).2 1 (by decide), ?_⟩
  · have highest := place.inside 3583 (by omega)
    rw [bytesP] at highest
    exact highest
  · have reaches : q[2]? = some 0x60 := by
      rw [List.getElem?_eq_getElem (by omega), bytesQ 2 (by omega) (by decide)]
    have kept := (last {} [q, [0x12, 0x00]]).2 2 (by decide)
    simp only [List.reverse_cons, List.reverse_nil, List.nil_append, List.cons_append,
      List.findSome?_cons, reaches] at kept
    exact kept

end Console

end Chip8
