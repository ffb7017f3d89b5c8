import Chip8.Proofs.Ownership

/-!
# The random bytes of a run

The keystream of a machine is read by one instruction only, one word at a time. So the
`k`-th random byte of a run is the low byte of the `k`-th word, whatever the program does
before it and whatever happens around it, and two runs from one seed take the same bytes
although their programs differ.

  * `Taking` — what there is to see of an instruction that took a random byte;
    `Console.takings` lists them for a run.
  * `Draws` — a step takes the next byte, or it leaves the keystream alone
    (`draws_perform`). What follows about runs is by these two cases.
  * `random_after` — a run moves the keystream on by as many words as it took bytes.
  * `getElem?_takings` — the `k`-th byte of a run is that of the `k`-th word behind the place
    where the run began.

`random_bytes_of_seed` is what follows for runs from a seed.
-/

namespace Chip8

/-- Whether an instruction takes a random byte. -/
def Instruction.isRandom : Instruction → Bool
  | .random _ _ => true
  | _ => false

/-- An instruction that took a random byte: its operands, the byte, and what the register
holds behind it. -/
structure Taking where
  register : Register
  mask : UInt8
  byte : UInt8
  stored : UInt8
  deriving DecidableEq, Repr

/-- The instruction that took the byte. -/
def Taking.instruction (t : Taking) : Instruction := .random t.register t.mask

namespace Machine

theorem random_notMem_owned {i : Instruction} (h : i.isRandom = false) (dialect : Dialect)
    (m : Machine) : Part.random ∉ i.owned dialect m := by
  have moved : Part.random ∉ Part.movedIndex dialect :=
    Part.notMem_movedIndex (by simp) dialect
  have reset : Part.random ∉ Part.resetFlag dialect :=
    Part.notMem_resetFlag (by simp) dialect
  cases i with
  | random => cases h
  | ret =>
    simp only [Instruction.owned]
    split <;> simp
  | storeDecimal => simp [Instruction.owned, Part.cells]
  | storeRegisters => simp [Instruction.owned, Part.cells, moved]
  | loadRegisters => simp [Instruction.owned, Part.registersTo, moved]
  | or | and | xor => simp [Instruction.owned, reset]
  | _ => simp [Instruction.owned]

end Machine

namespace Console

variable {dialect : Dialect} {c : Console}

/-! ## Steps -/

/-- The keystream is a part that only the random instruction owns. -/
theorem random_cycle_of_other (other : ∀ i, c.instruction? = some i → i.isRandom = false) :
    (c.cycle dialect).2.machine.random = c.machine.random :=
  @sameIn_cycle dialect c .random (by simp) fun i executes =>
    Machine.random_notMem_owned (other i executes) dialect c.machine

theorem cycle_random {x : Register} {mask : UInt8}
    (executes : c.instruction? = some (.random x mask)) :
    (c.cycle dialect).2.machine.random = c.machine.random.nextByte.2 ∧
      (c.cycle dialect).2.machine.register x = c.machine.random.nextByte.1 &&& mask := by
  obtain ⟨bounds, read⟩ := instruction?_eq_some_iff.mp executes
  rw [cycle_instruction bounds read, execute_of_ne_waitKey (fun _ => by simp)]
  exact ⟨rfl, (Machine.register_setRegister _ x x _).trans (if_pos rfl)⟩

/-- The random byte that a step takes, if it takes one. -/
def taking? (dialect : Dialect) (c : Console) : Step → Option Taking
  | .cycle =>
    match c.instruction? with
    | some (.random x mask) =>
      some ⟨x, mask, c.machine.random.nextByte.1, (c.cycle dialect).2.machine.register x⟩
    | _ => none
  | _ => none

/-- The random bytes that some steps take, in order. -/
def takings (dialect : Dialect) : List Step → Console → List Taking
  | [], _ => []
  | step :: rest, c =>
    (c.taking? dialect step).toList ++ takings dialect rest (c.perform dialect step).2

/-- What a step does to the keystream. -/
inductive Draws (dialect : Dialect) (c : Console) (step : Step) : Prop where
  /-- It executes no instruction that takes a byte, and leaves the keystream alone. -/
  | nothing (taking : c.taking? dialect step = none)
      (instructions : (c.instructions dialect [step]).filter Instruction.isRandom = [])
      (random : (c.perform dialect step).2.machine.random = c.machine.random)
  /-- It takes the next byte and stores what the mask leaves of it. -/
  | byte (t : Taking) (taking : c.taking? dialect step = some t)
      (byte : t.byte = c.machine.random.nextByte.1) (stored : t.stored = t.byte &&& t.mask)
      (instructions : c.instructions dialect [step] = [t.instruction])
      (random : (c.perform dialect step).2.machine.random = c.machine.random.nextByte.2)

theorem draws_cycle (dialect : Dialect) (c : Console) : Draws dialect c .cycle := by
  -- `executed` is turned into the instructions of this one cycle, case by case
  have executed := c.instructions_cons_cycle dialect []
  cases executes : c.instruction? with
  | none =>
    rw [executes] at executed
    exact .nothing (by simp only [taking?, executes]) (by rw [executed]; rfl)
      (random_cycle_of_other fun i some => by rw [executes] at some; cases some)
  | some i =>
    rw [executes] at executed
    cases random : i.isRandom with
    | false =>
      have other : ∀ j, c.instruction? = some j → j.isRandom = false := by
        intro j same
        obtain rfl : i = j := Option.some.inj (executes.symm.trans same)
        exact random
      refine .nothing ?_ ?_ (random_cycle_of_other other)
      · cases i with
        | random => cases random
        | _ => simp only [taking?, executes]
      · rw [executed]
        exact List.filter_cons_of_neg (by simp [random])
    | true =>
      cases i with
      | random x mask =>
        obtain ⟨next, stored⟩ : (c.cycle dialect).2.machine.random = _ ∧ _ := cycle_random executes
        let t : Taking :=
          ⟨x, mask, c.machine.random.nextByte.1, (c.cycle dialect).2.machine.register x⟩
        exact .byte t (by simp only [taking?, executes, t]) rfl stored executed next
      | _ => cases random

theorem draws_perform (dialect : Dialect) (c : Console) (step : Step) : Draws dialect c step := by
  by_cases cycle : step = .cycle
  · subst cycle
    exact draws_cycle dialect c
  · obtain ⟨_, _, _, _, _, -, machine⟩ := perform_eq_of_ne_cycle dialect c cycle
    refine .nothing ?_ ?_ (by rw [machine])
    · cases step with
      | cycle => exact absurd rfl cycle
      | _ => rfl
    · rw [instructions_cons_of_ne_cycle dialect c cycle]
      rfl

/-! ## Runs -/

/-- A run moves the keystream on by as many words as it takes bytes. -/
theorem random_after (dialect : Dialect) (steps : List Step) (c : Console) :
    (c.after dialect steps).machine.random =
      { c.machine.random with
        drawn := c.machine.random.drawn + (c.takings dialect steps).length } := by
  induction steps generalizing c with
  | nil => rfl
  | cons step rest ih =>
    show ((c.perform dialect step).2.after dialect rest).machine.random = _
    rw [ih, takings]
    cases draws_perform dialect c step with
    | nothing taking _ random =>
      rw [random, taking]
      rfl
    | byte t taking _ _ _ random =>
      rw [random, taking, List.length_append]
      simp only [Keystream.nextByte, Option.toList_some, List.length_singleton, Nat.add_assoc]

/-- The bytes of a run are taken by its random instructions, in their order. -/
theorem instruction_takings (dialect : Dialect) (steps : List Step) (c : Console) :
    (c.takings dialect steps).map Taking.instruction =
      (c.instructions dialect steps).filter Instruction.isRandom := by
  induction steps generalizing c with
  | nil => rfl
  | cons step rest ih =>
    rw [takings, instructions_cons, List.map_append, List.filter_append, ih]
    cases draws_perform dialect c step with
    | nothing taking instructions =>
      rw [taking, instructions]
      rfl
    | byte t taking _ _ instructions =>
      rw [taking, instructions]
      rfl

/-- The `k`-th byte of a run is that of the `k`-th word behind the place where the run began,
and its mask decides what is stored of it. -/
theorem getElem?_takings {dialect : Dialect} {steps : List Step} {c : Console} {k : Nat}
    {t : Taking} (h : (c.takings dialect steps)[k]? = some t) :
    t.byte =
        (Keystream.word c.machine.random.key (c.machine.random.drawn + k)).toUInt8 ∧
      t.stored = t.byte &&& t.mask := by
  induction steps generalizing c k with
  | nil => cases h
  | cons step rest ih =>
    rw [takings] at h
    cases draws_perform dialect c step with
    | nothing taking _ random =>
      rw [taking] at h
      have later := ih h
      rwa [random] at later
    | byte first taking byte stored _ random =>
      rw [taking] at h
      cases k with
      | zero =>
        obtain rfl : first = t := Option.some.inj h
        exact ⟨byte, stored⟩
      | succ k =>
        -- what is left of the run begins one word further on
        have later := ih (k := k) h
        rw [random, Keystream.nextByte] at later
        rwa [Nat.add_assoc, Nat.add_comm 1 k] at later

/-- **Random bytes come from the seed alone.** In a run from a seed, whatever program is loaded
and whatever is done, the instructions that take a byte are the random ones, the `k`-th of them
takes the low byte of the `k`-th word of the seed and stores what its mask leaves of it, and
nothing else moves the keystream. So the `k`-th byte is the same in any two runs from a seed. -/
theorem random_bytes_of_seed (seed : UInt64) (dialect : Dialect) (display : Display)
    (keys : KeySource) (log : Log) (steps : List Step) :
    let start := fresh (.ofSeed seed) display keys log
    let takings := start.takings dialect steps
    takings.map Taking.instruction =
        (start.instructions dialect steps).filter Instruction.isRandom ∧
      (∀ k t, takings[k]? = some t →
        t.byte = (Keystream.word (Keystream.keyOfSeed seed) k).toUInt8 ∧
          t.stored = t.byte &&& t.mask) ∧
      (start.after dialect steps).machine.random =
        { key := Keystream.keyOfSeed seed, drawn := takings.length } ∧
      ∀ (dialect' : Dialect) (display' : Display) (keys' : KeySource) (log' : Log)
        (steps' : List Step) (k : Nat) (t t' : Taking),
        takings[k]? = some t →
        ((fresh (.ofSeed seed) display' keys' log').takings dialect' steps')[k]? = some t' →
          t.byte = t'.byte := by
  intro start takings
  have bytes {dialect : Dialect} {display : Display} {keys : KeySource} {log : Log}
      {steps : List Step} {k : Nat} {t : Taking}
      (h : ((fresh (.ofSeed seed) display keys log).takings dialect steps)[k]? = some t) :
      t.byte = (Keystream.word (Keystream.keyOfSeed seed) k).toUInt8 ∧
        t.stored = t.byte &&& t.mask := by
    have taken := getElem?_takings h
    rwa [show (fresh (.ofSeed seed) display keys log).machine.random.drawn = 0 from rfl,
      Nat.zero_add] at taken
  refine ⟨instruction_takings dialect steps start, fun k t => bytes, ?_, ?_⟩
  · rw [random_after]
    exact congrArg (Keystream.mk _) (Nat.zero_add _)
  · intro _ _ _ _ _ k t t' first second
    rw [(bytes first).1, (bytes second).1]

/-- A byte is taken also where the mask leaves nothing of it, so that the next instruction gets
the second word. -/
theorem random_bytes_of_seed_behind_empty_mask :
    let start := fresh (.ofSeed 7) {} {} {}
    let steps := [.load [0xC3, 0x00, 0xC4, 0x0F], .cycle, .render, .cycle]
    start.instructions {} steps = [.random 3 0x00, .random 4 0x0F] ∧
      ∃ t, (start.takings {} steps)[1]? = some t ∧ t.register = 4 ∧
        t.stored = (Keystream.word (Keystream.keyOfSeed 7) 1).toUInt8 &&& 0x0F := by
  intro start steps
  have executed : start.instructions {} steps = [.random 3 0x00, .random 4 0x0F] := by
    decide +kernel
  obtain ⟨order, bytes, -, -⟩ := random_bytes_of_seed 7 {} {} {} {} steps
  have two : (start.takings {} steps).map Taking.instruction =
      [.random 3 0x00, .random 4 0x0F] := by
    rw [order, executed]
    rfl
  obtain ⟨t, found, shape⟩ : ∃ t, (start.takings {} steps)[1]? = some t ∧
      t.instruction = .random 4 0x0F := by
    have second := congrArg (fun is : List Instruction => is[1]?) two
    simp only [List.getElem?_map] at second
    exact Option.map_eq_some_iff.mp second
  obtain ⟨register, mask⟩ : t.register = 4 ∧ t.mask = 0x0F := by
    simpa only [Taking.instruction, Instruction.random.injEq] using shape
  obtain ⟨byte, stored⟩ := bytes 1 t found
  refine ⟨executed, t, found, register, ?_⟩
  rw [stored, byte, mask]

end Console

end Chip8
