import Chip8.Console
import Chip8.Proofs.Execution

/-!
# Runs of a console

A run is a list of steps, made one after the other on a console with a machine that
has just been switched on. Steps go on after a fault and after the exit key.

  * `Console.perform` makes one step; where a step gives nothing but success, its
    result is `proceed`.
  * `Console.trace` is what each step gave and the console after it, `Console.after`
    the console after all of them, `Console.words` the words that were fetched.
  * `Console.Reachable` holds of the consoles that some run leads to. What holds at
    first and is kept by each step holds of all of them (`Reachable.rec`).
-/

namespace Chip8

/-- One of the steps of which a run is made. -/
inductive Step where
  | cycle
  | tick
  | poll
  | render
  | load (program : List UInt8)
  | shutdown
  deriving DecidableEq, Repr

namespace Console

/-- A console whose machine has just been switched on. -/
def fresh (random : Keystream) (display : Display) (keys : KeySource) (log : Log) : Console :=
  { machine := .new random, display, keys, log }

/-- The result of a step that gives nothing but success. -/
def plain (outcome : Except Fault Unit × Console) : Except Fault Flow × Console :=
  (outcome.1.map fun _ => .proceed, outcome.2)

/-- Make one step. -/
def perform (dialect : Dialect) (c : Console) : Step → Except Fault Flow × Console
  | .cycle => c.cycle dialect
  | .tick => (.ok .proceed, c.tick)
  | .poll => c.poll
  | .render => plain c.render
  | .load program => plain (c.load program)
  | .shutdown => plain c.shutdown

/-- The console after some steps. -/
def after (dialect : Dialect) : List Step → Console → Console
  | [], c => c
  | step :: rest, c => after dialect rest (c.perform dialect step).2

/-- What each step gives, and the console that it leaves behind. -/
def trace (dialect : Dialect) : List Step → Console → List (Except Fault Flow × Console)
  | [], _ => []
  | step :: rest, c => c.perform dialect step :: trace dialect rest (c.perform dialect step).2

/-- The word that a cycle would fetch, if there is one to be fetched. -/
def fetched? (c : Console) : Option UInt16 :=
  if Machine.InProgram c.machine.nextAddress then some c.machine.nextWord else none

/-- The word that a step fetches, if it fetches one. -/
def wordOf? (c : Console) : Step → Option UInt16
  | .cycle => c.fetched?
  | _ => none

/-- The words that some steps fetch, in order. -/
def words (dialect : Dialect) : List Step → Console → List UInt16
  | [], _ => []
  | step :: rest, c =>
    (c.wordOf? step).toList ++ words dialect rest (c.perform dialect step).2

/-- The instructions that these words are read as: what the steps execute, in order. -/
def instructions (dialect : Dialect) (steps : List Step) (c : Console) : List Instruction :=
  (c.words dialect steps).filterMap Instruction.ofWord?

/-- The instruction that a cycle would execute, if there is one. -/
def instruction? (c : Console) : Option Instruction := c.fetched?.bind Instruction.ofWord?

/-- The consoles to which a run leads. -/
inductive Reachable (dialect : Dialect) : Console → Prop where
  | fresh (random : Keystream) (display : Display) (keys : KeySource) (log : Log) :
      Reachable dialect (.fresh random display keys log)
  | step {c : Console} (step : Step) :
      Reachable dialect c → Reachable dialect (c.perform dialect step).2

theorem fetched?_eq_some_iff {c : Console} {word : UInt16} :
    c.fetched? = some word ↔
      Machine.InProgram c.machine.nextAddress ∧ c.machine.nextWord = word := by
  unfold fetched?
  split
  · next bounds => simp only [Option.some.injEq, bounds, true_and]
  · next bounds => simp only [reduceCtorEq, bounds, false_and]

theorem instruction?_eq_some_iff {c : Console} {i : Instruction} :
    c.instruction? = some i ↔
      Machine.InProgram c.machine.nextAddress ∧
        Instruction.ofWord? c.machine.nextWord = some i := by
  rw [instruction?, Option.bind_eq_some_iff]
  constructor
  · rintro ⟨word, fetched, read⟩
    obtain ⟨bounds, rfl⟩ := fetched?_eq_some_iff.mp fetched
    exact ⟨bounds, read⟩
  · rintro ⟨bounds, read⟩
    exact ⟨_, fetched?_eq_some_iff.mpr ⟨bounds, rfl⟩, read⟩

/-! ## One run after another -/

theorem after_append (dialect : Dialect) (first second : List Step) (c : Console) :
    c.after dialect (first ++ second) = (c.after dialect first).after dialect second := by
  induction first generalizing c with
  | nil => rfl
  | cons step rest ih => exact ih _

theorem words_append (dialect : Dialect) (first second : List Step) (c : Console) :
    c.words dialect (first ++ second) =
      c.words dialect first ++ (c.after dialect first).words dialect second := by
  induction first generalizing c with
  | nil => rfl
  | cons step rest ih =>
    show _ ++ words dialect (rest ++ second) _ = (_ ++ words dialect rest _) ++ _
    rw [ih, List.append_assoc]
    rfl

theorem instructions_append (dialect : Dialect) (first second : List Step) (c : Console) :
    c.instructions dialect (first ++ second) =
      c.instructions dialect first ++ (c.after dialect first).instructions dialect second := by
  rw [instructions, words_append, List.filterMap_append]
  rfl

theorem instructions_cons (dialect : Dialect) (c : Console) (step : Step) (rest : List Step) :
    c.instructions dialect (step :: rest) =
      c.instructions dialect [step] ++ (c.perform dialect step).2.instructions dialect rest :=
  c.instructions_append dialect [step] rest

theorem instructions_cycle {dialect : Dialect} {c : Console} {i : Instruction}
    (bounds : Machine.InProgram c.machine.nextAddress)
    (word : Instruction.ofWord? c.machine.nextWord = some i) :
    c.instructions dialect [.cycle] = [i] := by
  have fetched : c.fetched? = some c.machine.nextWord := fetched?_eq_some_iff.mpr ⟨bounds, rfl⟩
  have words : c.words dialect [.cycle] = [c.machine.nextWord] := by
    show c.fetched?.toList ++ [] = _
    rw [fetched]
    rfl
  rw [instructions, words, List.filterMap_cons_some word]
  rfl

theorem instructions_cons_cycle (dialect : Dialect) (c : Console) (rest : List Step) :
    c.instructions dialect (.cycle :: rest) =
      c.instruction?.toList ++ (c.cycle dialect).2.instructions dialect rest := by
  show (c.fetched?.toList ++ words dialect rest (c.cycle dialect).2).filterMap _ = _
  rw [List.filterMap_append, instruction?]
  cases c.fetched? with
  | none => rfl
  | some word => cases h : Instruction.ofWord? word <;> simp [h, instructions]

theorem mem_instructions_cycle {dialect : Dialect} {c : Console} {i : Instruction}
    (executes : c.instruction? = some i) (rest : List Step) :
    i ∈ c.instructions dialect (.cycle :: rest) := by
  rw [instructions_cons_cycle, executes]
  exact List.mem_cons_self

theorem instructions_cons_of_ne_cycle (dialect : Dialect) (c : Console) {step : Step}
    (h : step ≠ .cycle) (rest : List Step) :
    c.instructions dialect (step :: rest) =
      (c.perform dialect step).2.instructions dialect rest := by
  cases step with
  | cycle => exact absurd rfl h
  | tick | poll | render | load | shutdown => rfl

theorem Reachable.after {dialect : Dialect} {c : Console} (h : Reachable dialect c)
    (steps : List Step) : Reachable dialect (c.after dialect steps) := by
  induction steps generalizing c with
  | nil => exact h
  | cons step rest ih => exact ih (h.step step)

end Console

end Chip8
