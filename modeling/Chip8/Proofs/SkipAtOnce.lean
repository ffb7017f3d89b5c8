import Chip8.Proofs.Step

/-!
# A deferred skip is a skip at once

A machine that skips at once has no use for a mark: a skip whose condition holds moves
its counter on by one more instruction in the same cycle. `AtOnce` runs a console with
such a machine. Every other instruction and every other step is the one that there is.

`AtOnce.trace_fresh` is what is proved: along every run, whatever fails on the way,
each step gives the same result on both, and the consoles differ after it at most in
that the one that defers has yet to make a skip, `Console.settled`. The step that
carries it is `AtOnce.perform_settled`: no step but a cycle looks at the counter or the
mark, a cycle takes the mark off before anything can fail, and only a skip leaves one.
-/

namespace Chip8

/-- The console with the skip made that it has yet to make. -/
def Console.settled (c : Console) : Console :=
  { c with machine := { c.machine with counter := c.machine.nextAddress, skipPending := false } }

namespace AtOnce

/-! ## A console that skips at once -/

/-- Take the next instruction, which is where the counter points. -/
def fetch (m : Machine) : Except Fault Fetched × Machine :=
  if Machine.InProgram m.counter then
    let word := m.memory.word m.counter
    let taken := { m with counter := m.counter + 2, lastWord := word }
    match Instruction.ofWord? word with
    | some instruction => (.ok ⟨m.counter, word, instruction⟩, taken)
    | none => (.error (.undecodable m.counter word), taken)
  else (.error (.outsideProgram m.counter m.lastWord), m)

/-- Execute an instruction that was fetched; a skip whose condition holds is made. -/
def execute (dialect : Dialect) (c : Console) (fetched : Fetched) :
    Except Fault Flow × Console :=
  match c.machine.skipCondition? fetched.instruction with
  | some holds =>
    let counter := if holds then c.machine.counter + 2 else c.machine.counter
    (.ok .proceed,
      { c with machine := { c.machine with counter }, log := c.told dialect fetched })
  | none => c.execute dialect fetched

/-- Fetch one instruction and execute it. -/
def cycle (dialect : Dialect) (c : Console) : Except Fault Flow × Console :=
  match fetch c.machine with
  | (.error fault, machine) => (.error fault, { c with machine })
  | (.ok fetched, machine) => execute dialect { c with machine } fetched

/-- Make one step. -/
def perform (dialect : Dialect) (c : Console) : Step → Except Fault Flow × Console
  | .cycle => cycle dialect c
  | step => c.perform dialect step

/-- What each step gives, and the console that it leaves behind. -/
def trace (dialect : Dialect) : List Step → Console → List (Except Fault Flow × Console)
  | [], _ => []
  | step :: rest, c => perform dialect c step :: trace dialect rest (perform dialect c step).2

/-! ## Marks -/

theorem settled_of_mark {c : Console} (h : c.machine.skipPending = false) : c.settled = c := by
  obtain ⟨⟨memory, frame, keypad, registers, index, counter, stack, delayTimer, soundTimer, mark,
    lastWord, random⟩, display, keys, log, calls⟩ := c
  obtain rfl : mark = false := h
  rfl

/-- A fetch takes the mark off, also when it fails. -/
theorem mark_fetch (m : Machine) : m.fetch.2.skipPending = false := by
  by_cases bounds : Machine.InProgram m.nextAddress
  · cases word : Instruction.ofWord? m.nextWord with
    | none => rw [Machine.fetch_undecodable bounds word]; rfl
    | some i => rw [Machine.fetch_instruction bounds word]; rfl
  · rw [Machine.fetch_outside bounds, Machine.settleSkip_eq]

theorem mark_waitKey (c : Console) (x : Register) :
    (c.waitKey x).2.machine.skipPending = c.machine.skipPending := by
  cases Console.waitKey_cases c x with
  | undrawn _ _ machine => rw [machine]
  | unread _ _ _ machine | exit _ _ machine | key _ _ _ machine =>
    rw [machine]
    rfl

/-- An instruction that is no skip leaves the mark as it is, also when it fails. -/
theorem mark_execute {dialect : Dialect} {c : Console} {f : Fetched}
    (h : c.machine.skipCondition? f.instruction = none) :
    (c.execute dialect f).2.machine.skipPending = c.machine.skipPending := by
  by_cases waits : ∃ x, f.instruction = .waitKey x
  · obtain ⟨address, word, i⟩ := f
    obtain ⟨x, rfl⟩ := waits
    rw [Console.execute_waitKey, mark_waitKey]
  · rw [Console.execute_of_ne_waitKey fun x hx => waits ⟨x, hx⟩]
    cases executed : c.machine.execute dialect f with
    | error fault => rfl
    | ok m => exact Machine.mark_of_execute executed h

/-! ## Step by step -/

/-- Where the deferred skip is made, both fetch the same. -/
theorem fetch_settled (m : Machine) :
    fetch { m with counter := m.nextAddress, skipPending := false } = m.fetch := by
  rw [Machine.fetch, Machine.settleSkip_eq]
  rfl

theorem execute_eq {dialect : Dialect} {c : Console} {f : Fetched}
    (mark : c.machine.skipPending = false) :
    execute dialect c f = ((c.execute dialect f).1, (c.execute dialect f).2.settled) := by
  unfold execute
  split
  · next holds condition =>
    -- the mark was off before, so that the skip overwrites none
    have noWait : ∀ x, f.instruction ≠ .waitKey x := by
      intro x hx
      rw [hx] at condition
      cases condition
    rw [Console.execute_of_ne_waitKey noWait, Machine.execute_skip condition]
    simp only [Console.settled, Machine.skipIf, Machine.nextAddress, mark]
    rfl
  · next condition =>
    have unmarked : (c.execute dialect f).2.machine.skipPending = false := by
      rw [mark_execute condition]
      exact mark
    rw [settled_of_mark unmarked]

theorem cycle_settled (dialect : Dialect) (c : Console) :
    cycle dialect c.settled = ((c.cycle dialect).1, (c.cycle dialect).2.settled) := by
  have mark := mark_fetch c.machine
  have same : fetch c.settled.machine = c.machine.fetch := fetch_settled c.machine
  rw [cycle, same, Console.cycle]
  cases fetched : c.machine.fetch with
  | mk result m =>
    rw [fetched] at mark
    cases result with
    | error fault =>
      -- a fetch that fails has taken the mark off: the deferred skip was made before it
      have unmarked : ({ c with machine := m } : Console).settled = { c with machine := m } :=
        settled_of_mark mark
      rw [unmarked]
      rfl
    | ok f => exact execute_eq (c := { c with machine := m }) mark

theorem poll_settled (c : Console) : c.settled.poll = (c.poll.1, c.poll.2.settled) := by
  simp only [Console.poll, Console.settled]
  rcases c.keys.poll with ⟨reason | _ | code, keys⟩
  · rfl
  · rfl
  · by_cases exit : code = exitKey
    · simp only [if_pos exit]
      rfl
    · simp only [if_neg exit]
      cases Keypad.keyOf? code
      · rfl
      · rfl

theorem render_settled (c : Console) : c.settled.render = (c.render.1, c.render.2.settled) := by
  by_cases pending : c.machine.frame.pending = true
  · have pending' : c.settled.machine.frame.pending = true := pending
    rw [Console.render, Console.render, if_pos pending, if_pos pending']
    rfl
  · have pending' : ¬ c.settled.machine.frame.pending = true := pending
    rw [Console.render, Console.render, if_neg pending, if_neg pending']

theorem load_settled (c : Console) (program : List UInt8) :
    c.settled.load program = ((c.load program).1, (c.load program).2.settled) := by
  simp only [Console.load, Console.settled]
  cases c.machine.memory.load program
  · rfl
  · rfl

/-- The steps other than a cycle neither look at the counter and the mark nor change them. -/
theorem perform_settled (dialect : Dialect) (c : Console) (step : Step) :
    perform dialect c.settled step =
      ((c.perform dialect step).1, (c.perform dialect step).2.settled) := by
  cases step with
  | cycle => exact cycle_settled dialect c
  | tick => rfl
  | poll => exact poll_settled c
  | render => exact congrArg Console.plain (render_settled c)
  | load program => exact congrArg Console.plain (load_settled c program)
  | shutdown => rfl

theorem trace_settled (dialect : Dialect) (steps : List Step) (c : Console) :
    trace dialect steps c.settled =
      (c.trace dialect steps).map fun (result, c) => (result, c.settled) := by
  induction steps generalizing c with
  | nil => rfl
  | cons step rest ih =>
    simp only [trace, Console.trace, List.map_cons, perform_settled, ih]

/-- **Deferring a skip shows nowhere.** On a console that has just been switched on, each
step of a run gives the same result as on the one that skips at once, and after it the
two consoles are equal once the deferred skip is made. -/
theorem trace_fresh (dialect : Dialect) (random : Keystream) (display : Display)
    (keys : KeySource) (log : Log) (steps : List Step) :
    trace dialect steps (.fresh random display keys log) =
      ((Console.fresh random display keys log).trace dialect steps).map
        fun (result, c) => (result, c.settled) := by
  have unmarked :
      (Console.fresh random display keys log).settled = .fresh random display keys log :=
    settled_of_mark rfl
  rw [← trace_settled, unmarked]

end AtOnce

end Chip8
