import Chip8.Proofs.Bounds

/-!
# Calls and returns nest

A call puts the address behind it on the stack, a return takes the newest address off
and goes there, and nothing else touches the stack. So what lies on the stack stays as it
is, whatever is done above it, until a return takes the top of it.

  * `stack_cases` — what a step does to the stack.
  * `beneath_perform` — a step leaves what lies beneath, or it is the return that takes
    the top of it.
  * `beneath_after` — a run that never gets below a depth leaves what lies beneath it.

`call_returns` is what follows for a call: the stack gets back to its depth by a return to
the address behind the call, and then it is the stack of before.
-/

namespace Chip8.Console

variable {dialect : Dialect} {c : Console}

/-! ## The stack -/

/-- What a step does to the stack. -/
inductive Stacks (c : Console) (step : Step) (outcome : Except Fault Flow × Console) : Prop where
  | kept (stack : outcome.2.machine.stack = c.machine.stack)
  /-- A call puts an address on it. -/
  | pushed (cycle : step = .cycle) (target : Target)
      (word : c.fetched? = some (Instruction.call target).toWord)
      (stack : outcome.2.machine.stack = (c.machine.nextAddress + 2) :: c.machine.stack)
  /-- A return takes the newest address off it and goes there. -/
  | popped (cycle : step = .cycle) (word : c.fetched? = some Instruction.ret.toWord)
      (result : outcome.1 = .ok .proceed)
      (top : c.machine.stack = outcome.2.machine.counter :: outcome.2.machine.stack)
      (mark : outcome.2.machine.skipPending = false)

theorem stacks_cycle (dialect : Dialect) (c : Console) : Stacks c .cycle (c.cycle dialect) := by
  cases cycle_cases dialect c with
  | outside _ _ console =>
    refine .kept ?_
    rw [console, Machine.settleSkip_eq]
  | undecodable _ _ _ console | overflow _ _ _ _ _ _ console =>
    refine .kept ?_
    rw [console]
    rfl
  | executed bounds i word _ m machine result log console =>
    have fetched := fetched?_of_ofWord? bounds word
    have after : (c.cycle dialect).2.machine = m := by rw [console]
    cases (Machine.moves_of_execute machine).1 with
    | on _ stack | skip _ _ stack | goTo _ _ stack | goBehind _ _ _ stack =>
      exact .kept (by rw [after]; exact stack)
    | call target calls _ _ stack =>
      rw [show i = .call target from calls] at fetched
      exact .pushed rfl target fetched (by rw [after]; exact stack)
    | ret returns top mark =>
      rw [show i = .ret from returns] at fetched
      refine .popped rfl fetched result ?_ ?_
      · rw [after]; exact top
      · rw [after]; exact mark
  | waited _ _ _ _ waits =>
    refine .kept ?_
    cases waits with
    | undrawn _ _ machine | unread _ _ _ machine | exit _ _ machine | key _ _ _ machine =>
      rw [machine]
      rfl

theorem stack_cases (dialect : Dialect) (c : Console) (step : Step) :
    Stacks c step (c.perform dialect step) := by
  by_cases cycle : step = .cycle
  · subst cycle
    exact stacks_cycle dialect c
  · obtain ⟨_, _, _, _, _, -, machine⟩ := perform_eq_of_ne_cycle dialect c cycle
    exact .kept (by rw [machine])

/-! ## Beneath -/

/-- A step is a return to an address, and leaves a stack. -/
structure ReturnsTo (dialect : Dialect) (c : Console) (step : Step) (address : UInt16)
    (stack : List UInt16) : Prop where
  cycle : step = .cycle
  word : c.fetched? = some Instruction.ret.toWord
  result : (c.perform dialect step).1 = .ok .proceed
  stack : (c.perform dialect step).2.machine.stack = stack
  counter : (c.perform dialect step).2.machine.counter = address
  mark : (c.perform dialect step).2.machine.skipPending = false

section
variable {top : UInt16} {rest : List UInt16}

theorem beneath_perform (dialect : Dialect) (beneath : (top :: rest) <:+ c.machine.stack)
    (step : Step) :
    (top :: rest) <:+ (c.perform dialect step).2.machine.stack ∨
      ReturnsTo dialect c step top rest := by
  cases stack_cases dialect c step with
  | kept stack =>
    left
    rw [stack]
    exact beneath
  | pushed _ _ _ stack =>
    left
    rw [stack]
    exact beneath.trans (List.suffix_cons _ _)
  | popped cycle word result newest mark =>
    rw [newest] at beneath
    -- either there was more above, or the address that is taken off is the top
    rcases List.suffix_cons_iff.mp beneath with same | above
    · obtain ⟨counter, stack⟩ := List.cons.inj same
      exact .inr ⟨cycle, word, result, stack.symm, counter.symm, mark⟩
    · exact .inl above

/-- How deep the stack is after some steps. -/
def depth (dialect : Dialect) (c : Console) (steps : List Step) : Nat :=
  (c.after dialect steps).machine.stack.length

theorem beneath_after {steps : List Step} (beneath : (top :: rest) <:+ c.machine.stack)
    (above : ∀ k ≤ steps.length, rest.length < c.depth dialect (steps.take k)) :
    (top :: rest) <:+ (c.after dialect steps).machine.stack := by
  induction steps generalizing c with
  | nil => exact beneath
  | cons step steps ih =>
    have first : rest.length < c.depth dialect [step] :=
      above 1 (Nat.succ_le_succ (Nat.zero_le _))
    rcases beneath_perform dialect beneath step with beneath' | returns
    · exact ih beneath' fun k le => above (k + 1) (Nat.succ_le_succ le)
    · -- the return that takes the top leaves a stack that is not deep enough
      have short : c.depth dialect [step] = rest.length := congrArg List.length returns.stack
      omega

end

/-! ## Calls -/

theorem stack_of_call {target : Target}
    (word : c.fetched? = some (Instruction.call target).toWord)
    (proceeds : (c.cycle dialect).1 = .ok .proceed) :
    (c.cycle dialect).2.machine.stack = (c.machine.nextAddress + 2) :: c.machine.stack := by
  have bounds := (fetched?_eq_some_iff.mp word).1
  have read := ofWord?_of_fetched? word trivial
  have noWait : ∀ x, Instruction.call target ≠ .waitKey x := fun x same => by cases same
  rw [cycle_instruction bounds read, execute_of_ne_waitKey noWait] at proceeds ⊢
  rcases Nat.lt_or_ge c.machine.stack.length Machine.stackLimit with room | full
  · have called := Machine.execute_call dialect c.machine.nextAddress c.machine.nextWord target
      (show c.machine.taken.stack.length < Machine.stackLimit from room)
    simp only [called]
    rfl
  · have overflow := Machine.execute_call_full dialect c.machine.nextAddress c.machine.nextWord
      target (show Machine.stackLimit ≤ c.machine.taken.stack.length from full)
    simp only [overflow] at proceeds
    cases proceeds

/-- **Calls and returns nest.** Let a call at `a` succeed with `s` on the stack. Whatever is
done then, for as long as the stack stays deeper than `s` it ends in the address behind `a`
and `s`; and the step by which it first is no deeper is a cycle that executes a return,
to the address behind `a`, with `s` on the stack and no skip pending. -/
theorem call_returns (dialect : Dialect) (c : Console) (target : Target)
    (word : c.fetched? = some (Instruction.call target).toWord)
    (proceeds : (c.cycle dialect).1 = .ok .proceed) :
    let a := c.machine.nextAddress
    let s := c.machine.stack
    let called := (c.cycle dialect).2
    (called.machine.stack = (a + 2) :: s ∧ (a + 2).toNat = a.toNat + 2) ∧
      ∀ steps : List Step,
        (∀ k ≤ steps.length, s.length < called.depth dialect (steps.take k)) →
        ((a + 2) :: s) <:+ (called.after dialect steps).machine.stack ∧
          ∀ step, called.depth dialect (steps ++ [step]) ≤ s.length →
            ReturnsTo dialect (called.after dialect steps) step (a + 2) s := by
  intro a s called
  have stack : called.machine.stack = (a + 2) :: s := stack_of_call word proceeds
  refine ⟨⟨stack, ?_⟩, ?_⟩
  · have bounds : Machine.InProgram a := (fetched?_eq_some_iff.mp word).1
    obtain ⟨-, high⟩ := Machine.inProgram_iff.mp bounds
    exact toNat_add_of_lt (show a.toNat + 2 < 65536 by omega)
  · intro steps above
    have beneath : ((a + 2) :: s) <:+ (called.after dialect steps).machine.stack :=
      beneath_after (stack ▸ List.suffix_refl _) above
    refine ⟨beneath, fun step low => ?_⟩
    rcases beneath_perform dialect beneath step with still | returns
    · -- what still has `s` and one more beneath it is deeper than `s`
      have deep := still.length_le
      rw [List.length_cons] at deep
      rw [depth, after_append] at low
      exact absurd low (Nat.not_le.mpr deep)
    · exact returns

theorem call_returns_from_nested_call :
    let program : List UInt8 := [0x22, 0x04, 0x12, 0x02, 0x22, 0x08, 0x00, 0xEE, 0x00, 0xEE]
    let c := ((fresh (.ofSeed 0) {} {} {}).load program).2
    let called := (c.cycle {}).2
    c.fetched? = some (Instruction.call 0x204).toWord ∧ (c.cycle {}).1 = .ok .proceed ∧
      ReturnsTo {} (called.after {} [.cycle, .poll, .cycle]) .cycle 0x202 [] := by
  intro program c called
  -- one evaluation for all that the run is asked for
  obtain ⟨word, proceeds, above, low, address, stack⟩ :
      c.fetched? = some (Instruction.call 0x204).toWord ∧ (c.cycle {}).1 = .ok .proceed ∧
        (∀ k ≤ 3, c.machine.stack.length <
          called.depth {} (List.take k [.cycle, .poll, .cycle])) ∧
        called.depth {} [.cycle, .poll, .cycle, .cycle] ≤ c.machine.stack.length ∧
        c.machine.nextAddress + 2 = 0x202 ∧ c.machine.stack = [] := by decide +kernel
  obtain ⟨-, nests⟩ := call_returns {} c 0x204 word proceeds
  have returns := (nests [.cycle, .poll, .cycle] above).2 .cycle low
  rw [address, stack] at returns
  exact ⟨word, proceeds, returns⟩

end Chip8.Console
