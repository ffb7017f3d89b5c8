import Chip8.Proofs.Scheduled

/-!
# How long a key is down

Four things change the count of a key: a poll takes one off, and sets it anew if it finds
the key; a wait for a key whose picture could be shown takes all keys off, and sets the one
with which it ends. In what order they did so decides what the count is. `KeyEvent` records
them, and the keypad is what its record says (`keypad_after`).

  * `Keypad.meet` — what an event does to the keypad, `toNat_count_meet` to one key.
  * `keypad_perform`, `keypad_after` — the keypad after a step and after a run.
  * `toNat_count_foldl` — the count of a key that is not pressed again: one less for each
    poll, and nothing behind a wait.
  * `polls_keyEvents` — each poll of a run is an event.

`key_held` is the law for every run, with what the two skips make of it and what it comes
to for the frames behind the one in which a key was typed.
-/

namespace Chip8

/-- Something that happens to the keys. -/
inductive KeyEvent where
  /-- A poll, with the key whose code it took. -/
  | poll (found : Option Key)
  /-- A wait that could show the picture, with the key that it gave. -/
  | wait (found : Option Key)
  deriving DecidableEq, Repr

namespace KeyEvent

/-- Whether a key is pressed. -/
def presses (key : Key) : KeyEvent → Bool
  | .poll found | .wait found => found == some key

/-- Whether it is a poll. -/
def isPoll : KeyEvent → Bool
  | .poll _ => true
  | .wait _ => false

end KeyEvent

namespace Keypad

/-- The keypad after an event. -/
def meet (k : Keypad) : KeyEvent → Keypad
  | .poll none => k.age
  | .poll (some key) => k.age.press key
  | .wait none => released
  | .wait (some key) => released.press key

theorem isDown_iff (k : Keypad) (key : Key) : k.isDown key = true ↔ 0 < (k.count key).toNat := by
  rw [isDown, decide_eq_true_iff, UInt8.lt_iff_toNat_lt]
  exact Iff.rfl

theorem toNat_count_age (k : Keypad) (key : Key) :
    (k.age.count key).toNat = (k.count key).toNat - 1 := by
  rw [count_age]
  split
  · next up => rw [up]; rfl
  · next down =>
    have pos : (k.count key).toNat ≠ 0 := fun zero => down (UInt8.toNat_inj.mp zero)
    have le : 1 ≤ k.count key := by
      rw [UInt8.le_iff_toNat_le]
      show 1 ≤ _
      omega
    rw [UInt8.toNat_sub_of_le _ _ le]
    rfl

theorem toNat_count_press (k : Keypad) (key other : Key) :
    ((k.press key).count other).toNat = if key = other then 4 else (k.count other).toNat := by
  rw [count_press]
  split
  · rfl
  · rfl

theorem toNat_count_meet (k : Keypad) (e : KeyEvent) (key : Key) :
    ((k.meet e).count key).toNat =
      if e.presses key then 4 else if e.isPoll then (k.count key).toNat - 1 else 0 := by
  rcases e with (_ | found) | (_ | found)
  · simp only [meet, KeyEvent.presses, KeyEvent.isPoll, toNat_count_age]
    simp
  · simp only [meet, KeyEvent.presses, KeyEvent.isPoll, toNat_count_press, toNat_count_age]
    simp
  · simp [meet, KeyEvent.presses, KeyEvent.isPoll]
  · simp [meet, KeyEvent.presses, KeyEvent.isPoll, toNat_count_press]

/-- A key that is not pressed again loses one with each poll and all with a wait. -/
theorem toNat_count_foldl (k : Keypad) {key : Key} {events : List KeyEvent}
    (h : ∀ e ∈ events, e.presses key = false) :
    ((events.foldl meet k).count key).toNat =
      if events.all KeyEvent.isPoll then
        (k.count key).toNat - events.countP KeyEvent.isPoll
      else 0 := by
  induction events generalizing k with
  | nil => simp
  | cons e rest ih =>
    have first : e.presses key = false := h e List.mem_cons_self
    have later := ih (k.meet e) fun e' mem => h e' (List.mem_cons_of_mem _ mem)
    rw [List.foldl_cons, later, toNat_count_meet, first]
    cases poll : e.isPoll with
    | true =>
      simp only [List.all_cons, List.countP_cons, poll, Bool.true_and, if_true]
      split
      · simp only [Bool.false_eq_true, if_false]
        omega
      · rfl
    | false => simp [poll]

end Keypad

namespace Console

variable {dialect : Dialect} {c : Console}

/-! ## What happens to the keys -/

/-- The key whose code a poll would take, if it takes one. -/
def polledKey? (c : Console) : Option Key :=
  match c.keys.poll.1 with
  | .ok (some code) => Keypad.keyOf? code
  | _ => none

/-- The key that a wait would give, if it gives one. -/
def awaitedKey? (c : Console) : Option Key :=
  match c.keys.await.result with
  | .ok found => found
  | .error _ => none

/-- What a step does to the keys, if anything. A wait counts once its picture is shown. -/
def keyEvent? (c : Console) : Step → Option KeyEvent
  | .poll => some (.poll c.polledKey?)
  | .cycle =>
    match c.instruction? with
    | some (.waitKey _) =>
      match (c.display.draw c.machine.frame.picture).1 with
      | .ok () => some (.wait c.awaitedKey?)
      | .error _ => none
    | _ => none
  | _ => none

/-- What some steps do to the keys, in order. -/
def keyEvents (dialect : Dialect) : List Step → Console → List KeyEvent
  | [], _ => []
  | step :: rest, c =>
    (c.keyEvent? step).toList ++ keyEvents dialect rest (c.perform dialect step).2

theorem keypad_poll (c : Console) :
    c.poll.2.machine.keypad = c.machine.keypad.meet (.poll c.polledKey?) := by
  unfold poll polledKey?
  rcases c.keys.poll with ⟨reason | _ | code, keys⟩
  · rfl
  · rfl
  · by_cases isExit : code = exitKey
    · subst isExit
      simp only [if_true, Keypad.keyOf?_exitKey]
      rfl
    · simp only [if_neg isExit]
      cases Keypad.keyOf? code with
      | none => rfl
      | some key => rfl

theorem keyEvent?_of_none (h : c.instruction? = none) : c.keyEvent? .cycle = none := by
  unfold keyEvent?
  rw [h]

theorem keyEvent?_of_ne_waitKey {i : Instruction} (h : c.instruction? = some i)
    (noWait : ∀ x, i ≠ .waitKey x) : c.keyEvent? .cycle = none := by
  unfold keyEvent?
  rw [h]
  cases i with
  | waitKey x => exact absurd rfl (noWait x)
  | _ => rfl

theorem keyEvent?_of_undrawn {x : Register} {reason : String}
    (h : c.instruction? = some (.waitKey x))
    (undrawn : (c.display.draw c.machine.frame.picture).1 = .error reason) :
    c.keyEvent? .cycle = none := by
  simp only [keyEvent?, h, undrawn]

theorem keyEvent?_of_drawn {x : Register} (h : c.instruction? = some (.waitKey x))
    (drawn : (c.display.draw c.machine.frame.picture).1 = .ok ()) :
    c.keyEvent? .cycle = some (.wait c.awaitedKey?) := by
  simp only [keyEvent?, h, drawn]

theorem keypad_waitKey_of_drawn (x : Register)
    (h : (c.display.draw c.machine.frame.picture).1 = .ok ()) :
    (c.waitKey x).2.machine.keypad = c.machine.keypad.meet (.wait c.awaitedKey?) := by
  rw [machine_waitKey_of_drawn x h, awaitedKey?]
  rcases c.keys.await.result with reason | _ | key
  · rfl
  · rfl
  · rfl

theorem keypad_cycle (dialect : Dialect) (c : Console) :
    (c.cycle dialect).2.machine.keypad =
      (c.keyEvent? .cycle).toList.foldl Keypad.meet c.machine.keypad := by
  cases cycle_cases dialect c with
  | outside bounds _ console =>
    have nothing : c.instruction? = none := by
      rw [instruction?, fetched?, if_neg bounds]
      rfl
    rw [keyEvent?_of_none nothing, console, Machine.settleSkip_eq]
    rfl
  | undecodable bounds word _ console =>
    have nothing : c.instruction? = none := by
      rw [instruction?, fetched?, if_pos bounds]
      exact word
    rw [keyEvent?_of_none nothing, console]
    rfl
  | overflow bounds target word _ _ _ console =>
    have executes := instruction?_eq_some_iff.mpr ⟨bounds, word⟩
    rw [keyEvent?_of_ne_waitKey executes (fun x same => by cases same), console]
    rfl
  | executed bounds i word noWait m executed _ _ console =>
    have executes := instruction?_eq_some_iff.mpr ⟨bounds, word⟩
    obtain ⟨-, keypad, -⟩ := Machine.moves_of_execute executed
    rw [keyEvent?_of_ne_waitKey executes noWait, console]
    exact keypad
  | waited bounds x word =>
    have executes := instruction?_eq_some_iff.mpr ⟨bounds, word⟩
    obtain ⟨log, cycle⟩ := cycle_waitKey dialect bounds word
    let c' : Console := { c with machine := c.machine.taken, log }
    rw [cycle]
    cases drawn : (c.display.draw c.machine.frame.picture).1 with
    | error reason =>
      rw [keyEvent?_of_undrawn executes drawn, waitKey_of_undrawn (c := c') x drawn]
      rfl
    | ok =>
      rw [keyEvent?_of_drawn executes drawn]
      exact keypad_waitKey_of_drawn (c := c') x drawn

theorem keypad_perform (dialect : Dialect) (c : Console) (step : Step) :
    (c.perform dialect step).2.machine.keypad =
      (c.keyEvent? step).toList.foldl Keypad.meet c.machine.keypad := by
  cases step with
  | cycle => exact keypad_cycle dialect c
  | poll => exact keypad_poll c
  | tick | shutdown => rfl
  | render =>
    show c.render.2.machine.keypad = _
    cases pending : c.machine.frame.pending with
    | true =>
      rw [render_of_pending pending]
      rfl
    | false =>
      rw [render_of_settled pending]
      rfl
  | load program =>
    show (c.load program).2.machine.keypad = _
    unfold load
    split
    · rfl
    · rfl

theorem keypad_after (dialect : Dialect) (c : Console) (steps : List Step) :
    (c.after dialect steps).machine.keypad =
      (c.keyEvents dialect steps).foldl Keypad.meet c.machine.keypad := by
  induction steps generalizing c with
  | nil => rfl
  | cons step rest ih =>
    show ((c.perform dialect step).2.after dialect rest).machine.keypad = _
    rw [ih, keypad_perform, keyEvents, List.foldl_append]

/-! ## Counting polls -/

theorem polls_keyEvents (dialect : Dialect) (c : Console) (steps : List Step) :
    (c.keyEvents dialect steps).countP KeyEvent.isPoll = steps.count .poll := by
  induction steps generalizing c with
  | nil => rfl
  | cons step rest ih =>
    have one : ((c.keyEvent? step).toList.countP KeyEvent.isPoll) = [step].count .poll := by
      cases step with
      | cycle =>
        simp only [keyEvent?]
        split
        · split
          · rfl
          · rfl
        · rfl
      | tick | poll | render | load | shutdown => rfl
    rw [keyEvents, List.countP_append, one, ih, ← List.count_append]
    rfl

theorem isPoll_of_keyEvent? {step : Step} {e : KeyEvent}
    (h : ∀ x, .waitKey x ∉ c.instructions dialect [step]) (happens : c.keyEvent? step = some e) :
    e.isPoll = true := by
  cases step with
  | poll =>
    obtain rfl := Option.some.inj happens
    rfl
  | cycle =>
    cases executes : c.instruction? with
    | none =>
      rw [keyEvent?_of_none executes] at happens
      cases happens
    | some i =>
      have noWait : ∀ x, i ≠ .waitKey x := by
        rintro x rfl
        exact h x (mem_instructions_cycle executes [])
      rw [keyEvent?_of_ne_waitKey executes noWait] at happens
      cases happens
  | tick | render | load | shutdown => cases happens

/-- Where nothing waits for a key, all that happens to the keys are polls. -/
theorem isPoll_of_mem_keyEvents {steps : List Step}
    (h : ∀ x, .waitKey x ∉ c.instructions dialect steps) :
    ∀ e ∈ c.keyEvents dialect steps, e.isPoll = true := by
  induction steps generalizing c with
  | nil =>
    intro e mem
    cases mem
  | cons step rest ih =>
    intro e mem
    rw [instructions_cons] at h
    rcases List.mem_append.mp mem with first | later
    · exact isPoll_of_keyEvent? (fun x mem => h x (List.mem_append_left _ mem))
        (Option.mem_toList.mp first)
    · exact ih (fun x mem => h x (List.mem_append_right _ mem)) e later

/-- The count of a key that no step presses. -/
theorem toNat_count_after (dialect : Dialect) (c : Console) {key : Key} {steps : List Step}
    (h : ∀ e ∈ c.keyEvents dialect steps, e.presses key = false) :
    ((c.after dialect steps).machine.keypad.count key).toNat =
      if (c.keyEvents dialect steps).all KeyEvent.isPoll then
        (c.machine.keypad.count key).toNat - steps.count .poll
      else 0 := by
  rw [keypad_after, Keypad.toNat_count_foldl _ h, polls_keyEvents]

theorem toNat_count_of_presses (dialect : Dialect) {key : Key} {step : Step} {e : KeyEvent}
    (h : c.keyEvent? step = some e) (presses : e.presses key = true) :
    ((c.perform dialect step).2.machine.keypad.count key).toNat = 4 := by
  rw [keypad_perform, h]
  show ((c.machine.keypad.meet e).count key).toNat = 4
  rw [Keypad.toNat_count_meet, if_pos presses]

/-! ## Skips -/

theorem cycle_skip (dialect : Dialect) {i : Instruction} {holds : Bool}
    (executes : c.instruction? = some i) (h : c.machine.skipCondition? i = some holds) :
    (c.cycle dialect).1 = .ok .proceed ∧ (c.cycle dialect).2.machine.skipPending = holds := by
  have noWait : ∀ x, i ≠ .waitKey x := by
    rintro x rfl
    cases h
  obtain ⟨result, machine⟩ := cycle_of_execute executes noWait (Machine.execute_skip h)
  exact ⟨result, congrArg Machine.skipPending machine⟩

end Console

namespace Scheduler

variable {s : Scheduler}

/-! ## Frames -/

/-- The count of a key that the poll at the end of a frame took, `count` frames later. -/
theorem toNat_count_of_typed {key : Key} {count : Nat} (completes : s.Completes (count + 1))
    (typed : (s.console.keyEvents s.dialect s.frameSteps).getLast? = some (.poll (some key)))
    (cycles : Nat)
    (noWait : ∀ x, .waitKey x ∉ s.frame.2.console.instructions s.dialect
      (runSteps count s.frame.2 ++ List.replicate cycles .cycle))
    (notAgain : ∀ e ∈ s.frame.2.console.keyEvents s.dialect
      (runSteps count s.frame.2 ++ List.replicate cycles .cycle), e.presses key = false) :
    (((s.afterFrames (count + 1)).console.after s.dialect
      (List.replicate cycles .cycle)).machine.keypad.count key).toNat = 4 - count := by
  obtain ⟨-, rest⟩ := completes.tail
  obtain ⟨earlier, events⟩ := List.getLast?_eq_some_iff.mp typed
  have down : (s.frame.2.console.machine.keypad.count key).toNat = 4 := by
    rw [← after_frameSteps, Console.keypad_after, events, List.foldl_append]
    show ((Keypad.meet _ (.poll (some key))).count key).toNat = 4
    rw [Keypad.toNat_count_meet, if_pos (by simp [KeyEvent.presses])]
  have polls :
      (runSteps count s.frame.2 ++ List.replicate cycles Step.cycle).count .poll = count := by
    rw [List.count_append, count_runSteps_of_completes rest]
    simp [wholeFrame, List.count_append, List.count_replicate]
  have there : (s.afterFrames (count + 1)).console =
      s.frame.2.console.after s.dialect (runSteps count s.frame.2) := by
    rw [← frame_dialect s, after_runSteps_of_completes rest]
    rfl
  have all := List.all_eq_true.mpr (Console.isPoll_of_mem_keyEvents noWait)
  rw [there, ← Console.after_append, Console.toNat_count_after s.dialect _ notAgain, if_pos all,
    down, polls]

/-- **A key is down for its hold time.** Take any run of a console that has just been switched
on. A key that was never pressed has count zero. Else look at the step that pressed it last:
if a wait for a key came behind it the count is zero again, and otherwise it is four less
the number of polls behind it, whatever these found. The two skips go by this count. So
when the poll at the end of a frame takes a key, and until it is taken again or a wait is
executed, exactly the instructions of the next four frames find it down. -/
theorem key_held (dialect : Dialect) (random : Keystream) (display : Display)
    (keys : KeySource) (log : Log) (steps : List Step) (key : Key) :
    let start := Console.fresh random display keys log
    let c := start.after dialect steps
    ((∀ e ∈ start.keyEvents dialect steps, e.presses key = false) →
      c.machine.keypad.count key = 0) ∧
    (∀ (before : List Step) (step : Step) (later : List Step), steps = before ++ step :: later →
      ∀ e, (start.after dialect before).keyEvent? step = some e → e.presses key = true →
        let events :=
          ((start.after dialect before).perform dialect step).2.keyEvents dialect later
        (∀ e ∈ events, e.presses key = false) →
          (c.machine.keypad.count key).toNat =
            if events.all KeyEvent.isPoll then 4 - later.count .poll else 0) ∧
    (∀ x, c.instruction? = some (.skipIfKey x) →
      (c.cycle dialect).1 = .ok .proceed ∧
        ((c.cycle dialect).2.machine.skipPending = true ↔
          0 < (c.machine.keypad.count (Fin.ofNat 16 (c.machine.register x).toNat)).toNat)) ∧
    (∀ x, c.instruction? = some (.skipUnlessKey x) →
      (c.cycle dialect).1 = .ok .proceed ∧
        ((c.cycle dialect).2.machine.skipPending = true ↔
          (c.machine.keypad.count (Fin.ofNat 16 (c.machine.register x).toNat)).toNat = 0)) ∧
    ∀ (s : Scheduler) (count cycles : Nat),
      s.console = c → s.dialect = dialect → s.Completes (count + 1) →
      (c.keyEvents dialect s.frameSteps).getLast? = some (.poll (some key)) →
      let typed := s.frame.2.console
      let since := runSteps count s.frame.2 ++ List.replicate cycles .cycle
      (∀ x, .waitKey x ∉ typed.instructions dialect since) →
      (∀ e ∈ typed.keyEvents dialect since, e.presses key = false) →
      let now := (s.afterFrames (count + 1)).console.after dialect (List.replicate cycles .cycle)
      (now.machine.keypad.isDown key = true ↔ count + 1 ≤ 4) := by
  intro start c
  have released : (start.machine.keypad.count key).toNat = 0 := by
    have zero : start.machine.keypad.count key = 0 := Keypad.count_released key
    rw [zero]
    rfl
  refine ⟨fun never => ?_, ?_, fun x executes => ?_, fun x executes => ?_, ?_⟩
  · apply UInt8.toNat_inj.mp
    rw [Console.toNat_count_after dialect start never, released, Nat.zero_sub, ite_self]
    rfl
  · rintro before step later rfl e found presses events notAgain
    have there : c = (((start.after dialect before).perform dialect step).2).after dialect later :=
      Console.after_append dialect before (step :: later) start
    rw [there, Console.toNat_count_after dialect _ notAgain,
      Console.toNat_count_of_presses dialect found presses]
  · obtain ⟨result, mark⟩ := Console.cycle_skip dialect executes rfl
    rw [mark]
    exact ⟨result, Keypad.isDown_iff _ _⟩
  · obtain ⟨result, mark⟩ := Console.cycle_skip dialect executes rfl
    refine ⟨result, ?_⟩
    rw [mark, Bool.not_eq_true', ← Bool.not_eq_true, Keypad.isDown_iff, Nat.not_lt, Nat.le_zero]
    rfl
  · rintro s count cycles same rfl completes typed console since noWait notAgain now
    rw [← same] at typed
    have left : (now.machine.keypad.count key).toNat = 4 - count :=
      toNat_count_of_typed completes typed cycles noWait notAgain
    rw [Keypad.isDown_iff, left]
    omega

/-- A program that asks for the key which the first frame's poll took. Four frames later it is
down, and after one more it is not. -/
theorem key_held_for_four_frames :
    let console := (Console.fresh (.ofSeed 0) {} { entries := [some 0x78] } {}).after {}
      [.load [0xE0, 0x9E, 0x12, 0x00, 0x12, 0x00]]
    let s : Scheduler := { console, cycles := 1 }
    s.Completes 5 ∧
      ((s.afterFrames 4).console.machine.keypad.isDown 0 = true ∧
        ¬ (s.afterFrames 5).console.machine.keypad.isDown 0 = true) := by
  intro console s
  let since (count : Nat) : List Step := runSteps count s.frame.2 ++ List.replicate 0 .cycle
  obtain ⟨completes, typed, runs⟩ :
      (∀ k < 5, (s.afterFrames k).frame.1 = .ok .proceed) ∧
      (console.keyEvents {} s.frameSteps).getLast? = some (.poll (some 0)) ∧
      ∀ count ∈ [3, 4],
        (∀ i ∈ s.frame.2.console.instructions {} (since count),
          i ∈ [.jump 0x200, .skipIfKey 0]) ∧
        ∀ e ∈ s.frame.2.console.keyEvents {} (since count), e.presses 0 = false := by
    decide +kernel
  have frames (count next : Nat) (mem : count ∈ [3, 4]) (succ : count + 1 = next)
      (enough : s.Completes next) :
      (s.afterFrames next).console.machine.keypad.isDown 0 = true ↔ next ≤ 4 := by
    subst succ
    obtain ⟨executed, notAgain⟩ := runs count mem
    have noWait : ∀ x, .waitKey x ∉ s.frame.2.console.instructions {} (since count) := by
      intro x wait
      simpa using executed _ wait
    have held := key_held {} (.ofSeed 0) {} { entries := [some 0x78] } {}
      [.load [0xE0, 0x9E, 0x12, 0x00, 0x12, 0x00]] 0
    exact held.2.2.2.2 s count 0 rfl rfl enough typed noWait notAgain
  clear_value s
  have four : s.Completes 4 := Completes.of_le completes (by decide)
  refine ⟨completes, (frames 3 4 (by decide) rfl four).mpr (by decide), fun down => ?_⟩
  exact absurd ((frames 4 5 (by decide) rfl completes).mp down) (by decide)

end Scheduler

end Chip8
