import Chip8.Proofs.KeySources
import Chip8.Proofs.Step

/-!
# Waiting for a key, from its start to its end

A wait shows the picture and then reads codes until one of them ends it. There are two loops
in that, one over the codes and one over the entries of a read that hold none, and what they
come to is told from the list of entries alone: `passed` are those in front that end no wait,
`ahead` begins with the one that does. A source that has run dry gives the exit key.

  * `passed_of_ends`, `passed_of_unmapped` — what a single read takes of both parts.
  * `await_of_works`, `await_of_fails` — the end of a wait, whether all its reads work or one
    of them fails.
  * `calls_await_le` — a wait reads no more often than there are entries, and once more.

`wait_for_key` follows a wait through a cycle.
-/

namespace Chip8

namespace KeySource

/-- Whether an entry ends a wait: it is the exit key or a code that belongs to a key. -/
def endsWait : Option UInt8 → Bool
  | none => false
  | some code => code == exitKey || (Keypad.keyOf? code).isSome

/-- The entries that a wait passes over. -/
def passed (entries : List (Option UInt8)) : List (Option UInt8) :=
  entries.takeWhile fun entry => !endsWait entry

/-- The entry that ends a wait and all entries behind it, if one does. -/
def ahead (entries : List (Option UInt8)) : List (Option UInt8) :=
  entries.dropWhile fun entry => !endsWait entry

/-- How many codes a wait reads: those that it passes over, and one that ends it. -/
def reads (entries : List (Option UInt8)) : Nat := ((passed entries).filterMap id).length + 1

/-- The key with which a wait ends, if it ends with one. -/
def answer? (entries : List (Option UInt8)) : Option Key :=
  (ahead entries).head?.join.bind Keypad.keyOf?

/-! ## One read -/

section
variable {entries : List (Option UInt8)}

theorem passed_of_ends (h : endsWait (some (firstCode entries).1) = true) :
    reads entries = 1 ∧ answer? entries = Keypad.keyOf? (firstCode entries).1 ∧
      (ahead entries).tail = (firstCode entries).2 := by
  fun_induction firstCode entries with
  | case1 => exact ⟨rfl, Keypad.keyOf?_exitKey.symm, rfl⟩
  | case2 rest ih => exact ih h
  | case3 code rest =>
    have none : passed (some code :: rest) = [] := List.takeWhile_cons_of_neg (by simp [h])
    have all : ahead (some code :: rest) = some code :: rest :=
      List.dropWhile_cons_of_neg (by simp [h])
    rw [reads, answer?, none, all]
    exact ⟨rfl, rfl, rfl⟩

theorem passed_of_unmapped (h : endsWait (some (firstCode entries).1) = false) :
    reads entries = reads (firstCode entries).2 + 1 ∧
      ahead entries = ahead (firstCode entries).2 := by
  fun_induction firstCode entries with
  | case1 => cases h
  | case2 rest ih => exact ih h
  | case3 code rest =>
    have more : passed (some code :: rest) = some code :: passed rest :=
      List.takeWhile_cons_of_pos (by simp [h])
    have same : ahead (some code :: rest) = ahead rest :=
      List.dropWhile_cons_of_pos (by simp [h])
    rw [reads, more, same]
    exact ⟨rfl, rfl⟩

/-- What stands first ahead ends the wait. -/
theorem ahead_cases (entries : List (Option UInt8)) :
    (ahead entries = [] ∧ answer? entries = none) ∨
      (∃ left, ahead entries = some exitKey :: left ∧ answer? entries = none) ∨
      ∃ code key left, ahead entries = some code :: left ∧ Keypad.keyOf? code = some key ∧
        answer? entries = some key := by
  have first := List.head?_dropWhile_not (fun entry => !endsWait entry) entries
  unfold answer? ahead
  revert first
  rcases entries.dropWhile (fun entry => !endsWait entry) with _ | ⟨_ | code, left⟩ <;> intro first
  · exact .inl ⟨rfl, rfl⟩
  · cases first
  · right
    have ends : ¬ code = exitKey → (Keypad.keyOf? code).isSome = true := by
      simpa [endsWait] using first
    by_cases isExit : code = exitKey
    · subst isExit
      exact .inl ⟨left, rfl, Keypad.keyOf?_exitKey⟩
    · obtain ⟨key, mapped⟩ := Option.isSome_iff_exists.mp (ends isExit)
      exact .inr ⟨code, key, left, rfl, mapped, mapped⟩

theorem reads_le (entries : List (Option UInt8)) : reads entries ≤ entries.length + 1 := by
  have codes := List.length_filterMap_le id (passed entries)
  have front : (passed entries).length ≤ entries.length :=
    (List.takeWhile_prefix _).length_le
  rw [reads]
  omega

end

variable {s s' : KeySource} {code : UInt8}

theorem nextFault_of_failed_read {reason : String} (h : s.read = (.error reason, s')) :
    s.nextFault = some reason := by
  unfold read at h
  split at h
  · next fault =>
    obtain rfl := Except.error.inj (congrArg Prod.fst h)
    exact fault
  · cases h

theorem eq_of_read (h : s.read = (.ok code, s')) :
    s.nextFault = none ∧ code = (firstCode s.entries).1 ∧
      s' = { s with entries := (firstCode s.entries).2, calls := s.calls + 1 } := by
  unfold read at h
  split at h
  · cases h
  · next works =>
    obtain ⟨result, rfl⟩ := Prod.mk.inj h
    exact ⟨works, (Except.ok.inj result).symm, rfl⟩

/-- The read that ends a wait. -/
theorem last_read (h : s.read = (.ok code, s')) (ends : endsWait (some code) = true) :
    reads s.entries = 1 ∧ answer? s.entries = Keypad.keyOf? code ∧
      (ahead s.entries).tail = s'.entries := by
  obtain ⟨-, rfl, rfl⟩ := eq_of_read h
  exact passed_of_ends ends

/-- A read that does not end it; the next one has one call less before it. -/
theorem read_on (h : s.read = (.ok code, s')) (other : code ≠ exitKey)
    (unmapped : Keypad.keyOf? code = none) :
    reads s.entries = reads s'.entries + 1 ∧ ahead s.entries = ahead s'.entries ∧
      ∀ k, s'.faultAt (s'.calls + 1 + k) = s.faultAt (s.calls + 1 + (k + 1)) := by
  have passes : endsWait (some code) = false := by simp [endsWait, other, unmapped]
  obtain ⟨-, rfl, rfl⟩ := eq_of_read h
  obtain ⟨more, same⟩ := passed_of_unmapped passes
  refine ⟨more, same, fun k => ?_⟩
  show s.faultAt (s.calls + 1 + 1 + k) = _
  congr 1
  omega

theorem endsWait_exitKey : endsWait (some exitKey) = true := rfl

theorem endsWait_of_key {key : Key} (mapped : Keypad.keyOf? code = some key) :
    endsWait (some code) = true := by
  simp [endsWait, mapped]

/-! ## A whole wait -/

theorem await_of_works (s : KeySource)
    (works : ∀ k < reads s.entries, s.faultAt (s.calls + 1 + k) = none) :
    s.await.result = .ok (answer? s.entries) ∧
      s.await.source.entries = (ahead s.entries).tail := by
  induction s using await_induction with
  | error read =>
    cases (nextFault_of_failed_read read).symm.trans (works 0 (Nat.succ_pos _))
  | exit read =>
    obtain ⟨-, answer, left⟩ := last_read read endsWait_exitKey
    rw [answer, left, Keypad.keyOf?_exitKey]
    exact ⟨rfl, rfl⟩
  | key read _ mapped =>
    obtain ⟨-, answer, left⟩ := last_read read (endsWait_of_key mapped)
    rw [answer, left, mapped]
    exact ⟨rfl, rfl⟩
  | unmapped read other unmapped ih =>
    obtain ⟨more, same, fault⟩ := read_on read other unmapped
    rw [answer?, same]
    refine ih fun k lt => ?_
    rw [fault]
    exact works (k + 1) (more ▸ Nat.succ_lt_succ lt)

/-- A wait fails with the first of its reads that does. -/
theorem await_of_fails (s : KeySource) {k : Nat} {reason : String} (lt : k < reads s.entries)
    (before : ∀ j < k, s.faultAt (s.calls + 1 + j) = none)
    (fails : s.faultAt (s.calls + 1 + k) = some reason) : s.await.result = .error reason := by
  induction s using await_induction generalizing k with
  | error read =>
    have first := nextFault_of_failed_read read
    cases k with
    | zero => exact congrArg Except.error (Option.some.inj (first.symm.trans fails))
    | succ k =>
      have worked := before 0 (Nat.succ_pos k)
      cases first.symm.trans worked
  | exit read =>
    obtain ⟨one, -⟩ := last_read read endsWait_exitKey
    obtain rfl : k = 0 := by omega
    cases (eq_of_read read).1.symm.trans fails
  | key read _ mapped =>
    obtain ⟨one, -⟩ := last_read read (endsWait_of_key mapped)
    obtain rfl : k = 0 := by omega
    cases (eq_of_read read).1.symm.trans fails
  | unmapped read other unmapped ih =>
    obtain ⟨more, -, fault⟩ := read_on read other unmapped
    cases k with
    | zero => cases (eq_of_read read).1.symm.trans fails
    | succ k =>
      refine ih (Nat.lt_of_succ_lt_succ (more ▸ lt)) (fun j lt' => ?_) ?_
      · rw [fault]
        exact before (j + 1) (Nat.succ_lt_succ lt')
      · rw [fault]
        exact fails

theorem calls_await_le (s : KeySource) : s.await.source.calls ≤ s.calls + reads s.entries := by
  induction s using await_induction with
  | error read | exit read | key read =>
    rw [calls_of_read read]
    exact Nat.add_le_add_left (Nat.succ_pos _) _
  | unmapped read other unmapped ih =>
    obtain ⟨more, -⟩ := read_on read other unmapped
    rw [calls_of_read read] at ih
    rw [more]
    exact Nat.le_trans ih (by omega)

end KeySource

namespace Machine

theorem register_answered (m : Machine) (x r : Register) (key : Key) :
    (m.answered x key).register r = if r = x then UInt8.ofNat key.val else m.register r :=
  register_setRegister _ x r _

theorem count_answered (m : Machine) (x : Register) (key other : Key) :
    (m.answered x key).keypad.count other = if other = key then 4 else 0 := by
  show (Keypad.released.press key).count other = _
  rw [Keypad.count_press, Keypad.count_released]
  simp only [eq_comm]
  rfl

end Machine

namespace Console

open KeySource (endsWait passed ahead reads answer?)

section
variable (c : Console) (x : Register)

/-- The one drawing of a wait, and the reads that come after it. -/
theorem waitKey_shows (drawn : (c.display.draw c.machine.frame.picture).1 = .ok ()) :
    let after := (c.waitKey x).2
    after.display.shown = c.machine.frame.picture :: c.display.shown ∧
      after.display.draws = c.display.draws + 1 ∧
      after.machine.frame = c.machine.frame.shown ∧
      after.machine.delayTimer = 0 ∧ after.machine.soundTimer = 0 ∧
      ∃ count ≤ c.keys.entries.length + 1,
        after.calls = List.replicate count .read ++ .draw :: c.calls := by
  intro after
  have most := KeySource.calls_await_le c.keys
  have fewer := KeySource.reads_le c.keys.entries
  have timers : after.machine.delayTimer = 0 ∧ after.machine.soundTimer = 0 := by
    show (c.waitKey x).2.machine.delayTimer = 0 ∧ (c.waitKey x).2.machine.soundTimer = 0
    rw [machine_waitKey_of_drawn x drawn]
    split
    · exact ⟨rfl, rfl⟩
    · exact ⟨rfl, rfl⟩
  obtain ⟨_, machine, _, frame, done⟩ := waitKey_of_drawn x drawn
  have ended : after = _ := congrArg Prod.snd done
  refine ⟨?_, ?_, ?_, timers.1, timers.2, c.keys.await.source.calls - c.keys.calls, by omega, ?_⟩
  · rw [ended]
    exact Display.shown_draw drawn
  · rw [ended]
    exact Display.draws_draw _ _
  · rw [ended]
    exact frame
  · rw [ended]

theorem keys_waitKey_of_drawn (drawn : (c.display.draw c.machine.frame.picture).1 = .ok ()) :
    (c.waitKey x).2.keys = c.keys.await.source := by
  obtain ⟨_, _, _, -, done⟩ := waitKey_of_drawn x drawn
  rw [done]

theorem waitKey_of_works (drawn : (c.display.draw c.machine.frame.picture).1 = .ok ())
    (works : ∀ k < reads c.keys.entries, c.keys.faultAt (c.keys.calls + 1 + k) = none) :
    (c.waitKey x).2.keys.entries = (ahead c.keys.entries).tail ∧
      match answer? c.keys.entries with
      | none => (c.waitKey x).1 = .ok .exit ∧ (c.waitKey x).2.machine = c.machine.waiting
      | some key =>
        (c.waitKey x).1 = .ok .proceed ∧ (c.waitKey x).2.machine = c.machine.answered x key := by
  obtain ⟨result, left⟩ := KeySource.await_of_works c.keys works
  rw [c.keys_waitKey_of_drawn x drawn, left, result_waitKey_of_drawn x drawn,
    machine_waitKey_of_drawn x drawn, result]
  refine ⟨rfl, ?_⟩
  cases answer? c.keys.entries with
  | none => exact ⟨rfl, rfl⟩
  | some key => exact ⟨rfl, rfl⟩

theorem waitKey_of_fails (drawn : (c.display.draw c.machine.frame.picture).1 = .ok ()) {k : Nat}
    {reason : String} (lt : k < reads c.keys.entries)
    (worked : ∀ j < k, c.keys.faultAt (c.keys.calls + 1 + j) = none)
    (fails : c.keys.faultAt (c.keys.calls + 1 + k) = some reason) :
    (c.waitKey x).1 = .error (.device reason) ∧
      (c.waitKey x).2.machine = c.machine.waiting := by
  rw [result_waitKey_of_drawn x drawn, machine_waitKey_of_drawn x drawn,
    KeySource.await_of_fails c.keys lt worked fails]
  exact ⟨rfl, rfl⟩

end

/-- **A wait for a key, from its start to its end.** If the picture cannot be shown, the cycle
fails and only the fetch has happened. Otherwise it is shown once, pending or not, no change is
pending, both timers stand at zero and the codes are read; there are at most as many reads as
entries, and one more. If they all work, the entries are taken up to the first that holds the
exit key or a key's code, and that one is taken too: a key's code puts the key into VX and
makes it the one key that is down, the exit key, or a source that runs dry, ends the run and
leaves VX alone. If a read fails the cycle does, with VX as it was and no key down. -/
theorem wait_for_key (dialect : Dialect) (c : Console) (x : Register)
    (executes : c.instruction? = some (.waitKey x)) :
    let m := c.machine
    let entries := c.keys.entries
    let fetched :=
      { m with counter := m.nextAddress + 2, skipPending := false, lastWord := m.nextWord }
    let drawn := (c.display.draw m.frame.picture).1
    let outcome := c.cycle dialect
    let after := outcome.2
    let fault (k : Nat) := c.keys.faultAt (c.keys.calls + 1 + k)
    let reads := ((entries.takeWhile fun e => !endsWait e).filterMap id).length + 1
    let ahead := entries.dropWhile fun e => !endsWait e
    let exits :=
      outcome.1 = .ok .exit ∧ after.machine.registers = m.registers ∧
        after.machine.keypad = .released
    (∀ reason, drawn = .error reason →
      outcome.1 = .error (.device reason) ∧ after.machine = fetched ∧ after.keys = c.keys ∧
        after.calls = .draw :: c.calls) ∧
    (drawn = .ok () →
      (after.display.shown = m.frame.picture :: c.display.shown ∧
        after.display.draws = c.display.draws + 1 ∧
        after.machine.frame = { m.frame with pending := false } ∧
        after.machine.delayTimer = 0 ∧ after.machine.soundTimer = 0 ∧
        ∃ count ≤ entries.length + 1,
          after.calls = List.replicate count .read ++ .draw :: c.calls) ∧
      ((∀ k < reads, fault k = none) →
        (ahead = [] ∧ after.keys.entries = [] ∧ exits) ∨
        (∃ left, ahead = some exitKey :: left ∧ after.keys.entries = left ∧ exits) ∨
        (∃ code key left, ahead = some code :: left ∧ Keypad.keyOf? code = some key ∧
          after.keys.entries = left ∧ outcome.1 = .ok .proceed ∧
          (∀ r, after.machine.register r =
            if r = x then UInt8.ofNat key.val else m.register r) ∧
          ∀ other, after.machine.keypad.count other = if other = key then 4 else 0)) ∧
      (∀ k < reads, ∀ reason, (∀ j < k, fault j = none) → fault k = some reason →
        outcome.1 = .error (.device reason) ∧ after.machine.registers = m.registers ∧
          after.machine.keypad = .released)) := by
  intro m entries fetched drawn outcome after fault reads ahead exits
  obtain ⟨bounds, word⟩ := instruction?_eq_some_iff.mp executes
  obtain ⟨log, cycle⟩ := cycle_waitKey dialect bounds word
  -- all but the place in the program and the log is as it was when the wait begins
  let before : Console := { c with machine := c.machine.taken, log }
  change outcome = before.waitKey x at cycle
  clear_value outcome
  subst cycle
  refine ⟨fun reason undrawn => ?_, fun shown => ⟨?_, fun works => ?_, ?_⟩⟩
  · have undone : before.waitKey x = _ := waitKey_of_undrawn x undrawn
    exact ⟨(congrArg Prod.fst undone :), (congrArg (·.2.machine) undone :),
      (congrArg (·.2.keys) undone :), (congrArg (·.2.calls) undone :)⟩
  · exact before.waitKey_shows x shown
  · obtain ⟨taken, ends⟩ := before.waitKey_of_works x shown works
    rcases KeySource.ahead_cases entries with ⟨first, answer⟩ | ⟨left, first, answer⟩ |
      ⟨code, key, left, first, mapped, answer⟩
    all_goals
      rw [show answer? before.keys.entries = _ from answer] at ends
      rw [show KeySource.ahead before.keys.entries = _ from first] at taken
      obtain ⟨result, machine⟩ := ends
    · exact .inl ⟨first, taken, result, (congrArg Machine.registers machine :),
        (congrArg Machine.keypad machine :)⟩
    · exact .inr (.inl ⟨left, first, taken, result, (congrArg Machine.registers machine :),
        (congrArg Machine.keypad machine :)⟩)
    · refine .inr (.inr
        ⟨code, key, left, first, mapped, taken, result, fun r => ?_, fun other => ?_⟩)
      · show (before.waitKey x).2.machine.register r = _
        rw [machine]
        exact Machine.register_answered _ x r key
      · show (before.waitKey x).2.machine.keypad.count other = _
        rw [machine]
        exact Machine.count_answered _ x key other
  · intro k lt reason worked fails
    obtain ⟨failed, machine⟩ := before.waitKey_of_fails x shown lt worked fails
    exact ⟨failed, (congrArg Machine.registers machine :), (congrArg Machine.keypad machine :)⟩

/-- A wait that passes over nothing and a code of no key, takes the key `F` and leaves the exit
key; and the same wait with a second read that fails. -/
theorem wait_for_key_behind_unmapped :
    let entries := [none, some 0x70, some 0x76, some exitKey]
    let start (faultAt : Nat → Option String) :=
      (fresh (.ofSeed 0) {} { entries, faultAt } {}).after {} [.load [0xF3, 0x0A]]
    let works := start fun _ => none
    let fails := start fun k => if k = 2 then some "input failed" else none
    (works.instruction? = some (.waitKey 3) ∧
      (works.display.draw works.machine.frame.picture).1 = .ok () ∧
      (works.cycle {}).1 = .ok .proceed ∧ (works.cycle {}).2.machine.register 3 = 15 ∧
      (works.cycle {}).2.keys.entries = [some exitKey]) ∧
    (fails.instruction? = some (.waitKey 3) ∧
      (fails.cycle {}).1 = .error (.device "input failed") ∧
      (fails.cycle {}).2.machine.keypad = .released) := by
  intro entries start works fails
  have found : (works.keys.entries.dropWhile fun e => !endsWait e) = [some 0x76, some exitKey] := by
    decide +kernel
  have mapped : Keypad.keyOf? 0x76 = some 0xF := by decide
  have faults (k : Nat) : fails.keys.faultAt (fails.keys.calls + 1 + k) =
      if 1 + k = 2 then some "input failed" else none := rfl
  obtain ⟨executes, executes', drawn, drawn', passes⟩ :
      works.instruction? = some (.waitKey 3) ∧ fails.instruction? = some (.waitKey 3) ∧
      (works.display.draw works.machine.frame.picture).1 = .ok () ∧
      (fails.display.draw fails.machine.frame.picture).1 = .ok () ∧
      1 < ((fails.keys.entries.takeWhile fun e => !endsWait e).filterMap id).length + 1 := by
    decide +kernel
  have answered := ((wait_for_key {} works 3 executes).2 drawn).2.1 fun _ _ => rfl
  have failed := ((wait_for_key {} fails 3 executes').2 drawn').2.2 1 passes "input failed"
  clear_value works fails
  refine ⟨⟨executes, drawn, ?_⟩, executes', ?_⟩
  · rcases answered with ⟨none, -⟩ | ⟨left, exit, -⟩ |
      ⟨code, key, left, first, isKey, rest, result, registers, -⟩
    · rw [found] at none
      cases none
    · rw [found] at exit
      cases exit
    · rw [found] at first
      injection first with code_eq left_eq
      obtain rfl := Option.some.inj code_eq
      obtain rfl := Option.some.inj (mapped.symm.trans isKey)
      refine ⟨result, ?_, rest.trans left_eq.symm⟩
      rw [registers 3]
      rfl
  · have worked (j : Nat) (lt : j < 1) :
        fails.keys.faultAt (fails.keys.calls + 1 + j) = none := by
      obtain rfl : j = 0 := by omega
      exact faults 0
    obtain ⟨result, -, released⟩ := failed worked (faults 1)
    exact ⟨result, released⟩

end Console

end Chip8
