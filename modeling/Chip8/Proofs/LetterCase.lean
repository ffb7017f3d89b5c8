import Mathlib.Data.List.Forall2
import Chip8.Proofs.Run
import Chip8.Proofs.TypedKeys
import Chip8.Scheduler

/-!
# Keys in the other case

A letter is one key whether it is typed small or as a capital: both give one code. The exception
is control-c, which asks to stop if the letter is small and counts as the key of that letter if it
is a capital one. Events are any values of their type here, as they are for the function that takes
codes from them. Of those that bytes stand for none is control with a capital letter, so that at a
terminal the exception cannot be met by typing.

  * `Event.code?_otherCase_iff` — one event: turning its letter changes nothing, unless the event
    is control-c.
  * `Event.Retyped` — an event that may have its letter turned; `Move.Retyped`, the same for
    what a reader of keys goes through, and `KeyReader.Alike` for the readers.
  * `alike_poll`, `alike_read` — one call gives the same code to both; `deliver_eq`, so do all
    calls, whenever the events are reported.

`letter_case_of_keys` adds the runs, and says what becomes of control-c.
-/

namespace Chip8

namespace Terminal

/-! ## One letter -/

/-- An ASCII letter in the other case; any other character stays. -/
def otherCase (c : Char) : Char := if c.isUpper then c.toLower else c.toUpper

theorem toNat_toLower (c : Char) :
    c.toLower.toNat = if 65 ≤ c.toNat ∧ c.toNat ≤ 90 then c.toNat + 32 else c.toNat := by
  have same : c.val ≥ 'A'.val ∧ c.val ≤ 'Z'.val ↔ 65 ≤ c.toNat ∧ c.toNat ≤ 90 := Iff.rfl
  unfold Char.toLower
  by_cases upper : c.val ≥ 'A'.val ∧ c.val ≤ 'Z'.val
  · rw [dif_pos upper, if_pos (same.mp upper)]
    have bounds := same.mp upper
    show (c.val + 32).toNat = c.val.toNat + 32
    rw [UInt32.toNat_add]
    show (c.toNat + 32) % 4294967296 = c.toNat + 32
    omega
  · rw [dif_neg upper, if_neg fun h => upper (same.mpr h)]

theorem toNat_toUpper (c : Char) :
    c.toUpper.toNat = if 97 ≤ c.toNat ∧ c.toNat ≤ 122 then c.toNat - 32 else c.toNat := by
  have same : 'a'.val ≤ c.val ∧ c.val ≤ 'z'.val ↔ 97 ≤ c.toNat ∧ c.toNat ≤ 122 := Iff.rfl
  unfold Char.toUpper
  by_cases small : 'a'.val ≤ c.val ∧ c.val ≤ 'z'.val
  · rw [dif_pos small, if_pos (same.mp small)]
    have bounds := same.mp small
    show (c.val + ('A'.val - 'a'.val)).toNat = c.val.toNat - 32
    rw [UInt32.toNat_add]
    show (c.toNat + 4294967264) % 4294967296 = c.toNat - 32
    omega
  · rw [dif_neg small, if_neg fun h => small (same.mpr h)]

theorem toNat_otherCase (c : Char) :
    (otherCase c).toNat =
      if 65 ≤ c.toNat ∧ c.toNat ≤ 90 then c.toNat + 32
      else if 97 ≤ c.toNat ∧ c.toNat ≤ 122 then c.toNat - 32
      else c.toNat := by
  have upper : c.isUpper = true ↔ 65 ≤ c.toNat ∧ c.toNat ≤ 90 := decide_eq_true_iff
  unfold otherCase
  by_cases capital : c.isUpper = true
  · rw [if_pos capital, toNat_toLower]
    simp only [if_pos (upper.mp capital)]
  · rw [if_neg capital, toNat_toUpper, if_neg fun h => capital (upper.mpr h)]

theorem toLower_otherCase (c : Char) : (otherCase c).toLower = c.toLower := by
  rw [← Char.toNat_inj, toNat_toLower, toNat_toLower, toNat_otherCase]
  split_ifs <;> omega

theorem isAscii_otherCase (c : Char) : isAscii (otherCase c) = isAscii c := by
  rw [isAscii, isAscii, decide_eq_decide, toNat_otherCase]
  split_ifs <;> omega

theorem toLower_eq_c_iff (c : Char) : c.toLower = 'c' ↔ c = 'c' ∨ c = 'C' := by
  have small : 'c'.toNat = 99 := rfl
  have capital : 'C'.toNat = 67 := rfl
  rw [← Char.toNat_inj, ← Char.toNat_inj, ← Char.toNat_inj, toNat_toLower, small, capital]
  split <;> omega

/-! ## One event -/

namespace Event

/-- The event with its letter in the other case and the same modifiers. -/
def otherCase : Event → Event
  | .key (.character c) modifiers => .key (.character (Terminal.otherCase c)) modifiers
  | e => e

/-- Whether an event is control-c, the letter small or a capital one. -/
def isControlC : Event → Bool
  | .key (.character c) modifiers => modifiers.control && c.toLower == 'c'
  | _ => false

theorem code?_character {c : Char} {modifiers : Modifiers}
    (h : c ≠ 'c' ∨ modifiers.control = false) :
    code? (.key (.character c) modifiers) =
      if isAscii c then some (UInt8.ofNat c.toLower.toNat) else none := by
  refine if_neg fun both => ?_
  rcases h with other | free
  · exact other both.1
  · exact Bool.false_ne_true (free.symm.trans both.2)

theorem code?_small_controlC {modifiers : Modifiers} (held : modifiers.control = true) :
    code? (.key (.character 'c') modifiers) = some exitKey :=
  if_pos ⟨rfl, held⟩

/-- A capital c is the key of that letter, control or not. -/
theorem code?_capital_c (modifiers : Modifiers) :
    code? (.key (.character 'C') modifiers) = some 0x63 := by
  rw [code?_character (.inl (by decide))]
  rfl

theorem code?_otherCase_of_free {c : Char} {modifiers : Modifiers}
    (free : isControlC (.key (.character c) modifiers) = false) :
    code? (.key (.character (Terminal.otherCase c)) modifiers) =
      code? (.key (.character c) modifiers) := by
  -- neither of the two letters is the small one that asks to stop
  have passed (d : Char) (same : d.toLower = c.toLower) :
      d ≠ 'c' ∨ modifiers.control = false := by
    by_cases held : modifiers.control = true
    · left
      rintro rfl
      exact Bool.false_ne_true
        (free.symm.trans (Bool.and_eq_true_iff.mpr ⟨held, beq_iff_eq.mpr same.symm⟩))
    · exact .inr (Bool.eq_false_iff.mpr held)
  rw [code?_character (passed _ (toLower_otherCase c)), code?_character (passed c rfl),
    isAscii_otherCase, toLower_otherCase]

theorem code?_otherCase_ne {c : Char} {modifiers : Modifiers}
    (controlC : isControlC (.key (.character c) modifiers) = true) :
    code? (.key (.character (Terminal.otherCase c)) modifiers) ≠
      code? (.key (.character c) modifiers) := by
  obtain ⟨held, letter⟩ := Bool.and_eq_true_iff.mp controlC
  -- one of the two letters is small and asks to stop, the other is a key
  rcases (toLower_eq_c_iff c).mp (eq_of_beq letter) with rfl | rfl
  · show code? (.key (.character 'C') modifiers) ≠ _
    rw [code?_capital_c, code?_small_controlC held]
    decide
  · show code? (.key (.character 'c') modifiers) ≠ _
    rw [code?_capital_c, code?_small_controlC held]
    decide

/-- Turning the letter of an event keeps its code, unless the event is control-c. -/
theorem code?_otherCase_iff (e : Event) : e.otherCase.code? = e.code? ↔ e.isControlC = false := by
  cases e with
  | mouse | resize | cursor => exact ⟨fun _ => rfl, fun _ => rfl⟩
  | key name modifiers =>
    cases name with
    | character c =>
      refine ⟨fun same => ?_, code?_otherCase_of_free⟩
      exact Bool.eq_false_iff.mpr fun controlC => code?_otherCase_ne controlC same
    | _ => exact ⟨fun _ => rfl, fun _ => rfl⟩

/-- The second event is the first one, or this with its letter turned. Control-c stays. -/
inductive Retyped : Event → Event → Prop
  | same (e : Event) : Retyped e e
  | turned {e : Event} : e.isControlC = false → Retyped e e.otherCase

theorem Retyped.code?_eq {e e' : Event} (h : e.Retyped e') : e.code? = e'.code? := by
  cases h with
  | same => rfl
  | turned free => exact (e.code?_otherCase_iff.mpr free).symm

theorem forall₂_retyped_refl (events : List Event) : List.Forall₂ Retyped events events :=
  List.forall₂_same.mpr fun e _ => .same e

end Event

/-! ## A reader of keys -/

/-- What a reader of keys goes through. -/
inductive Move where
  /-- The terminal reports an event. -/
  | report (e : Event)
  /-- Bytes are typed. -/
  | type (bytes : List UInt8)
  | poll
  | read

/-- The same move, but for the letter of an event that is reported. -/
inductive Move.Retyped : Move → Move → Prop
  | same (move : Move) : Retyped move move
  | report {e e' : Event} : e.Retyped e' → Retyped (.report e) (.report e')

namespace KeyReader

variable {r r' : KeyReader}

/-- The reader with one more event. -/
def report (r : KeyReader) (e : Event) : KeyReader := { r with events := r.events ++ [e] }

/-- What the polls and reads among some moves find. -/
def deliver : KeyReader → List Move → List (Option UInt8)
  | _, [] => []
  | r, .report e :: moves => (r.report e).deliver moves
  | r, .type bytes :: moves => (r.type bytes).deliver moves
  | r, .poll :: moves => r.poll.1 :: r.poll.2.deliver moves
  | r, .read :: moves => r.read.1 :: r.read.2.deliver moves

/-- Two readers that differ in the letters of their events alone. -/
def Alike (r r' : KeyReader) : Prop :=
  ∃ events, List.Forall₂ Event.Retyped r.events events ∧ r' = { r with events }

theorem Alike.refl (r : KeyReader) : r.Alike r :=
  ⟨r.events, Event.forall₂_retyped_refl r.events, rfl⟩

theorem Alike.report (alike : r.Alike r') {e e' : Event} (h : e.Retyped e') :
    (r.report e).Alike (r'.report e') := by
  obtain ⟨events, turned, rfl⟩ := alike
  exact ⟨events ++ [e'], List.rel_append turned (.cons h .nil), rfl⟩

theorem Alike.type (alike : r.Alike r') (bytes : List UInt8) :
    (r.type bytes).Alike (r'.type bytes) := by
  obtain ⟨events, turned, rfl⟩ := alike
  exact ⟨events, turned, rfl⟩

theorem alike_poll (alike : r.Alike r') : r.poll.1 = r'.poll.1 ∧ r.poll.2.Alike r'.poll.2 := by
  obtain ⟨typed, notice, held, events, raw⟩ := r
  obtain ⟨_, turned, rfl⟩ := alike
  cases turned with
  -- without an event both take up the same bytes
  | nil => exact ⟨rfl, .refl _⟩
  | cons first rest => exact ⟨first.code?_eq, _, rest, rfl⟩

theorem firstCode_retyped {events events' : List Event}
    (h : List.Forall₂ Event.Retyped events events') :
    (firstCode events).1 = (firstCode events').1 ∧
      List.Forall₂ Event.Retyped (firstCode events).2 (firstCode events').2 := by
  induction h with
  | nil => exact ⟨rfl, .nil⟩
  | @cons e e' rest rest' first others ih =>
    unfold firstCode
    rw [← first.code?_eq]
    cases e.code? with
    | some code => exact ⟨rfl, others⟩
    | none => exact ih

theorem read_of_code {code : UInt8} {left : List Event}
    (h : firstCode r.events = (some code, left)) :
    r.read = (some code, { r with events := left }) := by
  rw [read, h]

theorem read_of_no_code (h : (firstCode r.events).1 = none) :
    r.read =
      let next := { r with events := [] }.takeUp
      if next.typed.length < r.typed.length then next.read else (none, next) := by
  rw [read]
  split
  · next code left found =>
    rw [found] at h
    cases h
  · rfl

theorem alike_read (alike : r.Alike r') : r.read.1 = r'.read.1 ∧ r.read.2.Alike r'.read.2 := by
  obtain ⟨events, turned, rfl⟩ := alike
  obtain ⟨code, left⟩ := firstCode_retyped turned
  cases found : (firstCode r.events).1 with
  | some first =>
    rw [read_of_code (Prod.ext found rfl), read_of_code (Prod.ext (code.symm.trans found) rfl)]
    exact ⟨rfl, _, left, rfl⟩
  | none =>
    -- both drop their events and take up the same bytes
    have same : ({ r with events } : KeyReader).read = r.read := by
      rw [read_of_no_code found, read_of_no_code (code.symm.trans found)]
    rw [same]
    exact ⟨rfl, .refl _⟩

theorem deliver_eq {moves moves' : List Move} (h : List.Forall₂ Move.Retyped moves moves')
    (alike : r.Alike r') : r.deliver moves = r'.deliver moves' := by
  induction h generalizing r r' with
  | nil => rfl
  | @cons move _ _ _ first _ ih =>
    cases first with
    | report retyped => exact ih (alike.report retyped)
    | same =>
      cases move with
      | report e => exact ih (alike.report (.same e))
      | type bytes => exact ih (alike.type bytes)
      | poll =>
        obtain ⟨code, after⟩ := alike_poll alike
        rw [deliver, deliver, code, ih after]
      | read =>
        obtain ⟨code, after⟩ := alike_read alike
        rw [deliver, deliver, code, ih after]

end KeyReader

end Terminal

open Terminal

/-! ## Runs -/

/-- The console where the coming polls find these events, or nothing. -/
def Console.polling (c : Console) (stream : List (Option Event)) : Console :=
  { c with keys := { c.keys with entries := stream.map (·.bind Event.code?) } }

/-- A run where the coming polls find these events, or nothing. -/
def Scheduler.polling (s : Scheduler) (stream : List (Option Event)) : Scheduler :=
  { s with console := s.console.polling stream }

namespace Console

theorem polling_eq (c : Console) {stream stream' : List (Option Event)}
    (h : List.Forall₂ (Option.Rel Event.Retyped) stream stream') :
    c.polling stream = c.polling stream' := by
  have codes : stream.map (·.bind Event.code?) = stream'.map (·.bind Event.code?) := by
    induction h with
    | nil => rfl
    | cons first _ ih =>
      rw [List.map_cons, List.map_cons, ih]
      cases first with
      | none => rfl
      | some retyped => exact congrArg (· :: _) retyped.code?_eq
  rw [polling, polling, codes]

theorem poll_polling (c : Console) {e : Event} {code : UInt8} (rest : List (Option Event))
    (works : c.keys.nextFault = none) (coded : e.code? = some code) :
    (c.polling (some e :: rest)).keys.poll.1 = .ok (some code) := by
  have works' : (c.polling (some e :: rest)).keys.nextFault = none := works
  rw [KeySource.poll, works']
  exact congrArg Except.ok coded

theorem poll_of_exitKey {c : Console} (found : c.keys.poll.1 = .ok (some exitKey)) :
    c.poll.1 = .ok .exit := by
  unfold poll
  rcases polled : c.keys.poll with ⟨result, keys⟩
  rw [polled] at found
  obtain rfl : result = _ := found
  rfl

theorem poll_of_key {c : Console} {code : UInt8} {key : Key}
    (found : c.keys.poll.1 = .ok (some code)) (other : code ≠ exitKey)
    (mapped : Keypad.keyOf? code = some key) :
    c.poll.1 = .ok .proceed ∧
      c.poll.2.machine.keypad = c.machine.keypad.age.press key := by
  unfold poll
  rcases polled : c.keys.poll with ⟨result, keys⟩
  rw [polled] at found
  obtain rfl : result = _ := found
  simp only [if_neg other, mapped, true_and]

end Console

namespace Terminal

/-- **The case of letters.** Turning the letter of an event, its modifiers kept, changes the code
that it gives exactly if the event is control-c. So a reader of keys delivers the same codes,
whenever it is polled and read, and a run is the same from its first frame to its end. Control
with a small c asks to stop; with a capital one it is the key of that letter. The events are any
that there are, whether bytes stand for them or not; no bytes stand for the last one
(`KeyReader.isControlCapital_of_mem_eventsOf`). -/
theorem letter_case_of_keys (e : Event) (r : KeyReader) (s : Scheduler) :
    (e.otherCase.code? = e.code? ↔ e.isControlC = false) ∧
    (∀ moves moves' : List Move, List.Forall₂ Move.Retyped moves moves' →
      r.deliver moves = r.deliver moves') ∧
    (∀ (stream stream' : List (Option Event)) (limit : Nat),
      List.Forall₂ (Option.Rel Event.Retyped) stream stream' →
      (s.polling stream).run limit = (s.polling stream').run limit) ∧
    ∀ (modifiers : Modifiers) (rest : List (Option Event)),
      modifiers.control = true → s.console.keys.nextFault = none →
      let small := s.console.polling (some (.key (.character 'c') modifiers) :: rest)
      let capital := s.console.polling (some (.key (.character 'C') modifiers) :: rest)
      small.poll.1 = .ok .exit ∧ capital.poll.1 = .ok .proceed ∧
        capital.poll.2.machine.keypad = s.console.machine.keypad.age.press 0xB := by
  refine ⟨e.code?_otherCase_iff, fun moves moves' h => ?delivered,
    fun stream stream' limit h => ?runs, fun modifiers rest held works => ?controlC⟩
  case delivered => exact KeyReader.deliver_eq h (.refl r)
  case runs => rw [Scheduler.polling, Scheduler.polling, s.console.polling_eq h]
  case controlC =>
    have small := s.console.poll_polling rest works (Event.code?_small_controlC held)
    have capital := s.console.poll_polling rest works (Event.code?_capital_c modifiers)
    exact ⟨Console.poll_of_exitKey small, Console.poll_of_key capital (by decide) (by decide)⟩

/-- A capital W typed with shift, and what control-c does besides. -/
theorem letter_case_of_keys_with_shift :
    let w : Event := .key (.character 'W') { shift := true }
    let s : Scheduler := { console := .fresh (.ofSeed 0) {} {} {}, cycles := 1 }
    let control : Modifiers := { control := true }
    w.isControlC = false ∧ w.otherCase.code? = w.code? ∧
      ({} : KeyReader).deliver [.poll, .report w, .read] =
        ({} : KeyReader).deliver [.poll, .report w.otherCase, .read] ∧
      (s.polling [none, some w]).run 2 = (s.polling [none, some w.otherCase]).run 2 ∧
      control.control = true ∧ s.console.keys.nextFault = none ∧
      (s.console.polling [some (.key (.character 'c') control)]).poll.1 = .ok .exit ∧
      (s.console.polling [some (.key (.character 'C') control)]).poll.1 = .ok .proceed := by
  intro w s control
  obtain ⟨event, delivered, runs, controlC⟩ := letter_case_of_keys w {} s
  have free : w.isControlC = false := by decide
  have turned : w.Retyped w.otherCase := .turned free
  have stops := controlC control [] rfl rfl
  exact ⟨free, event.mpr free,
    delivered _ _ (.cons (.same .poll) (.cons (.report turned) (.cons (.same .read) .nil))),
    runs _ _ 2 (.cons .none (.cons (.some turned) .nil)), rfl, rfl, stops.1, stops.2.1⟩

/-- Control-c with its letter turned gives another code, and a program that waits for a key goes
on with it where it should have ended. -/
theorem capital_control_c_goes_on :
    let quit : Event := .key (.character 'c') { control := true }
    let c := ((Console.fresh (.ofSeed 0) {} {} {}).load [0xF0, 0x0A]).2
    let s : Scheduler := { console := c, cycles := 1 }
    quit.otherCase = .key (.character 'C') { control := true } ∧
      quit.code? = some exitKey ∧ quit.otherCase.code? = some 0x63 ∧
      ((s.polling [some quit]).run 1).1 = some (.ok ()) ∧
      ((s.polling [some quit.otherCase]).run 1).1 = none := by
  decide +kernel

end Terminal

end Chip8
