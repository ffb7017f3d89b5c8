import Chip8.Terminal.KeyReader

/-!
# Typed keys

What typed bytes can come to. A terminal sends control with a letter as one byte, which does not
tell a capital letter from a small one, and the sequences that tell modifiers are those of keys
that are no characters. So control with a capital letter, though it is an event, is never typed.

  * `isControlCapital_ofBytes` — no collection of bytes stands for it, by the kinds of collections.
  * `isControlCapital_of_mem_eventsOf` — nor is it among the events of bytes that are typed one
    after the other.
  * `KeyReader.drain_drain` — what has been drained has nothing more to give before more is typed.
-/

namespace Chip8

namespace Terminal

/-! ## Control with a capital letter -/

/-- Whether an event is control with a capital letter. -/
def Event.isControlCapital : Event → Bool
  | .key (.character c) modifiers => modifiers.control && c.isUpper
  | _ => false

/-- Whether a name is that of a character. -/
def KeyName.isCharacter : KeyName → Bool
  | .character _ => true
  | _ => false

theorem Event.isControlCapital_key {name : KeyName} (h : name.isCharacter = false)
    (modifiers : Modifiers) : (Event.key name modifiers).isControlCapital = false := by
  cases name with
  | character c => cases h
  | _ => rfl

namespace Scan

/-- Whether a collection of bytes is control with a capital letter. -/
def isControlCapital : Scan → Bool
  | .event e => e.isControlCapital
  | .incomplete | .invalid => false

theorem isControlCapital_key (name : KeyName) : (key name).isControlCapital = false := by
  cases name with
  | _ => rfl

theorem isControlCapital_check {e : Event} (h : e.isControlCapital = false) (condition : Bool) :
    (check condition e).isControlCapital = false := by
  cases condition with
  | true => exact h
  | false => rfl

theorem isControlCapital_withAlt (s : Scan) : s.withAlt.isControlCapital = s.isControlCapital := by
  rcases s with (⟨name, _⟩ | _ | _ | _) | _ | _
  · cases name with
    | _ => rfl
  all_goals rfl

theorem isControlCapital_ite {condition : Prop} [Decidable condition] {s s' : Scan}
    (h : s.isControlCapital = false) (h' : s'.isControlCapital = false) :
    (if condition then s else s').isControlCapital = false := by
  split
  · exact h
  · exact h'

/-- Control with a letter comes as a byte that does not tell a capital from a small one. -/
theorem isControlCapital_ofControl? (raw : Bool) (byte : UInt8) :
    ((ofControl? raw byte).map isControlCapital).getD false = false := by
  have all : ∀ (raw : Bool) (n : Fin 256),
      ((ofControl? raw (UInt8.ofFin n)).map isControlCapital).getD false = false := by
    decide +kernel
  exact all raw byte.toFin

theorem isControlCapital_ofCharacter (first : UInt8) (rest : List UInt8) :
    (ofCharacter first rest).isControlCapital = false := by
  unfold ofCharacter
  split
  · rfl
  · split
    · rfl
    · split
      · rfl
      · rfl

theorem isCharacter_letterKey? (letter : UInt8) :
    (letterKey? letter).all (!·.isCharacter) = true := by
  unfold letterKey?
  split
  all_goals rfl

theorem isCharacter_functionKey? (letter : UInt8) :
    (functionKey? letter).all (!·.isCharacter) = true := by
  unfold functionKey?
  split
  · rfl
  · rfl

theorem isCharacter_numberedKey? (number : Nat) :
    (numberedKey? number).all (!·.isCharacter) = true := by
  simp only [numberedKey?, apply_ite (Option.all _), Option.all_some, Option.all_none,
    KeyName.isCharacter, Bool.not_false, ite_self]

theorem isControlCapital_named {names : Option KeyName} (others : names.all (!·.isCharacter) = true)
    {name : KeyName} (found : names = some name) (modifiers : Modifiers) :
    (event (.key name modifiers)).isControlCapital = false := by
  rw [found, Option.all_some, Bool.not_eq_true'] at others
  exact Event.isControlCapital_key others modifiers

theorem isControlCapital_ofMouse (base : Nat) (body : List UInt8) :
    (ofMouse base body).isControlCapital = false := by
  unfold ofMouse
  split
  · split
    · exact isControlCapital_check rfl _
    · rfl
  · rfl

theorem isControlCapital_ofNumbered (body : List UInt8) (last : UInt8) :
    (ofNumbered body last).isControlCapital = false := by
  unfold ofNumbered
  split
  · exact isControlCapital_ofMouse 32 body
  · unfold ofNumberedKey
    split
    · split
      · next name found =>
        obtain ⟨number, -, named⟩ := Option.bind_eq_some_iff.mp found
        exact isControlCapital_named (isCharacter_numberedKey? number) named _
      · rfl
    · rfl
  · unfold ofCursor
    split
    · exact isControlCapital_check rfl _
    · rfl
  · unfold ofLetterKey
    split
    · next name found =>
      rcases Option.or_eq_some_iff.mp found with found | ⟨-, found⟩
      · exact isControlCapital_named (isCharacter_letterKey? last) found _
      · exact isControlCapital_named (isCharacter_functionKey? last) found _
    · rfl

theorem isControlCapital_ofBracket (bytes : List UInt8) :
    (ofBracket bytes).isControlCapital = false := by
  cases bytes with
  | nil => rfl
  | cons first rest =>
    unfold ofBracket
    refine isControlCapital_ite ?_ (isControlCapital_ite rfl (isControlCapital_ite ?_
      (isControlCapital_ite ?_ (isControlCapital_ite ?_ ?_))))
    · cases rest with
      | nil => rfl
      | cons letter _ => exact isControlCapital_ite (isControlCapital_key _) rfl
    · split
      · exact isControlCapital_check rfl _
      · rfl
    · cases rest.getLast? with
      | none => rfl
      | some last => exact isControlCapital_ite (isControlCapital_ofMouse _ _) rfl
    · cases rest.getLast? with
      | none => rfl
      | some last => exact isControlCapital_ite (isControlCapital_ofNumbered _ _) rfl
    · cases letterKey? first with
      | none => rfl
      | some name => exact isControlCapital_key name

theorem isControlCapital_ofLetterO (rest : List UInt8) :
    (ofLetterO rest).isControlCapital = false := by
  unfold ofLetterO
  split
  · rfl
  · split
    · exact isControlCapital_key _
    · rfl

/-- Control with a capital letter cannot be typed: no bytes stand for it. -/
theorem isControlCapital_ofBytes (raw more : Bool) (bytes : List UInt8) :
    (ofBytes raw more bytes).isControlCapital = false := by
  induction bytes with
  | nil => rfl
  | cons first rest ih =>
    unfold ofBytes
    refine isControlCapital_ite ?_ ?_
    · cases rest with
      | nil =>
        cases more with
        | true => rfl
        | false => rfl
      | cons second others =>
        have alt : (ofBytes raw more (second :: others)).withAlt.isControlCapital = false := by
          rw [isControlCapital_withAlt, ih]
        exact isControlCapital_ite (isControlCapital_ofLetterO others)
          (isControlCapital_ite (isControlCapital_ofBracket others)
            (isControlCapital_ite rfl alt))
    · have control := isControlCapital_ofControl? raw first
      cases found : ofControl? raw first with
      | none => exact isControlCapital_ofCharacter first rest
      | some scan =>
        rw [found] at control
        exact control

end Scan

/-! ## Readers -/

namespace KeyReader

theorem isControlCapital_of_mem_eventsOf (raw more : Bool) (held bytes : List UInt8) :
    ∀ e ∈ (eventsOf raw more held bytes).1, e.isControlCapital = false := by
  induction bytes generalizing held with
  | nil => exact fun _ mem => absurd mem List.not_mem_nil
  | cons byte rest ih =>
    unfold eventsOf
    have first := Scan.isControlCapital_ofBytes raw (more || !rest.isEmpty) (held ++ [byte])
    simp only
    split
    · next e is =>
      rw [is] at first
      exact List.forall_mem_cons.mpr ⟨first, ih []⟩
    · exact ih _
    · exact ih []

variable {r : KeyReader}

theorem type_nil (r : KeyReader) : r.type [] = r := by
  rw [type, List.append_nil]
  simp only [List.isEmpty_nil, Bool.not_true, Bool.or_false]

/-- What is taken up does not depend on the events that are still to be read. -/
theorem typed_takeUp (r : KeyReader) (events : List Event) :
    ({ r with events } : KeyReader).takeUp.typed = r.takeUp.typed := by
  unfold takeUp
  split
  · rfl
  · rfl

theorem le_typed_takeUpAll (r : KeyReader) :
    ¬ r.takeUpAll.takeUp.typed.length < r.takeUpAll.typed.length := by
  fun_induction takeUpAll r with
  | case1 r fewer ih => exact ih
  | case2 r all => exact all

/-- A reader that has been drained has nothing more to give. -/
theorem drain_drain (r : KeyReader) : r.drain.2.drain = ([], r.drain.2) := by
  have rest : r.drain.2.takeUpAll = r.drain.2 := by
    rw [takeUpAll]
    refine if_neg ?_
    show ¬ ({ r.takeUpAll with events := [] } : KeyReader).takeUp.typed.length < _
    rw [typed_takeUp]
    exact r.le_typed_takeUpAll
  rw [drain, rest]
  rfl

end KeyReader

end Terminal

end Chip8
