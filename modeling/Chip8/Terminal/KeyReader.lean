import Chip8.Bytes
import Chip8.Terminal.Event

/-!
# Reading keys from bytes

A terminal sends a key as one or more bytes: characters in UTF-8, control letters
as the bytes below the blank, other keys as sequences that begin with escape. Such
a sequence is known by its beginning, so bytes are collected until they make up an
event or cannot become one any more; in the latter case all of them are dropped.
An escape that nothing follows at once is the escape key itself.

A `KeyReader` holds what was typed and not read yet. When it has no event left to
give and the terminal has told of further bytes, it takes bytes up in portions
of a fixed size until there is an event; what is left then waits for the next notice.
The terminal itself can keep only so many bytes ready; when taking bytes up lets it
bring forward others, that is a notice too.
-/

namespace Chip8.Terminal

/-- What a collection of bytes is. -/
inductive Scan where
  | event (e : Event)
  /-- More bytes are needed. -/
  | incomplete
  /-- No more bytes will make it an event. -/
  | invalid
  deriving DecidableEq, Repr

namespace Scan

/-- A key without modifiers. -/
def key (name : KeyName) : Scan := .event (.key name {})

/-- A key with control. -/
def controlKey (c : Char) : Scan := .event (.key (.character c) { control := true })

/-- The same with alt held, if it is a key. -/
def withAlt : Scan → Scan
  | .event (.key name modifiers) => .event (.key name { modifiers with alt := true })
  | other => other

/-- An event, if a condition holds. -/
def check (condition : Bool) (e : Event) : Scan := if condition then .event e else .invalid

/-! ## Characters -/

/-- How many bytes a character has that begins with this one. -/
def characterLength? (first : UInt8) : Option Nat :=
  if first < 0x80 then some 1
  else if first < 0xC0 then none
  else if first < 0xE0 then some 2
  else if first < 0xF0 then some 3
  else if first < 0xF8 then some 4
  else none

/-- Whether a byte can continue a character. -/
def continues (byte : UInt8) : Bool := 0x80 ≤ byte && byte < 0xC0

/-- The character that the bytes encode, if they encode one. -/
def character? (bytes : List UInt8) : Option Char :=
  (String.fromUTF8? ⟨bytes.toArray⟩).bind fun text => text.toList.head?

/-- Bytes of which the first is neither a control byte nor escape. -/
def ofCharacter (first : UInt8) (rest : List UInt8) : Scan :=
  match character? (first :: rest) with
  | some c => .event (.key (.character c) { shift := c.isUpper })
  | none =>
    match characterLength? first with
    | none => .invalid
    | some length =>
      if rest.all continues && rest.length + 1 < length then .incomplete else .invalid

/-- A single byte below the blank, or one that stands for a key of its own. Unless
the terminal is in raw mode, a line feed is the enter key like a carriage return. -/
def ofControl? (raw : Bool) (byte : UInt8) : Option Scan :=
  if byte = 0x0D ∨ (byte = 0x0A ∧ !raw) then some (key .enter)
  else if byte = 0x09 then some (key .tab)
  else if byte = 0x7F then some (key .backspace)
  else if byte = 0x00 then some (controlKey ' ')
  else if byte ≤ 0x1A then some (controlKey (Char.ofNat (byte.toNat + 0x60)))
  else if 0x1C ≤ byte ∧ byte ≤ 0x1F then some (controlKey (Char.ofNat (byte.toNat + 0x18)))
  else none

/-! ## Sequences -/

/-- The modifiers that a number in a sequence stands for. -/
def modifiersOf (number : Nat) : Modifiers :=
  let mask := number - 1
  { shift := mask.testBit 0, alt := mask.testBit 1, control := mask.testBit 2 }

/-- The key of a sequence that ends in a letter. -/
def letterKey? (letter : UInt8) : Option KeyName :=
  match Char.ofUInt8 letter with
  | 'A' => some .up
  | 'B' => some .down
  | 'C' => some .right
  | 'D' => some .left
  | 'F' => some .last
  | 'H' => some .home
  | _ => none

/-- The function keys `F1` to `F4`, by the letters from `P` on. -/
def functionKey? (letter : UInt8) : Option KeyName :=
  if 0x50 ≤ letter ∧ letter ≤ 0x53 then some (.function (letter.toNat - 0x4F)) else none

/-- The key of a sequence that consists of a number and a tilde. -/
def numberedKey? (number : Nat) : Option KeyName :=
  if number = 1 ∨ number = 7 then some .home
  else if number = 2 then some .insert
  else if number = 3 then some .delete
  else if number = 4 ∨ number = 8 then some .last
  else if number = 5 then some .pageUp
  else if number = 6 then some .pageDown
  else if 11 ≤ number ∧ number ≤ 15 then some (.function (number - 10))
  else if 17 ≤ number ∧ number ≤ 21 then some (.function (number - 11))
  else if 23 ≤ number ∧ number ≤ 26 then some (.function (number - 12))
  else if 28 ≤ number ∧ number ≤ 29 then some (.function (number - 15))
  else if 31 ≤ number ∧ number ≤ 34 then some (.function (number - 17))
  else none

/-- Whether a number describes something that a mouse can do: it names one of six
buttons or directions by its lowest two bits and its highest two. -/
def isMouseCode (code : Nat) : Bool :=
  code % 4 + code / 64 % 4 * 4 < 6

/-- The byte between the fields of a sequence. -/
def fieldSeparator : UInt8 := 0x3B

/-- The fields of the body of a sequence, which has to be text. -/
def fields? (body : List UInt8) : Option (List (List UInt8)) :=
  if Bytes.isText body then some (Bytes.split fieldSeparator body) else none

/-- The body of a mouse report: a code and a place. -/
def ofMouse (base : Nat) (body : List UInt8) : Scan :=
  match fields? body with
  | some (code :: column :: row :: _) =>
    match Bytes.numberBelow? 256 code, Bytes.numberBelow? 65536 column,
      Bytes.numberBelow? 65536 row with
    | some code, some _, some _ => check (base ≤ code && isMouseCode (code - base)) .mouse
    | _, _, _ => .invalid
  | _ => .invalid

/-- The body of a sequence that ends in a tilde: the number of a key, and one for
its modifiers, which is passed over if it is none. -/
def ofNumberedKey (body : List UInt8) : Scan :=
  match fields? body with
  | some (number :: others) =>
    match (Bytes.numberBelow? 256 number).bind numberedKey? with
    | some name =>
      let mask := (others.head?.bind (Bytes.numberBelow? 256)).getD 0
      .event (.key name (modifiersOf mask))
    | none => .invalid
  | _ => .invalid

/-- The body of a report of where the cursor is. -/
def ofCursor (body : List UInt8) : Scan :=
  match fields? body with
  | some (row :: column :: _) =>
    check ((Bytes.numberBelow? 65536 row).isSome && (Bytes.numberBelow? 65536 column).isSome)
      .cursor
  | _ => .invalid

/-- A sequence that ends in the letter of a key; the byte before the letter tells
the modifiers, and nothing else is looked at. -/
def ofLetterKey (body : List UInt8) (letter : UInt8) : Scan :=
  match (letterKey? letter).or (functionKey? letter) with
  | some name => .event (.key name (modifiersOf ((body.getLast?.getD 0).toNat % 16)))
  | none => .invalid

/-- A finished sequence that begins with a digit: its body and its last byte. -/
def ofNumbered (body : List UInt8) (last : UInt8) : Scan :=
  match Char.ofUInt8 last with
  | 'M' => ofMouse 32 body
  | '~' => ofNumberedKey body
  | 'R' => ofCursor body
  | _ => ofLetterKey body last

/-- Whether a byte can end a sequence of numbers. -/
def endsNumbers (byte : UInt8) : Bool := 0x40 ≤ byte && byte ≤ 0x7E

/-- What follows escape and an opening bracket. -/
def ofBracket : List UInt8 → Scan
  | [] => .incomplete
  | first :: rest =>
    if first = 0x5B then
      match rest with
      | [] => .incomplete
      | letter :: _ =>
        if 0x41 ≤ letter ∧ letter ≤ 0x45 then key (.function (letter.toNat - 0x40)) else .invalid
    else if first = 0x5A then .event (.key .backTab { shift := true })
    else if first = 0x4D then
      match rest with
      | code :: _ :: _ :: _ =>
        check (0x20 ≤ code && isMouseCode (code.toNat - 0x20)) .mouse
      | _ => .incomplete
    else if first = 0x3C then
      match rest.getLast? with
      | some last =>
        if last = 0x4D ∨ last = 0x6D then ofMouse 0 rest.dropLast else .incomplete
      | none => .incomplete
    else if Bytes.isDigit first then
      match rest.getLast? with
      | some last =>
        if endsNumbers last then ofNumbered (first :: rest.dropLast) last else .incomplete
      | none => .incomplete
    else match letterKey? first with
      | some name => key name
      | none => .invalid

/-- What follows escape and the letter `O`. -/
def ofLetterO : List UInt8 → Scan
  | [] => .incomplete
  | letter :: _ =>
    match functionKey? letter with
    | some name => key name
    | none => .invalid

/-- The byte of the escape key. -/
def escapeByte : UInt8 := 0x1B

/-- What the bytes are that were collected; `raw` tells whether the terminal is in
raw mode, and `more` that further bytes have arrived already. -/
def ofBytes (raw more : Bool) : List UInt8 → Scan
  | [] => .incomplete
  | first :: rest =>
    if first = escapeByte then
      match rest with
      | [] => if more then .incomplete else key .escape
      | second :: others =>
        if second = 0x4F then ofLetterO others
        else if second = 0x5B then ofBracket others
        else if second = escapeByte then key .escape
        else (ofBytes raw more rest).withAlt
    else (ofControl? raw first).getD (ofCharacter first rest)

end Scan

/-- What was typed and not read yet. -/
structure KeyReader where
  /-- Bytes that were not taken up yet. -/
  typed : List UInt8 := []
  /-- Whether the terminal has told of such bytes since bytes were last taken up. -/
  notice : Bool := false
  /-- The beginning of an event. -/
  held : List UInt8 := []
  /-- Complete events. -/
  events : List Event := []
  /-- Whether the terminal is in raw mode. -/
  raw : Bool := true
  deriving DecidableEq, Repr, Inhabited

namespace KeyReader

/-- More bytes are typed, and the terminal tells of them. -/
def type (r : KeyReader) (bytes : List UInt8) : KeyReader :=
  { r with typed := r.typed ++ bytes, notice := r.notice || !bytes.isEmpty }

/-- The terminal has switched its mode; it tells anew of the bytes that were not
taken up. -/
def switchMode (r : KeyReader) (raw : Bool) : KeyReader :=
  { r with raw, notice := !r.typed.isEmpty }

/-- The events of bytes that follow the beginning `held` of an event, and what is
left over at the end as the beginning of another; `raw` tells the mode, and `more`
that further bytes are likely to follow. -/
def eventsOf (raw more : Bool) (held : List UInt8) : List UInt8 → List Event × List UInt8
  | [] => ([], held)
  | byte :: rest =>
    let collected := held ++ [byte]
    match Scan.ofBytes raw (more || !rest.isEmpty) collected with
    | .event e =>
      let (events, left) := eventsOf raw more [] rest
      (e :: events, left)
    | .incomplete => eventsOf raw more collected rest
    | .invalid => eventsOf raw more [] rest

/-- The most bytes that are taken up at once. A portion of this size is likely to
have been cut off. -/
def portionSize : Nat := 1204

/-- Cut bytes into portions and read these one after the other until one of them
completes an event. What comes out are the events, what is held after them, and the
bytes that follow. -/
def readPortions (raw : Bool) (held bytes : List UInt8) :
    List Event × List UInt8 × List UInt8 :=
  if _h : bytes = [] then ([], held, [])
  else
    let portion := bytes.take portionSize
    let rest := bytes.drop portionSize
    let (events, held) := eventsOf raw (portion.length == portionSize) held portion
    if events.isEmpty then readPortions raw held rest else (events, held, rest)
termination_by bytes.length
decreasing_by
  have : 0 < bytes.length := List.length_pos_iff.mpr _h
  simp only [List.length_drop, portionSize]
  omega

/-- The most bytes that a terminal keeps ready. -/
def readySize : Nat := 4095

/-- Take up what the terminal has told of. -/
def takeUp (r : KeyReader) : KeyReader :=
  if r.notice then
    let (events, held, typed) := readPortions r.raw r.held r.typed
    let notice := decide (readySize < r.typed.length) && !typed.isEmpty
    { r with typed, notice, held, events := r.events ++ events }
  else r

/-- The next event, if there is one. -/
def next (r : KeyReader) : Option Event × KeyReader :=
  let r := if r.events.isEmpty then r.takeUp else r
  (r.events.head?, { r with events := r.events.tail })

/-- Take up everything that the terminal tells of without more being typed. -/
def takeUpAll (r : KeyReader) : KeyReader :=
  if r.takeUp.typed.length < r.typed.length then r.takeUp.takeUpAll else r
termination_by r.typed.length

/-- The codes of everything that is taken up, an event that gives none counting as
nothing found, and the reader without these events. -/
def drain (r : KeyReader) : List (Option UInt8) × KeyReader :=
  let r := r.takeUpAll
  (r.events.map Event.code?, { r with events := [] })

/-- The codes of everything that is taken up. -/
def codes (r : KeyReader) : List (Option UInt8) := r.drain.1

/-- Look once for a key. -/
def poll (r : KeyReader) : Option UInt8 × KeyReader :=
  let (event, r) := r.next
  (event.bind Event.code?, r)

/-- The code of the first event that gives one, with the events after it. -/
def firstCode : List Event → Option UInt8 × List Event
  | [] => (none, [])
  | e :: rest =>
    match e.code? with
    | some code => (some code, rest)
    | none => firstCode rest

/-- Read until there is a code, or nothing left to read. -/
def read (r : KeyReader) : Option UInt8 × KeyReader :=
  match firstCode r.events with
  | (some code, events) => (some code, { r with events })
  | (none, _) =>
    let next := { r with events := [] }.takeUp
    if next.typed.length < r.typed.length then next.read else (none, next)
termination_by r.typed.length

end KeyReader

end Chip8.Terminal
