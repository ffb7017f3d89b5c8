import Chip8.KeySource

/-!
# Events of a terminal

What a terminal reports: keys with their modifiers, and things that are no keys.
`Event.code?` is the character code that the machine takes from an event. Keys
that stand for an ASCII character give that character in lower case; escape, and
ctrl-c, which a terminal in raw mode passes on like any key, give the exit key;
nothing else gives a code.
-/

namespace Chip8.Terminal

/-- Which key was pressed. -/
inductive KeyName where
  | character (c : Char)
  | escape
  | enter
  | tab
  | backTab
  | backspace
  | delete
  | insert
  | up
  | down
  | left
  | right
  | home
  | last
  | pageUp
  | pageDown
  | null
  | function (number : Nat)
  deriving DecidableEq, Repr, Inhabited

/-- The modifiers that were held with a key. -/
structure Modifiers where
  shift : Bool := false
  control : Bool := false
  alt : Bool := false
  deriving DecidableEq, Repr, Inhabited

/-- Something that a terminal reports. -/
inductive Event where
  | key (name : KeyName) (modifiers : Modifiers)
  | mouse
  | resize
  /-- The place of the cursor. -/
  | cursor
  deriving DecidableEq, Repr, Inhabited

/-- Whether a character is one of the 128 of ASCII. -/
def isAscii (c : Char) : Bool := c.toNat < 128

/-- The code that the machine takes from an event. -/
def Event.code? : Event → Option UInt8
  | .key (.character c) modifiers =>
    if c = 'c' ∧ modifiers.control = true then some exitKey
    else if isAscii c then some (UInt8.ofNat c.toLower.toNat)
    else none
  | .key .escape _ => some exitKey
  | _ => none

end Chip8.Terminal
