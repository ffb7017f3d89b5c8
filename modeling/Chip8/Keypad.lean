import Chip8.Digit

/-!
# The keypad

Sixteen keys named by a hexadecimal digit. A terminal tells when a key is
pressed but never when it is let go, so each key carries a count of the polls
for which it still counts as down: a press sets it to `hold`, and each poll takes
one off. Keys are typed on the left-hand side of a keyboard:

    1 2 3 4        1 2 3 C
    q w e r        4 5 6 D
    a s d f        7 8 9 E
    z x c v        A 0 B F
-/

namespace Chip8

/-- A key of the keypad. -/
abbrev Key := Digit

/-- The keys, each with the number of polls for which it is still down. -/
structure Keypad where
  holds : Vector UInt8 16 := Vector.replicate 16 0
  deriving DecidableEq, Repr, Inhabited

namespace Keypad

/-- For how many polls a key stays down after it was pressed. -/
def hold : UInt8 := 4

/-- Each character that is typed for a key, with its key. -/
def layout : List (Char × Key) := [
  ('1', 0x1), ('2', 0x2), ('3', 0x3), ('4', 0xC),
  ('q', 0x4), ('w', 0x5), ('e', 0x6), ('r', 0xD),
  ('a', 0x7), ('s', 0x8), ('d', 0x9), ('f', 0xE),
  ('z', 0xA), ('x', 0x0), ('c', 0xB), ('v', 0xF)]

/-- The key that a character code is typed for. -/
def keyOf? (code : UInt8) : Option Key :=
  (layout.find? fun entry => entry.1.toNat == code.toNat).map (·.2)

/-- The key named by the last digit of a byte. -/
def keyOfByte (byte : UInt8) : Key := Fin.ofNat 16 byte.toNat

/-- No key down. -/
def released : Keypad := {}

/-- The count of one key. -/
def count (k : Keypad) (key : Key) : UInt8 := k.holds[key]

/-- Whether a key is down. -/
def isDown (k : Keypad) (key : Key) : Bool := 0 < k.count key

/-- The keypad after a key was pressed. -/
def press (k : Keypad) (key : Key) : Keypad := ⟨k.holds.set key hold⟩

/-- The keypad one poll later. -/
def age (k : Keypad) : Keypad := ⟨k.holds.map fun n => if n = 0 then 0 else n - 1⟩

theorem count_press (k : Keypad) (key other : Key) :
    (k.press key).count other = if key = other then hold else k.count other := by
  by_cases h : key = other
  · simp [count, press, h]
  · have h' : key.val ≠ other.val := fun e => h (Fin.ext e)
    simp [count, press, h, h']

@[simp] theorem count_released (key : Key) : released.count key = 0 := by
  simp [count, released]

@[simp] theorem count_age (k : Keypad) (key : Key) :
    k.age.count key = if k.count key = 0 then 0 else k.count key - 1 :=
  Vector.getElem_map _ key.isLt

end Keypad

end Chip8
