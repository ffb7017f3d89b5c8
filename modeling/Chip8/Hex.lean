import Chip8.Digit

/-!
# Hexadecimal text

Numbers as hexadecimal digits, most significant first. `digits` writes a fixed
count of digits, which is how a byte or an address appears in a mnemonic;
`padded` writes at least a given count and more where the number needs them,
which is how words appear in messages.
-/

namespace Chip8.Hex

/-- The lower-case digit of a value below sixteen. -/
def digit (d : Digit) : Char :=
  if d.val < 10 then Char.ofNat (48 + d.val) else Char.ofNat (87 + d.val)

/-- The upper-case digit of a value below sixteen. -/
def upperDigit (d : Digit) : Char :=
  if d.val < 10 then Char.ofNat (48 + d.val) else Char.ofNat (55 + d.val)

/-- The last `count` digits of `n`. -/
def digits : Nat → Nat → List Char
  | 0, _ => []
  | count + 1, n => digits count (n / 16) ++ [digit (Fin.ofNat 16 n)]

@[simp] theorem length_digits (count n : Nat) : (digits count n).length = count := by
  induction count generalizing n with
  | zero => rfl
  | succ count ih => simp [digits, ih]

/-- How many digits `n` has when no leading zero is written. -/
def width (n : Nat) : Nat := n.log2 / 4 + 1

/-- The number with zeros in front up to `least` digits. -/
def padded (least n : Nat) : String :=
  String.ofList (digits (max least (width n)) n)

/-- The number after `0x`, with zeros in front up to `least` digits. -/
def word (least n : Nat) : String :=
  "0x" ++ padded least n

end Chip8.Hex
