import Chip8.Digit

/-!
# The ChaCha block function

A block of sixteen words is made from eight words of key and the number of the
block: four constant words, the key, the number in two words, and two words of
zero are stirred in six double rounds and then added to what they were.
-/

namespace Chip8.ChaCha

/-- The words that are stirred. -/
abbrev State := Vector UInt32 16

/-- The word with its bits turned to the left, around the end. -/
def rotateLeft (w : UInt32) (count : UInt32) : UInt32 :=
  (w <<< count) ||| (w >>> (32 - count))

/-- Two words: the first grows by the second, and turns the third. -/
def stir (s : State) (a b d : Digit) (count : UInt32) : State :=
  let sum := s[a] + s[b]
  let s := s.set a sum
  s.set d (rotateLeft (s[d] ^^^ sum) count)

/-- A quarter of a round, on four of the words. -/
def quarterRound (s : State) (a b c d : Digit) : State :=
  let s := stir s a b d 16
  let s := stir s c d b 12
  let s := stir s a b d 8
  stir s c d b 7

/-- A round on the columns, then one on the diagonals. -/
def doubleRound (s : State) : State :=
  let s := quarterRound s 0 4 8 12
  let s := quarterRound s 1 5 9 13
  let s := quarterRound s 2 6 10 14
  let s := quarterRound s 3 7 11 15
  let s := quarterRound s 0 5 10 15
  let s := quarterRound s 1 6 11 12
  let s := quarterRound s 2 7 8 13
  quarterRound s 3 4 9 14

/-- How many double rounds there are. -/
def doubleRounds : Nat := 6

/-- The words before they are stirred. -/
def initial (key : Vector UInt32 8) (number : Nat) : State :=
  #v[0x61707865, 0x3320646E, 0x79622D32, 0x6B206574,
    key[0], key[1], key[2], key[3], key[4], key[5], key[6], key[7],
    UInt32.ofNat number, UInt32.ofNat (number / 0x100000000), 0, 0]

/-- The block with the given number. -/
def block (key : Vector UInt32 8) (number : Nat) : State :=
  let start := initial key number
  let stirred := Nat.repeat doubleRound doubleRounds start
  Vector.ofFn fun i => stirred[i] + start[i]

end Chip8.ChaCha
