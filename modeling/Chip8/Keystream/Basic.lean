import Chip8.Keystream.ChaCha

/-!
# The keystream

The machine's random bytes are the low bytes of a stream of 32-bit words, one
word for each byte. The stream depends on a seed alone: the seed is spread over a
key of eight words by a small generator, and the words of the stream are those of
the ChaCha blocks under that key, one block after the other. A `Keystream` is the
key and the number of words that were drawn, so the `k`-th draw of any run gives
`word key k`, whatever came between.
-/

namespace Chip8

/-- A stream of words and how far it was read. -/
structure Keystream where
  key : Vector UInt32 8
  drawn : Nat := 0
  deriving DecidableEq, Repr

namespace Keystream

/-- The next state of the generator that spreads a seed. -/
def advance (state : UInt64) : UInt64 :=
  state * 6364136223846793005 + 11634580027462260723

/-- The word with its bits turned to the right, around the end. -/
def rotateRight (w : UInt32) (count : UInt32) : UInt32 :=
  (w >>> count) ||| (w <<< (32 - count))

/-- The word that a state of that generator gives: some of its bits, turned by its highest. -/
def output (state : UInt64) : UInt32 :=
  rotateRight (((state >>> 18) ^^^ state) >>> 27).toUInt32 (state >>> 59).toUInt32

/-- The key of a seed. -/
def keyOfSeed (seed : UInt64) : Vector UInt32 8 :=
  Vector.ofFn fun i => output (Nat.repeat advance (i.val + 1) seed)

/-- The stream of a seed, from its start. -/
def ofSeed (seed : UInt64) : Keystream := { key := keyOfSeed seed }

instance : Inhabited Keystream := ⟨ofSeed 0⟩

/-- The `k`-th word of the stream of a key, counted from zero. -/
def word (key : Vector UInt32 8) (k : Nat) : UInt32 :=
  (ChaCha.block key (k / 16))[Fin.ofNat 16 k]

/-- The low byte of the next word, and the stream after it. -/
def nextByte (s : Keystream) : UInt8 × Keystream :=
  ((word s.key s.drawn).toUInt8, { s with drawn := s.drawn + 1 })

end Keystream

end Chip8
