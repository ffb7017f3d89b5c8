import Chip8.Keypad

/-!
# Key sources

The machine takes character codes from a `KeySource`: a list of what its coming
polls find, a code or nothing. A poll takes one entry; a blocking read takes
entries until it meets a code. A source that has run dry finds nothing when it is
polled and answers a blocking read with the exit key, so that waiting always ends.
Any call may fail, as `faultAt` lays down; a failed call takes no entry.
-/

namespace Chip8

/-- The code that asks to stop, wherever it is read: escape. -/
def exitKey : UInt8 := 0x1B

theorem Keypad.keyOf?_exitKey : keyOf? exitKey = none := by decide

/-- Where codes come from. -/
structure KeySource where
  /-- What the coming polls find. -/
  entries : List (Option UInt8) := []
  /-- How many polls and reads were made so far. -/
  calls : Nat := 0
  /-- What is wrong with the `k`-th call, counted from one, if it fails. -/
  faultAt : Nat → Option String := fun _ => none

instance : Inhabited KeySource := ⟨{}⟩

namespace KeySource

/-- The first code of a list of entries and what comes after it. -/
def firstCode : List (Option UInt8) → UInt8 × List (Option UInt8)
  | [] => (exitKey, [])
  | none :: rest => firstCode rest
  | some code :: rest => (code, rest)

/-- The source after a call was made. -/
def called (s : KeySource) : KeySource := { s with calls := s.calls + 1 }

/-- What the next call fails with, if it fails. -/
def nextFault (s : KeySource) : Option String := s.faultAt (s.calls + 1)

/-- Look once whether there is a code. -/
def poll (s : KeySource) : Except String (Option UInt8) × KeySource :=
  match s.nextFault with
  | some reason => (.error reason, s.called)
  | none => (.ok (s.entries.head?.join), { s.called with entries := s.entries.tail })

/-- Wait until there is a code. -/
def read (s : KeySource) : Except String UInt8 × KeySource :=
  match s.nextFault with
  | some reason => (.error reason, s.called)
  | none =>
    let (code, rest) := firstCode s.entries
    (.ok code, { s.called with entries := rest })

theorem firstCode_length_lt {entries : List (Option UInt8)}
    (h : (firstCode entries).1 ≠ exitKey) :
    (firstCode entries).2.length < entries.length := by
  fun_induction firstCode entries with
  | case1 => simp at h
  | case2 rest ih => exact Nat.lt_succ_of_lt (ih h)
  | case3 code rest => simp

theorem read_length_lt {s s' : KeySource} {code : UInt8} (h : s.read = (.ok code, s'))
    (hc : code ≠ exitKey) : s'.entries.length < s.entries.length := by
  unfold read at h
  split at h
  · simp at h
  · simp only [Prod.mk.injEq, Except.ok.injEq] at h
    obtain ⟨rfl, rfl⟩ := h
    exact firstCode_length_lt hc

/-- How a wait for a key of the keypad ended. -/
structure Wait where
  /-- The key, or nothing if the exit key came first, or the error of a failed read. -/
  result : Except String (Option Key)
  /-- The codes that were read before and belong to no key, in order. -/
  unmapped : List UInt8
  /-- The source afterwards. -/
  source : KeySource

/-- Read codes until one is the exit key or belongs to a key. -/
def await (s : KeySource) : Wait :=
  match h : s.read with
  | (.error reason, s') => ⟨.error reason, [], s'⟩
  | (.ok code, s') =>
    if hc : code = exitKey then ⟨.ok none, [], s'⟩
    else match Keypad.keyOf? code with
      | some key => ⟨.ok (some key), [], s'⟩
      | none =>
        have := read_length_lt h hc
        let rest := s'.await
        { rest with unmapped := code :: rest.unmapped }
  termination_by s.entries.length

end KeySource

end Chip8
