import Chip8.Fault

/-!
# Memory

The machine has 4096 cells of one byte. Addresses are sixteen bits wide and every
access wraps: two addresses that agree modulo 4096 name the same cell, so an
address can never be out of range. Instruction words are stored with the high
byte first. A program is loaded at `0x200` and may fill the cells up to the top;
what is longer is cut off.
-/

namespace Chip8

/-- The cells of the machine, by number. -/
structure Memory where
  cells : Vector UInt8 4096
  deriving DecidableEq, Repr

namespace Memory

/-- Where programs are loaded and where they start. -/
def programStart : UInt16 := 0x200

/-- How many bytes there are from the start of the program to the top. -/
def programRoom : Nat := 0xE00

/-- The cell that an address names. -/
def cell (address : UInt16) : ThreeDigits := Fin.ofNat 4096 address.toNat

/-- The byte at an address. -/
def get (m : Memory) (address : UInt16) : UInt8 := m.cells[cell address]

/-- The memory with one byte changed. -/
def set (m : Memory) (address : UInt16) (byte : UInt8) : Memory :=
  ⟨m.cells.set (cell address) byte⟩

/-- The word at an address and the one after it, high byte first. -/
def word (m : Memory) (address : UInt16) : UInt16 :=
  UInt16.ofNat ((m.get address).toNat * 256 + (m.get (address + 1)).toNat)

/-- The `count` bytes from an address on. -/
def read (m : Memory) (address : UInt16) : Nat → List UInt8
  | 0 => []
  | count + 1 => m.get address :: m.read (address + 1) count

/-- The memory with bytes written from an address on, one after the other. -/
def write (m : Memory) (address : UInt16) : List UInt8 → Memory
  | [] => m
  | byte :: rest => (m.set address byte).write (address + 1) rest

/-- The memory with a program in place, as much of it as there is room for. -/
def load (m : Memory) (program : List UInt8) : Except Fault Memory :=
  if program.isEmpty then .error .emptyProgram
  else .ok (m.write programStart (program.take programRoom))

/-! ## One access after another -/

theorem get_set (m : Memory) (a b : UInt16) (byte : UInt8) :
    (m.set a byte).get b = if cell a = cell b then byte else m.get b := by
  by_cases h : cell a = cell b
  · simp [get, set, h]
  · have h' : (cell a).val ≠ (cell b).val := fun e => h (Fin.ext e)
    simp [get, set, h, h']

@[simp] theorem write_nil (m : Memory) (a : UInt16) : m.write a [] = m := rfl

@[simp] theorem write_cons (m : Memory) (a : UInt16) (byte : UInt8) (rest : List UInt8) :
    m.write a (byte :: rest) = (m.set a byte).write (a + 1) rest := rfl

/-- A cell that no written byte lands in keeps what it holds. -/
theorem getElem_write_of_outside {m : Memory} {a : UInt16} {bytes : List UInt8} {n : ThreeDigits}
    (outside : ∀ k < bytes.length, n ≠ Fin.ofNat 4096 (a.toNat + k)) :
    (m.write a bytes).cells[n] = m.cells[n] := by
  induction bytes generalizing m a with
  | nil => rfl
  | cons byte rest ih =>
    have first : cell a ≠ n := (outside 0 (Nat.succ_pos _)).symm
    have later : ∀ k < rest.length, n ≠ Fin.ofNat 4096 ((a + 1).toNat + k) := by
      intro k lt
      have shifted := outside (k + 1) (Nat.succ_lt_succ lt)
      -- sixteen bits wrap at a multiple of the number of cells
      have wraps : (a + 1).toNat = (a.toNat + 1) % 65536 := UInt16.toNat_add a 1
      intro same
      apply shifted
      rw [same]
      apply Fin.ext
      simp only [Fin.val_ofNat]
      omega
    rw [write_cons, ih later]
    have places : (cell a).val ≠ n.val := fun same => first (Fin.ext same)
    simp [set, places]

@[simp] theorem length_read (m : Memory) (a : UInt16) (count : Nat) :
    (m.read a count).length = count := by
  induction count generalizing a with
  | zero => rfl
  | succ count ih => simp [read, ih]

end Memory

end Chip8
