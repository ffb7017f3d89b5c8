import Chip8.Memory.Basic

/-!
# Cells behind an address

Bytes are written and read one after the other from an address on. The address wraps at
sixteen bits and each access at the 4096 cells; as the one divides the other, the `k`-th byte
simply belongs to the cell `k` places behind the first, `behind`.

  * `get_add_ofNat`, `read_eq_map` — reading from cell to cell.
  * `get_write_of_last` — a cell holds the last byte that was written into it. Together with
    `getElem_write_of_outside` this says what every cell holds after a write.
  * `behind_inj` — no byte meets another one if there are no more of them than cells.
  * `write_append` — a long write is two shorter ones, the second where the first one ends.

`last_byte_wins` says what a write of any length leaves in each cell.
-/

namespace Chip8.Memory

/-- The cell that lies `k` places behind the one that an address names. -/
def behind (address : UInt16) (k : Nat) : ThreeDigits := Fin.ofNat 4096 (address.toNat + k)

theorem cell_add_ofNat (a : UInt16) (k : Nat) : cell (a + UInt16.ofNat k) = behind a k := by
  apply Fin.ext
  simp only [cell, behind, Fin.val_ofNat, UInt16.toNat_add, UInt16.toNat_ofNat']
  omega

theorem behind_succ (a : UInt16) (k : Nat) : behind a (k + 1) = behind (a + 1) k := by
  have wraps : (a + 1).toNat = (a.toNat + 1) % 65536 := UInt16.toNat_add a 1
  apply Fin.ext
  simp only [behind, Fin.val_ofNat]
  omega

theorem behind_inj {a : UInt16} {j k : Nat} (hj : j < 4096) (hk : k < 4096) :
    behind a j = behind a k ↔ j = k := by
  simp only [behind, Fin.ext_iff, Fin.val_ofNat]
  omega

theorem behind_eq_iff {a : UInt16} {k : Nat} {n : ThreeDigits} :
    behind a k = n ↔ (a.toNat + k) % 4096 = n.val := by
  rw [behind, Fin.ext_iff, Fin.val_ofNat]

theorem ext_cells {m m' : Memory} (h : ∀ n, m.cells.get n = m'.cells.get n) : m = m' := by
  obtain ⟨cells⟩ := m
  obtain ⟨cells'⟩ := m'
  congr 1
  exact Vector.ext fun i lt => h ⟨i, lt⟩

/-! ## Reading -/

theorem get_add_ofNat (m : Memory) (a : UInt16) (k : Nat) :
    m.get (a + UInt16.ofNat k) = m.cells.get (behind a k) := by
  show m.cells.get (cell (a + UInt16.ofNat k)) = m.cells.get (behind a k)
  rw [cell_add_ofNat]

theorem read_eq_map (m : Memory) (a : UInt16) (count : Nat) :
    m.read a count = (List.range count).map fun k => m.cells.get (behind a k) := by
  induction count generalizing a with
  | zero => rfl
  | succ count ih =>
    rw [read, ih, List.range_succ_eq_map, List.map_cons, List.map_map]
    simp only [Function.comp_def, behind_succ]
    rfl

/-! ## Writing -/

theorem get_write_of_last {m : Memory} {a : UInt16} {bytes : List UInt8} {k : Nat}
    (lt : k < bytes.length)
    (last : ∀ j, k < j → j < bytes.length → behind a j ≠ behind a k) :
    (m.write a bytes).cells.get (behind a k) = bytes[k] := by
  induction bytes generalizing m a k with
  | nil => exact absurd lt (Nat.not_lt_zero k)
  | cons byte rest ih =>
    rw [write_cons]
    cases k with
    | zero =>
      -- the first byte stays where it is put: none of the others comes to its cell
      have kept : ((m.set a byte).write (a + 1) rest).cells[behind a 0] =
          (m.set a byte).cells[behind a 0] := by
        apply getElem_write_of_outside
        intro j lt_rest
        have other := last (j + 1) (Nat.succ_pos j) (Nat.succ_lt_succ lt_rest)
        rw [behind_succ] at other
        exact other.symm
      exact kept.trans (Vector.getElem_set_self _)
    | succ k =>
      have last' : ∀ j, k < j → j < rest.length → behind (a + 1) j ≠ behind (a + 1) k := by
        intro j after lt_rest
        rw [← behind_succ, ← behind_succ]
        exact last (j + 1) (Nat.succ_lt_succ after) (Nat.succ_lt_succ lt_rest)
      rw [behind_succ, ih (Nat.lt_of_succ_lt_succ lt) last', List.getElem_cons_succ]

/-- As many bytes as there are cells go each to a cell of its own. -/
theorem get_write_of_length_le {m : Memory} {a : UInt16} {bytes : List UInt8} {k : Nat}
    (few : bytes.length ≤ 4096) (lt : k < bytes.length) :
    (m.write a bytes).cells.get (behind a k) = bytes[k] := by
  apply get_write_of_last lt
  intro j after lt_length same
  rw [behind_inj (Nat.lt_of_lt_of_le lt_length few) (Nat.lt_of_lt_of_le lt few)] at same
  omega

/-- The next write begins where the last one ended, round the sixteen bits of an address. -/
theorem write_append (m : Memory) (a : UInt16) (first second : List UInt8) :
    m.write a (first ++ second) =
      (m.write a first).write (UInt16.ofNat (a.toNat + first.length)) second := by
  induction first generalizing m a with
  | nil => rw [List.nil_append, write_nil, List.length_nil, Nat.add_zero, UInt16.ofNat_toNat]
  | cons byte rest ih =>
    have wraps : (a + 1).toNat = (a.toNat + 1) % 65536 := UInt16.toNat_add a 1
    have next : UInt16.ofNat ((a + 1).toNat + rest.length) =
        UInt16.ofNat (a.toNat + (byte :: rest).length) := by
      apply UInt16.toNat_inj.mp
      rw [UInt16.toNat_ofNat', UInt16.toNat_ofNat', List.length_cons]
      omega
    rw [List.cons_append, write_cons, write_cons, ih, next]

/-- Among `count` bytes that are written from an address on, the `j`-th is the last one that
lands in a cell. -/
structure LastIn (address : UInt16) (count : Nat) (n : ThreeDigits) (j : Nat) : Prop where
  lt : j < count
  lands : (address.toNat + j) % 4096 = n.val
  last : ∀ k, j < k → k < count → (address.toNat + k) % 4096 ≠ n.val

/-- If any byte lands in a cell, one of them is the last. -/
theorem exists_lastIn_or_outside (a : UInt16) (count : Nat) (n : ThreeDigits) :
    (∃ j, LastIn a count n j) ∨ ∀ j < count, (a.toNat + j) % 4096 ≠ n.val := by
  induction count with
  | zero => exact .inr fun j lt => absurd lt (Nat.not_lt_zero j)
  | succ count ih =>
    by_cases lands : (a.toNat + count) % 4096 = n.val
    · exact .inl ⟨count, Nat.lt_succ_self count, lands, fun k after lt => by omega⟩
    · rcases ih with ⟨j, lt, hits, last⟩ | outside
      · refine .inl ⟨j, Nat.lt_succ_of_lt lt, hits, fun k after lt_succ => ?_⟩
        rcases Nat.lt_succ_iff_lt_or_eq.mp lt_succ with earlier | rfl
        · exact last k after earlier
        · exact lands
      · refine .inr fun j lt_succ => ?_
        rcases Nat.lt_succ_iff_lt_or_eq.mp lt_succ with earlier | rfl
        · exact outside j earlier
        · exact lands

theorem get_write_of_lastIn {m : Memory} {a : UInt16} {bytes : List UInt8} {n : ThreeDigits}
    {j : Nat} (is : LastIn a bytes.length n j) :
    (m.write a bytes).cells.get n = bytes.get ⟨j, is.lt⟩ := by
  obtain rfl := behind_eq_iff.mpr is.lands
  apply get_write_of_last is.lt
  intro k after lt same
  exact is.last k after lt (behind_eq_iff.mp same)

theorem get_write_of_outside {m : Memory} {a : UInt16} {bytes : List UInt8} {n : ThreeDigits}
    (outside : ∀ j < bytes.length, (a.toNat + j) % 4096 ≠ n.val) :
    (m.write a bytes).cells.get n = m.cells.get n := by
  apply getElem_write_of_outside
  intro k lt same
  exact outside k lt (behind_eq_iff.mp same.symm)

/-! ## Addresses that name one cell -/

theorem get_congr (m : Memory) {a b : UInt16} (same : a.toNat % 4096 = b.toNat % 4096) :
    m.get a = m.get b := by
  have cells : cell a = cell b := Fin.ext same
  show m.cells.get (cell a) = m.cells.get (cell b)
  rw [cells]

theorem word_congr (m : Memory) {a b : UInt16} (same : a.toNat % 4096 = b.toNat % 4096) :
    m.word a = m.word b := by
  have wraps (c : UInt16) : (c + 1).toNat = (c.toNat + 1) % 65536 := UInt16.toNat_add c 1
  have next : (a + 1).toNat % 4096 = (b + 1).toNat % 4096 := by
    rw [wraps, wraps]
    omega
  rw [word, word, m.get_congr same, m.get_congr next]

/-- **The last byte wins.** However many bytes are written from an address on, once round the
memory or many times, a cell holds the last of them that landed in it, and what it held before
if none did. Two writes, the second where the first one ends, are one write of all the bytes.
What is read at an address depends on the cell alone that it names. -/
theorem last_byte_wins (m : Memory) (a : UInt16) :
    (∀ (bytes : List UInt8) (n : ThreeDigits),
      (∃ j, ∃ is : LastIn a bytes.length n j,
        (m.write a bytes).cells.get n = bytes.get ⟨j, is.lt⟩) ∨
      (∀ j < bytes.length, (a.toNat + j) % 4096 ≠ n.val) ∧
        (m.write a bytes).cells.get n = m.cells.get n) ∧
    (∀ first second : List UInt8,
      m.write a (first ++ second) =
        (m.write a first).write (UInt16.ofNat ((a.toNat + first.length) % 65536)) second) ∧
    ∀ b : UInt16, a.toNat % 4096 = b.toNat % 4096 → m.get a = m.get b ∧ m.word a = m.word b := by
  refine ⟨fun bytes n => ?written, fun first second => ?appended, fun b same => ?read⟩
  case written =>
    rcases exists_lastIn_or_outside a bytes.length n with ⟨j, is⟩ | outside
    · exact .inl ⟨j, is, get_write_of_lastIn is⟩
    · exact .inr ⟨outside, get_write_of_outside outside⟩
  case appended =>
    have round : UInt16.ofNat ((a.toNat + first.length) % 65536) =
        UInt16.ofNat (a.toNat + first.length) := by
      apply UInt16.toNat_inj.mp
      rw [UInt16.toNat_ofNat', UInt16.toNat_ofNat', Nat.mod_mod]
    rw [round, write_append]
  case read => exact ⟨m.get_congr same, m.word_congr same⟩

/-- One byte more than there are cells: the last one lands where the first one did. -/
theorem last_byte_wins_once_round :
    let bytes : List UInt8 := List.replicate 4096 1 ++ [2]
    let m : Memory := ⟨Vector.replicate 4096 0⟩
    (m.write 0xFFFF bytes).cells.get 0xFFF = 2 ∧
      (0xFFFF : UInt16).toNat % 4096 = (0x0FFF : UInt16).toNat % 4096 ∧
      m.get 0xFFFF = m.get 0x0FFF := by
  intro bytes m
  have same : (0xFFFF : UInt16).toNat % 4096 = (0x0FFF : UInt16).toNat % 4096 := by decide
  refine ⟨?_, same, ((last_byte_wins m 0xFFFF).2.2 0x0FFF same).1⟩
  clear same
  have length : bytes.length = 4097 := by
    rw [List.length_append, List.length_replicate]
    rfl
  have newest : bytes[4096]? = some 2 := by
    rw [List.getElem?_append_right (Nat.le_of_eq List.length_replicate), List.length_replicate]
    rfl
  -- from here on it does not matter what the memory held and what the other bytes are
  clear_value bytes m
  have start : (0xFFFF : UInt16).toNat = 65535 := rfl
  have top : (0xFFF : ThreeDigits).val = 4095 := rfl
  rcases (last_byte_wins m 0xFFFF).1 bytes 0xFFF with ⟨j, is, held⟩ | ⟨outside, -⟩
  · have later := is.last 4096
    have lt := is.lt
    have last : j = 4096 := by omega
    subst last
    exact held.trans (List.getElem_of_getElem? newest).2
  · have first := outside 0 (by omega)
    omega

end Chip8.Memory
