/-!
# Hexadecimal digits

Registers, keys and rows of sprites are numbered by one hexadecimal digit, the
addresses in instruction words and the cells of memory by three. A number is made
into one of them by `Fin.ofNat`, which keeps its last digits.
-/

namespace Chip8

/-- One hexadecimal digit. -/
abbrev Digit := Fin 16

/-- Three hexadecimal digits. -/
abbrev ThreeDigits := Fin 4096

instance Digit.hasZero : @NeZero Nat Zero.ofOfNat0 16 := ⟨Nat.succ_ne_zero 15⟩

instance ThreeDigits.hasZero : @NeZero Nat Zero.ofOfNat0 4096 := ⟨Nat.succ_ne_zero 4095⟩

end Chip8
