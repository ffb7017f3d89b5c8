/-!
# The shortest digits of a rounded number

Measured quantities keep 53 binary digits. A whole number with more is rounded to
the nearest one that is kept, a tie going to the even one (`round`). Its decimal
digits are then more than are needed to tell it from its neighbours: `shortest` is
the number with the most zeros at its end that still rounds to it, and of two such
numbers the nearer.
-/

namespace Chip8.Decimal

/-- How many binary digits are kept. -/
def precision : Nat := 53

/-- What the last binary digit that is kept of a number counts. -/
def unit (n : Nat) : Nat := 1 <<< (n.log2 + 1 - precision)

/-- The nearest number that is kept, a tie going to the even one. -/
def round (n : Nat) : Nat :=
  let quotient := n / unit n
  let twice := n % unit n * 2
  if twice < unit n ∨ (twice = unit n ∧ quotient % 2 = 0) then quotient * unit n
  else (quotient + 1) * unit n

/-- Ten times itself a number of times. -/
def tenTo : Nat → Nat
  | 0 => 1
  | places + 1 => tenTo places * 10

/-- The multiples of `step` on both sides of a number, the nearer first. -/
def neighbours (n step : Nat) : List Nat :=
  let below := n / step * step
  let next := below + step
  if n - below ≤ next - n then [below, next] else [next, below]

/-- The number with the most zeros at its end, but at most `places` of them, that
rounds to `n`; it is `n` itself if there is none. -/
def shortestWithin (n : Nat) : Nat → Nat
  | 0 => n
  | places + 1 =>
    ((neighbours n (tenTo (places + 1))).find? (round · == n)).getD (shortestWithin n places)

/-- The decimal digits of a number. -/
def digits (n : Nat) : List Char := Nat.toDigits 10 n

/-- The number with the fewest digits before the zeros at its end that rounds to `n`. -/
def shortest (n : Nat) : Nat := shortestWithin n (digits n).length

end Chip8.Decimal
