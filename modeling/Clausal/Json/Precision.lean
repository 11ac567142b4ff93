/-!
# Double precision

In double precision a number keeps 53 binary digits.  A natural number with more of them is rounded
to the nearest number that fits; of two that are equally near, the one whose last digit is even is
taken.  Numbers that are `2 ^ 1024` or more after rounding are out of range.
-/

namespace Clausal.Json

/-- The number of binary digits that are kept. -/
def precision : Nat := 53

/-- What the last binary digit of `n` that is kept counts for. -/
def lastPlace (n : Nat) : Nat :=
  Nat.pow 2 (n.log2 + 1 - precision)

/-- Rounds `n` to the digits that are kept. -/
def roundBinary (n : Nat) : Nat :=
  let unit := lastPlace n
  let kept := n / unit
  let rest := n % unit
  if 2 * rest < unit ∨ (2 * rest = unit ∧ kept % 2 = 0) then kept * unit else (kept + 1) * unit

/-- Whether a natural number is in range in double precision. -/
def isInRange (n : Nat) : Bool :=
  roundBinary n < Nat.pow 2 1024

/-- A number of at most 53 binary digits is kept as it is. -/
theorem roundBinary_of_log2_lt {n : Nat} (h : n.log2 < precision) : roundBinary n = n := by
  have hplace : lastPlace n = 1 := by
    rw [lastPlace, Nat.sub_eq_zero_of_le h, Nat.pow_eq, Nat.pow_zero]
  simp [roundBinary, hplace, Nat.mod_one]

/-- Rounding moves a number by at most half of what its last kept digit counts for. -/
theorem roundBinary_near (n : Nat) :
    2 * n ≤ 2 * roundBinary n + lastPlace n ∧ 2 * roundBinary n ≤ 2 * n + lastPlace n := by
  have hpos : 0 < lastPlace n := Nat.pow_pos (by decide)
  have hsplit : n / lastPlace n * lastPlace n + n % lastPlace n = n := by
    rw [Nat.mul_comm]
    exact Nat.div_add_mod n (lastPlace n)
  have hrest := Nat.mod_lt n hpos
  unfold roundBinary
  simp only
  split
  case isTrue hdown => omega
  case isFalse hup =>
    rw [Nat.add_mul, Nat.one_mul]
    omega

end Clausal.Json
