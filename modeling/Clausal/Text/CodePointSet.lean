/-!
# Sets of code points

The character properties that formulas depend on are sets of Unicode code points made of a few
hundred intervals.  Such a set is given by its boundaries in ascending order: the code points at
which membership changes, the first of them being the least member.  Reading the boundaries from
the left, each one that does not exceed a code point turns membership over.
-/

namespace Clausal

/-- A set of code points, given by the ascending list of points where membership changes. -/
structure CodePointSet where
  boundaries : List Nat

namespace CodePointSet

/-- Whether `n` lies inside the intervals cut out by `boundaries`. -/
def inside : (boundaries : List Nat) → (n : Nat) → Bool
  | [], _ => false
  | b :: bs, n => decide (b ≤ n) && !inside bs n

/-- Whether a character belongs to the set. -/
def contains (s : CodePointSet) (c : Char) : Bool :=
  inside s.boundaries c.toNat

/-- Below the first boundary nothing is a member. -/
theorem inside_cons_of_lt {b n : Nat} {bs : List Nat} (h : n < b) :
    inside (b :: bs) n = false := by
  simp [inside, Nat.not_le.mpr h]

/-- From the first boundary on, membership is decided by the complement of the rest. -/
theorem inside_cons_of_le {b n : Nat} {bs : List Nat} (h : b ≤ n) :
    inside (b :: bs) n = !inside bs n := by
  simp [inside, h]

end CodePointSet

end Clausal
