import Clausal.Json.Precision

/-!
# JSON values

Numbers come in two kinds: natural numbers of at most 64 bits written in plain digits, which is the
only kind that the records of this library hold, and all others.  Those are kept as a decimal
significand and exponent, and of their digits only the leading ones count that fit in 64 bits.

A string literal may hold half of a surrogate pair; it is well-formed JSON that denotes no text.
Such a literal, and an object with such a key, is kept as a garbled value, which can be skipped but
not used.
-/

namespace Clausal

/-- JSON values; the fields of an object are in written order and may repeat a key. -/
inductive Json where
  | null
  | bool (b : Bool)
  | natural (n : Nat)
  /-- The number `significand * 10 ^ exponent`, or its negation. -/
  | decimal (negative : Bool) (significand : Nat) (exponent : Int)
  | string (s : String)
  | array (elements : List Json)
  | object (fields : List (String × Json))
  | garbled
deriving Inhabited, Repr

namespace Json

/-- The greatest power of ten that is in range in double precision. -/
def maxPowerOfTen : Nat := 308

/-- Whether `significand * 10 ^ exponent`, with a significand of at most 64 bits, is in range in
double precision.  The significand and the power of ten are rounded before they are multiplied, so
near the end of the range a digit more can bring a number back into it. -/
def isFinite (significand : Nat) : (exponent : Int) → Bool
  | .ofNat k =>
      significand == 0 ||
        (decide (k ≤ maxPowerOfTen) &&
          isInRange (roundBinary significand * roundBinary (Nat.pow 10 k)))
  | .negSucc _ => true

mutual
/-- Whether a value can be held in memory: every string denotes a text, every number is in range,
and arrays and objects are nested at most `levels` deep. -/
def isHoldable : (levels : Nat) → Json → Bool
  | _, .null => true
  | _, .bool _ => true
  | _, .natural _ => true
  | _, .decimal _ significand exponent => isFinite significand exponent
  | _, .string _ => true
  | 0, .array _ => false
  | levels + 1, .array elements => areHoldable levels elements
  | 0, .object _ => false
  | levels + 1, .object fields => haveHoldableValues levels fields
  | _, .garbled => false
/-- Whether all values of a list can be held. -/
def areHoldable : (levels : Nat) → List Json → Bool
  | _, [] => true
  | levels, j :: js => j.isHoldable levels && areHoldable levels js
/-- Whether all values of the fields can be held. -/
def haveHoldableValues : (levels : Nat) → List (String × Json) → Bool
  | _, [] => true
  | levels, (_, j) :: fields => j.isHoldable levels && haveHoldableValues levels fields
end

end Json

end Clausal
