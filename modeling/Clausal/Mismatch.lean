import Clausal.Literal

/-!
# Mismatches

The reasons why two expressions cannot be made equal, by unification or by one-way matching.
-/

namespace Clausal

/-- Why two expressions cannot be made equal. -/
inductive Mismatch where
  /-- Two different constants or functions meet, or a function and a constant. -/
  | symbols (left right : String)
  /-- Two terms of which neither can change differ. -/
  | terms (left right : Term)
  /-- Two literals differ in sign or predicate. -/
  | literals (left right : Literal)
  /-- The numbers of arguments differ. -/
  | arity (left right : Nat)
  /-- A variable would have to stand for a term that contains it. -/
  | occurs (v : String) (t : Term)
deriving DecidableEq, Repr

/-- The message for each reason. -/
def Mismatch.message : Mismatch → String
  | .symbols l r => clash l r
  | .terms l r => clash l.text r.text
  | .literals l r => clash l.text r.text
  | .arity m n => "arity mismatch: " ++ toString m ++ " vs " ++ toString n
  | .occurs v t => "occurs check: " ++ v ++ " in " ++ t.text
where
  clash (l r : String) : String :=
    "symbol clash: " ++ l ++ " vs " ++ r

end Clausal
