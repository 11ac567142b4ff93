import Clausal.Formula.Basic
import Clausal.Term.Reading

/-!
# Why a statement has no clause form

A statement fails to become a formula when the arguments of a predicate cannot be read or a node
lacks a part; a formula fails to split into clauses where something other than a literal is left
inside a disjunction.
-/

namespace Clausal

/-- What stands between a statement and its clauses. -/
inductive NormalFormError where
  | badArguments (e : TermError)
  /-- A connective has only one operand. -/
  | missingRightOperand (c : Connective)
  /-- Two operands are not joined by a connective. -/
  | missingConnective
  /-- A disjunct is the negation of a formula that is not an atom. -/
  | negatedCompound (f : Formula)
  /-- A disjunct is neither a literal nor a negation. -/
  | notLiteral (f : Formula)
deriving DecidableEq, Repr

/-- The message for each cause. -/
def NormalFormError.message : NormalFormError → String
  | .badArguments e => e.message
  | .missingRightOperand c => unexpected (c.text ++ " without right operand")
  | .missingConnective => unexpected "right operand without operator"
  | .negatedCompound f => unexpected ("negation of " ++ f.text)
  | .notLiteral f => unexpected f.text
where
  unexpected (what : String) : String :=
    "unexpected " ++ what ++ " after distribution"

end Clausal
