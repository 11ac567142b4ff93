import Clausal.Symbol

/-!
# Faults in formula text

Each fault is reported with the position of the character it concerns, counted in characters from
the start of the text.
-/

namespace Clausal

/-- What is wrong with a formula text. -/
inductive ParseFault where
  | unbalancedParenthesis
  /-- A connective has nothing on one of its sides. -/
  | missingOperand (c : Connective)
  /-- A quantifier is not followed by a lowercase variable of one character. -/
  | badBoundVariable
  | missingPredicateName
  | emptyFormula
  | strayCharacter (c : Char)
  | tooDeep
deriving DecidableEq, Repr

/-- The description of each fault. -/
def ParseFault.message : ParseFault → String
  | .unbalancedParenthesis => "unbalanced parenthesis"
  | .missingOperand c => "missing operand for " ++ c.text
  | .badBoundVariable => "quantifier must be followed by a single lowercase variable"
  | .missingPredicateName => "empty predicate name"
  | .emptyFormula => "empty subformula"
  | .strayCharacter c => "unexpected character '" ++ c.toString ++ "'"
  | .tooDeep => "formula nested too deeply"

/-- A fault and where it is. -/
structure ParseError where
  fault : ParseFault
  position : Nat
deriving DecidableEq, Repr

/-- The message with its position. -/
def ParseError.message (e : ParseError) : String :=
  e.fault.message ++ " at position " ++ toString e.position

end Clausal
