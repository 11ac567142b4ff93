import Clausal.Formula.Basic

/-!
# Negation normal form

In negation normal form there is no implication and no negation; the sign of an atom carries what
is left of the negations.
-/

namespace Clausal

namespace Formula

/-- Writes every implication as a disjunction. -/
def eliminateImplications : Formula → Formula
  | .atom l => .atom l
  | .not f => .not f.eliminateImplications
  | .and f g => .and f.eliminateImplications g.eliminateImplications
  | .or f g => .or f.eliminateImplications g.eliminateImplications
  | .implies f g => .or (.not f.eliminateImplications) g.eliminateImplications
  | .quantified q v f => .quantified q v f.eliminateImplications

/-- The negation normal form of a formula, or of its negation if `negate` is set. -/
def negationNormal : Formula → (negate : Bool) → Formula
  | .atom l, negate => .atom (if negate then l.complement else l)
  | .not f, negate => f.negationNormal (!negate)
  | .and f g, true => .or (f.negationNormal true) (g.negationNormal true)
  | .and f g, false => .and (f.negationNormal false) (g.negationNormal false)
  | .or f g, true => .and (f.negationNormal true) (g.negationNormal true)
  | .or f g, false => .or (f.negationNormal false) (g.negationNormal false)
  | .implies f g, true => .and (f.negationNormal false) (g.negationNormal true)
  | .implies f g, false => .or (f.negationNormal true) (g.negationNormal false)
  | .quantified q v f, negate =>
      .quantified (if negate then q.dual else q) v (f.negationNormal negate)

/-- Pushes the negations of a formula down to its atoms. -/
def pushNegations (f : Formula) : Formula :=
  f.negationNormal false

end Formula

end Clausal
