import Clausal.Formula.NormalFormError
import Clausal.Statement.Basic

/-!
# From statements to formulas

Lowering reads the arguments of every predicate and puts each quantifier and negation at its place
in a formula.  Of two faults the leftmost is reported; a node's own fault is found after its left
operand is lowered.
-/

namespace Clausal

namespace Formula

/-- Puts the binders of a node, and outside them its negation, in front of a formula. -/
def withLead (negated : Bool) (binders : List Binder) (f : Formula) : Formula :=
  if negated then .not (bindAll binders f) else bindAll binders f

/-- Joins two formulas by a connective. -/
def join : Connective → Formula → Formula → Formula
  | .implies => .implies
  | .and => .and
  | .or => .or

/-- The formula of a single predicate. -/
def ofAtom (a : WrittenAtom) : Except NormalFormError Formula :=
  match Term.readArguments a.name (a.arguments.getD "") with
  | .error e => .error (.badArguments e)
  | .ok args =>
      .ok (bindAll a.binder.toList (.atom { predicate := a.name, args, positive := !a.negated }))

/-- The formula that a statement says. -/
def ofStatement : Statement → Except NormalFormError Formula
  | .atom a => ofAtom a
  | .scoped negated binders connective operand => do
      let f ← ofStatement operand
      match connective with
      | none => return withLead negated binders f
      | some c => throw (.missingRightOperand c)
  | .joined negated binders connective left right => do
      let f ← ofStatement left
      match connective with
      | none => throw .missingConnective
      | some c => return withLead negated binders (join c f (← ofStatement right))

end Formula

end Clausal
