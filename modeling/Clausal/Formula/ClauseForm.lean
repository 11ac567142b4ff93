import Clausal.Clause
import Clausal.Formula.Lowering
import Clausal.Formula.Skolem

/-!
# Clause form

The matrix of a Skolem form is multiplied out into a conjunction of disjunctions and split into
clauses.  The variables of a clause are read as universally quantified, so the binders of the
Skolem form are dropped.
-/

namespace Clausal

namespace Formula

/-! ### Multiplying out -/

/-- The disjunction of a formula `f` with each conjunct of `g`, for an `f` that is not a
conjunction. -/
def disjoinRight (f : Formula) : Formula → Formula
  | .and g h => .and (f.disjoinRight g) (f.disjoinRight h)
  | g => .or f g

/-- The disjunction of each conjunct of the first formula with each conjunct of `g`. -/
def disjoin : Formula → (g : Formula) → Formula
  | .and f h, g => .and (f.disjoin g) (h.disjoin g)
  | f, g => f.disjoinRight g

/-- Moves disjunctions inside conjunctions. -/
def distribute : Formula → Formula
  | .and f g => .and f.distribute g.distribute
  | .or f g => f.distribute.disjoin g.distribute
  | f => f

/-! ### Splitting -/

/-- The conjuncts of a formula from left to right. -/
def conjuncts : Formula → List Formula
  | .and f g => f.conjuncts ++ g.conjuncts
  | f => [f]

/-- The literals of a disjunction from left to right. -/
def disjuncts : Formula → Except NormalFormError (List Literal)
  | .or f g => return (← f.disjuncts) ++ (← g.disjuncts)
  | .atom l => return [l]
  | .not (.atom l) => return [l.complement]
  | .not f => throw (.negatedCompound f)
  | f => throw (.notLiteral f)

/-- The literals of each clause of a conjunction of disjunctions. -/
def split (f : Formula) : Except NormalFormError (List (List Literal)) :=
  f.conjuncts.mapM disjuncts

/-! ### The whole way -/

/-- The clauses of a formula.  With an index, the variables are renamed to carry it.  The symbols
of the formula are not reserved here: a caller with several formulas reserves all of them first. -/
def clauses (f : Formula) (index : Option Nat) (supply : SkolemSupply) :
    Except NormalFormError (List Clause) × SkolemSupply :=
  let prenex := match index with
    | some i => f.toPrenex.standardize i
    | none => f.toPrenex
  let (skolem, supply) := prenex.skolemize supply
  (skolem.matrix.distribute.split.map
    (·.map fun literals => Clause.ofLiterals literals (.given .input)), supply)

end Formula

/-- The clauses of a statement, whose symbols are reserved once it is lowered. -/
def Statement.clauses (s : Statement) (index : Option Nat) (supply : SkolemSupply) :
    Except NormalFormError (List Clause) × SkolemSupply :=
  match Formula.ofStatement s with
  | .error e => (.error e, supply)
  | .ok f => f.clauses index (supply.reserve f)

end Clausal
