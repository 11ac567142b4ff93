import Clausal.Literal

/-!
# Clauses

A clause is a disjunction of literals, read with its variables universally quantified.  It knows
where it came from and, once it is registered in a search, its number.
-/

namespace Clausal

/-- Where a clause comes from. -/
inductive Origin where
  | input
  | premise (number : Nat)
  | negatedGoal
  | resolvent (step : Nat)
deriving DecidableEq, Inhabited, Repr

/-- The text of an origin. -/
def Origin.text : Origin → String
  | .input => "input"
  | .premise n => "premise " ++ toString n
  | .negatedGoal => "negated goal"
  | .resolvent n => "resolvent of step " ++ toString n

/-- The origin of a clause and the numbers of the clauses it was derived from. -/
structure Provenance where
  parents : List Nat
  origin : Origin
deriving DecidableEq, Inhabited, Repr

/-- The provenance of a clause that was not derived from others. -/
def Provenance.given (origin : Origin) : Provenance :=
  { parents := [], origin }

/-- A disjunction of literals. -/
structure Clause where
  literals : List Literal
  /-- The number of the clause, once it is registered. -/
  id : Option Nat
  provenance : Provenance
deriving DecidableEq, Inhabited, Repr

namespace Clause

/-- The unregistered clause of the given literals; of equal literals the first is kept. -/
def ofLiterals (literals : List Literal) (provenance : Provenance) : Clause :=
  { literals := literals.eraseDups, id := none, provenance }

/-- Whether a clause has no literals, and so is a contradiction. -/
def isEmpty (c : Clause) : Bool :=
  c.literals.isEmpty

/-- The variable occurrences of a clause from left to right. -/
def vars (c : Clause) : List String :=
  c.literals.flatMap Literal.vars

/-- Whether two clauses have as many literals and each literal of the first is in the second. -/
def sameLiterals (c d : Clause) : Bool :=
  c.literals.length == d.literals.length && c.literals.all (d.literals.contains ·)

/-- The text of a clause: its literals joined by `∨`, and `□` for the empty clause. -/
def text (c : Clause) : String :=
  if c.isEmpty then "□" else " ∨ ".intercalate (c.literals.map Literal.text)

end Clause

end Clausal
