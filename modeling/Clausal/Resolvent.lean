import Clausal.Text.FreshName
import Clausal.Unifier

/-!
# Resolvents

Two clauses are resolved on a literal of each that are opposite in sign and unify: the resolvent
has the other literals of both under the unifier.  The second clause is first renamed apart from
the first, as the variables of clauses are bound each by its own clause.
-/

namespace Clausal

namespace Clause

/-! ### Renaming apart -/

/-- The names tried for a variable `v` of the clause with number `id`: `v_cid`, then `v_cid_1`,
`v_cid_2` and so on. -/
def apartCandidate (id : Nat) (v : String) : Nat → String
  | 0 => v ++ "_c" ++ toString id
  | k + 1 => v ++ "_c" ++ toString id ++ "_" ++ toString (k + 1)

/-- New names for variables, different from each other and from the names taken. -/
def apartNames (id : Nat) : (vars taken : List String) → List (String × String)
  | [], _ => []
  | v :: vs, taken =>
      let w := freshName (apartCandidate id v) taken
      (v, w) :: apartNames id vs (w :: taken)

/-- The variables that two clauses share, in alphabetical order. -/
def sharedVariables (c d : Clause) : List String :=
  (c.vars.eraseDups.filter (d.vars.contains ·)).mergeSort

/-- The names that the variables of a clause get when it is renamed apart from another. -/
def apartRenaming (c : Clause) (id : Nat) (other : Clause) (v : String) : String :=
  ((apartNames id (c.sharedVariables other) (other.vars ++ c.vars)).lookup v).getD v

/-- The clause with new names for the variables that it shares with another. -/
def renameApart (c : Clause) (id : Nat) (other : Clause) : Clause :=
  { c with literals := c.literals.map (Literal.rename (c.apartRenaming id other)) }

end Clause

/-! ### Resolving -/

/-- A resolvent and how it was obtained. -/
structure Resolvent where
  clause : Clause
  unifier : Substitution
  /-- The two literals resolved on, the second as renamed apart. -/
  cut : Literal × Literal
deriving DecidableEq, Repr

/-- The clauses to resolve, with their numbers. -/
structure ParentPair where
  leftId : Nat
  left : Clause
  rightId : Nat
  right : Clause
deriving DecidableEq, Repr

namespace ParentPair

/-- The resolvent on the literals at two positions, if these are opposite and unify.  The second
clause is taken as it is, already renamed apart. -/
def resolveAt? (p : ParentPair) (step : Nat) (l : Literal × Nat) (m : Literal × Nat) :
    Option Resolvent :=
  if l.1.opposes m.1 then
    match unify l.1.args m.1.args with
    | .error _ => none
    | .ok unifier =>
        let rest := p.left.literals.eraseIdx l.2 ++ p.right.literals.eraseIdx m.2
        some
          { clause := Clause.ofLiterals (rest.map unifier.applyLiteral)
              { parents := [p.leftId, p.rightId], origin := .resolvent step }
            unifier
            cut := (l.1, m.1) }
  else none

/-- All resolvents of two clauses: each literal of the first against each of the second. -/
def resolvents (p : ParentPair) (step : Nat) : List Resolvent :=
  let apart := { p with right := p.right.renameApart p.rightId p.left }
  apart.left.literals.zipIdx.flatMap fun l =>
    apart.right.literals.zipIdx.filterMap fun m => apart.resolveAt? step l m

end ParentPair

end Clausal
