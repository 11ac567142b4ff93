import Clausal.Mismatch
import Clausal.Substitution

/-!
# One-way matching

A pattern matches a target when binding variables of the pattern makes it equal to the target.
Variables of the target are not bound, even where the two share names.  The pattern is walked from
left to right, each new variable is bound to the term it meets, and a variable met before must meet
the same term again.  A match that fails keeps the bindings it made, so that a caller who tries
another target goes back to the bindings of before.
-/

namespace Clausal

/-- How a match ended, with the bindings it left. -/
inductive MatchOutcome where
  | success (s : Substitution)
  | failure (cause : Mismatch) (s : Substitution)
deriving DecidableEq, Repr

namespace MatchOutcome

/-- The bindings after a match. -/
def bindings : MatchOutcome → Substitution
  | .success s => s
  | .failure _ s => s

/-- The bindings of a successful match, or the cause of the failure. -/
def result : MatchOutcome → Except Mismatch Substitution
  | .success s => .ok s
  | .failure cause _ => .error cause

end MatchOutcome

mutual
/-- Matches a term against a target, adding to the bindings already made. -/
def Term.matchOnto : (pattern target : Term) → Substitution → MatchOutcome
  | .var v, t, s =>
      match s.get? v with
      | none => .success (s.bind v t)
      | some bound => if bound = t then .success s else .failure (.terms bound t) s
  | .const c, .const d, s => if c = d then .success s else .failure (.symbols c d) s
  | .app f ps, .app g ts, s =>
      if f ≠ g then .failure (.symbols f g) s
      else if ps.length ≠ ts.length then .failure (.arity ps.length ts.length) s
      else matchListOnto ps ts s
  | .const c, t, s => .failure (.terms (.const c) t) s
  | .app f ps, t, s => .failure (.terms (.app f ps) t) s
/-- Matches terms against targets position by position. -/
def Term.matchListOnto : (patterns targets : List Term) → Substitution → MatchOutcome
  | p :: ps, t :: ts, s =>
      match p.matchOnto t s with
      | .success s => matchListOnto ps ts s
      | .failure cause s => .failure cause s
  | _, _, s => .success s
end

/-- Matches a literal against another, adding to the bindings already made. -/
def Literal.matchOnto (pattern target : Literal) (s : Substitution) : MatchOutcome :=
  if pattern.positive ≠ target.positive ∨ pattern.predicate ≠ target.predicate then
    .failure (.literals pattern target) s
  else if pattern.args.length ≠ target.args.length then
    .failure (.arity pattern.args.length target.args.length) s
  else Term.matchListOnto pattern.args target.args s

end Clausal
