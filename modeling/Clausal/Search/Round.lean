import Clausal.Search.Registry
import Clausal.Settings

/-!
# Rounds of resolution

A round resolves every pair of clauses that has not been tried before: those in which at least one
clause is new since the last round.  Pairs are taken in ascending order of their two numbers.  A
resolvent that is not redundant is registered at once, but is not paired itself before the next
round.  A round stops early when the ceiling on clauses is reached or, if so set, when the empty
clause is found.
-/

namespace Clausal

/-- A round in progress. -/
structure Round where
  registry : Registry
  /-- Whether the round is to stop before all pairs are tried. -/
  stopped : Bool
deriving DecidableEq, Repr

namespace Round

/-- Registers a resolvent unless it is redundant or the round has stopped. -/
def offer (settings : Settings) (step : Nat) (parents : ParentPair) (round : Round)
    (resolvent : Resolvent) : Round :=
  if round.stopped then round
  else if (resolvent.clause.redundancy? settings.subsumption round.registry.clauses).isSome then
    round
  else
    let registry := round.registry.addResolvent step parents resolvent
    { registry
      stopped := (resolvent.clause.isEmpty && settings.earlyExit) ||
        decide (settings.maxClauses ≤ registry.size) }

/-- Offers every resolvent of a pair. -/
def tryPair (settings : Settings) (step : Nat) (round : Round) (parents : ParentPair) : Round :=
  if round.stopped then round
  else (parents.resolvents step).foldl (offer settings step parents) round

/-- The untried pairs in which the clause `c` with number `i` comes first, where `numbered` are all
clauses with their numbers and every pair of clauses below `paired` has been tried. -/
def pairsOf (numbered : List (Clause × Nat)) (paired : Nat) (c : Clause) (i : Nat) :
    List ParentPair :=
  (numbered.drop (max (i + 1) paired)).map fun (d, j) =>
    { leftId := i, left := c, rightId := j, right := d }

/-- Tries every untried pair in which the clause `c` with number `i` comes first. -/
def tryPairsOf (settings : Settings) (step : Nat) (numbered : List (Clause × Nat)) (paired : Nat)
    (round : Round) (ci : Clause × Nat) : Round :=
  if round.stopped then round
  else (pairsOf numbered paired ci.1 ci.2).foldl (tryPair settings step) round

end Round

/-- The registry after a round, where every pair of clauses below `paired` has been tried. -/
def Registry.resolveRound (r : Registry) (settings : Settings) (step paired : Nat) : Registry :=
  let numbered := r.clauses.toList.zipIdx
  (numbered.foldl (Round.tryPairsOf settings step numbered paired)
    { registry := r, stopped := false }).registry

end Clausal
