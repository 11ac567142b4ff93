import Clausal.Proofs.SearchSteps
import Mathlib.Data.Prod.Lex

/-!
# Offers in order

A round makes its offers one after the other: for each untried pair, in ascending order of the two
numbers, all resolvents of the pair.  Reading the offers as one list turns the nested passes of a
round into a single one, in which it is known, at each offer, which offers are still to come.
-/

namespace Clausal

/-- A pair of clauses with one of its resolvents. -/
abbrev Offer := ParentPair × Resolvent

namespace Offer

/-- The place of an offer in a search: the step, then the numbers of the two clauses. -/
def place (step : ℕ) (o : Offer) : ℕ ×ₗ ℕ ×ₗ ℕ :=
  toLex (step, toLex (o.1.leftId, o.1.rightId))

end Offer

namespace Registry

/-! ## The offers of a round -/

/-- The offers of a round in order, where every pair of clauses below `paired` has been tried. -/
def offers (r : Registry) (step paired : ℕ) : List Offer :=
  (r.untriedPairs paired).flatMap fun p => (p.resolvents step).map fun res => (p, res)

/-- An offer of a round is a resolvent of two registered clauses, the lower number first. -/
lemma mem_offers {r : Registry} {step paired : ℕ} {o : Offer} (h : o ∈ r.offers step paired) :
    o.1.leftId < o.1.rightId ∧ r.get? o.1.leftId = some o.1.left ∧
      r.get? o.1.rightId = some o.1.right ∧ o.2 ∈ o.1.resolvents step := by
  obtain ⟨p, hp, ho⟩ := List.mem_flatMap.mp h
  obtain ⟨res, hres, rfl⟩ := List.mem_map.mp ho
  obtain ⟨hlt, -, hleft, hright⟩ := mem_untriedPairs.mp hp
  exact ⟨hlt, hleft, hright, hres⟩

/-- The untried pairs come in ascending order of their numbers. -/
lemma pairwise_untriedPairs (r : Registry) (paired : ℕ) :
    (r.untriedPairs paired).Pairwise fun p q =>
      toLex (p.leftId, p.rightId) ≤ toLex (q.leftId, q.rightId) := by
  have hnumbers := pairwise_zipIdx r.clauses.toList
  rw [untriedPairs, List.pairwise_flatMap]
  constructor
  · -- pairs with the same first clause follow the order of their second clauses
    rintro ⟨c, i⟩ -
    have hdrop := hnumbers.sublist (List.drop_sublist (max (i + 1) paired) _)
    rw [Round.pairsOf, List.pairwise_map]
    refine hdrop.imp fun {a b} hab => ?_
    exact Prod.Lex.right i (Nat.le_of_lt hab)
  · refine hnumbers.imp fun {a b} hab p hp q hq => ?_
    obtain ⟨e, -, rfl⟩ := List.mem_map.mp hp
    obtain ⟨e', -, rfl⟩ := List.mem_map.mp hq
    exact Prod.Lex.left _ _ hab

/-- The offers of a round come in the order of their places. -/
lemma pairwise_offers (r : Registry) (step paired : ℕ) :
    (r.offers step paired).Pairwise fun o o' => o.place step ≤ o'.place step := by
  rw [offers, List.pairwise_flatMap]
  constructor
  · intro p _
    rw [List.pairwise_map]
    exact List.pairwise_of_forall fun _ _ => le_refl _
  · refine (r.pairwise_untriedPairs paired).imp fun {p q} hpq o ho o' ho' => ?_
    obtain ⟨res, -, rfl⟩ := List.mem_map.mp ho
    obtain ⟨res', -, rfl⟩ := List.mem_map.mp ho'
    exact Prod.Lex.right step hpq

end Registry

namespace Round

variable {settings : Settings} {step : ℕ}

/-- Takes an offer. -/
def take (settings : Settings) (step : ℕ) (round : Round) (o : Offer) : Round :=
  offer settings step o.1 round o.2

/-- A stopped round takes no offer. -/
lemma take_of_stopped {round : Round} (h : round.stopped = true) (o : Offer) :
    take settings step round o = round :=
  offer_of_stopped settings step o.1 o.2 h

/-- Trying the untried pairs takes the offers one after the other. -/
lemma foldl_take_offers (r : Registry) (settings : Settings) (step paired : ℕ) (round : Round) :
    (r.offers step paired).foldl (take settings step) round =
      (r.untriedPairs paired).foldl (tryPair settings step) round := by
  have hpair : tryPair settings step = fun round p =>
      ((p.resolvents step).map fun res => (p, res)).foldl (take settings step) round := by
    funext round p
    rw [tryPair_eq, List.foldl_map]
    rfl
  rw [Registry.offers, List.foldl_flatMap, hpair]

/-- A round takes its offers one after the other. -/
lemma resolveRound_eq_foldl_take (r : Registry) (settings : Settings) (step paired : ℕ) :
    r.resolveRound settings step paired =
      ((r.offers step paired).foldl (take settings step) ⟨r, false⟩).registry := by
  rw [Registry.resolveRound_eq, foldl_take_offers]

/-- What holds of the offers to come and the round, is kept when an offer is passed over, and is
kept when one is registered, holds when no offer is left. -/
lemma foldl_take_induct {P : List Offer → Round → Prop} {offers : List Offer} {round : Round}
    (start : P offers round) (skip : ∀ o rest round, P (o :: rest) round → P rest round)
    (register : ∀ (o : Offer) rest round, P (o :: rest) round → round.stopped = false →
      ¬ round.registry.Covers settings.subsumption o.2.clause →
      P rest (registered settings step round o.1 o.2)) :
    P [] (offers.foldl (take settings step) round) := by
  induction offers generalizing round with
  | nil => exact start
  | cons o rest ih =>
    rw [List.foldl_cons]
    apply ih
    rcases offer_cases settings step o.1 round o.2 with ⟨heq, -⟩ | ⟨heq, hstopped, hcovers⟩
    · rw [take, heq]
      exact skip o rest round start
    · rw [take, heq]
      exact register o rest round start hstopped hcovers

end Round

end Clausal
