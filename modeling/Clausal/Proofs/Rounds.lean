import Clausal.Proofs.Resolution
import Clausal.Proofs.Subsumption
import Clausal.Search.Round
import Mathlib.Data.List.Nodup

/-!
# What a round does

A round offers the resolvents of the untried pairs one after the other until it stops.  An offer
either changes nothing, as the round has stopped or the resolvent is covered by the clauses
registered, or it registers the resolvent, and then covers it.  So a round that did not stop covers
the resolvents of all pairs, and one that stopped has found the empty clause or reached the ceiling
on clauses.

Which pairs a round resolves is told by a round that notes each pair before it offers its
resolvents.  Apart from the notes it does the same.
-/

namespace Clausal

namespace Registry

/-! ## Growing registries -/

/-- All clauses of a registry are clauses of another, with the same numbers. -/
def IsPartOf (r r' : Registry) : Prop :=
  r.clauses.toList <+: r'.clauses.toList

lemma IsPartOf.refl (r : Registry) : r.IsPartOf r :=
  List.prefix_rfl

lemma IsPartOf.trans {r r' r'' : Registry} (h : r.IsPartOf r') (h' : r'.IsPartOf r'') :
    r.IsPartOf r'' :=
  List.IsPrefix.trans h h'

lemma IsPartOf.size_le {r r' : Registry} (h : r.IsPartOf r') : r.size ≤ r'.size :=
  List.IsPrefix.length_le h

/-- A larger registry has the clauses of a smaller one under their numbers. -/
lemma IsPartOf.get?_eq {r r' : Registry} (h : r.IsPartOf r') {i : ℕ} {c : Clause}
    (hi : r.get? i = some c) : r'.get? i = some c := by
  rw [get?, ← Array.getElem?_toList] at hi ⊢
  obtain ⟨more, hmore⟩ := h
  rw [← hmore, List.getElem?_append_left (List.getElem?_eq_some_iff.mp hi).1, hi]

/-- A clause with a number of a smaller registry is a clause of the smaller one. -/
lemma IsPartOf.get?_eq_of_lt {r r' : Registry} (h : r.IsPartOf r') {i : ℕ} {c : Clause}
    (hi : r'.get? i = some c) (hlt : i < r.size) : r.get? i = some c := by
  obtain ⟨d, hd⟩ : ∃ d, r.get? i = some d := ⟨_, Array.getElem?_eq_getElem hlt⟩
  rw [hd, ← h.get?_eq hd, hi]

/-- A registry with no more clauses than a part of it has the same clauses. -/
lemma IsPartOf.clauses_eq {r r' : Registry} (h : r.IsPartOf r') (hsize : r'.size = r.size) :
    r'.clauses = r.clauses :=
  Array.toList_inj.mp (List.IsPrefix.eq_of_length h hsize.symm).symm

/-- The clauses after a resolvent is added. -/
lemma clauses_addResolvent (r : Registry) (step : ℕ) (p : ParentPair) (res : Resolvent) :
    (r.addResolvent step p res).clauses.toList =
      r.clauses.toList ++ [{ res.clause with id := some r.size }] :=
  Array.toList_push

/-- A clause adds nothing to a registry if it is a tautology or a registered clause subsumes it. -/
def Covers (mode : SubsumptionMode) (r : Registry) (c : Clause) : Prop :=
  c.isTautology = true ∨ ∃ e ∈ r.clauses.toList, e.subsumesIn mode c = true

/-- A clause is redundant exactly if the registry covers it. -/
lemma isSome_redundancy?_iff {mode : SubsumptionMode} {r : Registry} {c : Clause} :
    (c.redundancy? mode r.clauses).isSome = true ↔ r.Covers mode c := by
  unfold Clause.redundancy? Covers
  by_cases h : c.isTautology = true
  · simp [h]
  · simp [h, Array.mem_iff_getElem]

/-- Whether a clause is covered depends on its literals only. -/
lemma covers_congr {mode : SubsumptionMode} {r : Registry} {c d : Clause}
    (h : c.literals = d.literals) : r.Covers mode c ↔ r.Covers mode d := by
  have hsubsumes : ∀ e : Clause, e.subsumesIn mode c = e.subsumesIn mode d := by
    intro e
    cases mode <;> simp [Clause.subsumesIn, Clause.sameLiterals, Clause.subsumes, h]
  simp [Covers, Clause.isTautology, h, hsubsumes]

/-- The clauses from number `n` on are no tautologies, and none of them is subsumed by an earlier
one of them. -/
structure IrredundantFrom (mode : SubsumptionMode) (n : ℕ) (r : Registry) : Prop where
  le_size : n ≤ r.size
  noTautology : ∀ c ∈ r.clauses.toList.drop n, c.isTautology = false
  pairwise : (r.clauses.toList.drop n).Pairwise fun e c => e.subsumesIn mode c = false

/-- A larger registry covers what a smaller one covers. -/
lemma Covers.mono {mode : SubsumptionMode} {r r' : Registry} {c : Clause} (h : r.Covers mode c)
    (hpart : r.IsPartOf r') : r'.Covers mode c := by
  rcases h with h | ⟨e, he, hsubsumes⟩
  · exact Or.inl h
  · exact Or.inr ⟨e, List.IsPrefix.subset hpart he, hsubsumes⟩

end Registry

/-! ## Offers -/

namespace Round

variable {settings : Settings} {step : ℕ} {p : ParentPair} {res : Resolvent} {round : Round}

/-- The round after a resolvent is registered. -/
def registered (settings : Settings) (step : ℕ) (round : Round) (p : ParentPair)
    (res : Resolvent) : Round where
  registry := round.registry.addResolvent step p res
  stopped := (res.clause.isEmpty && settings.earlyExit) ||
    decide (settings.maxClauses ≤ (round.registry.addResolvent step p res).size)

/-- An offer changes nothing if the round has stopped or covers the resolvent, and registers the
resolvent otherwise. -/
lemma offer_cases (settings : Settings) (step : ℕ) (p : ParentPair) (round : Round)
    (res : Resolvent) :
    offer settings step p round res = round ∧
        (round.stopped = true ∨ round.registry.Covers settings.subsumption res.clause) ∨
      offer settings step p round res = registered settings step round p res ∧
        round.stopped = false ∧ ¬ round.registry.Covers settings.subsumption res.clause := by
  unfold offer
  split
  · rename_i hstopped
    exact Or.inl ⟨rfl, Or.inl hstopped⟩
  · rename_i hstopped
    split
    · rename_i hredundant
      exact Or.inl ⟨rfl, Or.inr (Registry.isSome_redundancy?_iff.mp hredundant)⟩
    · rename_i hredundant
      refine Or.inr ⟨rfl, Bool.eq_false_iff.mpr hstopped, fun hcovers => hredundant ?_⟩
      exact Registry.isSome_redundancy?_iff.mpr hcovers

/-- A stopped round takes nothing. -/
lemma foldl_of_stopped {α : Type} {f : Round → α → Round}
    (hf : ∀ round a, round.stopped = true → f round a = round) (l : List α)
    (h : round.stopped = true) : l.foldl f round = round := by
  induction l with
  | nil => rfl
  | cons a l ih => rw [List.foldl_cons, hf round a h, ih]

/-- A stopped round takes no resolvent. -/
lemma offer_of_stopped (settings : Settings) (step : ℕ) (p : ParentPair) (res : Resolvent)
    (h : round.stopped = true) : offer settings step p round res = round :=
  if_pos h

/-- A stopped round takes no resolvent of a pair. -/
lemma tryPair_of_stopped (settings : Settings) (step : ℕ) (p : ParentPair)
    (h : round.stopped = true) : tryPair settings step round p = round :=
  if_pos h

/-- Trying a pair offers its resolvents one after the other. -/
lemma tryPair_eq (settings : Settings) (step : ℕ) (round : Round) (p : ParentPair) :
    tryPair settings step round p =
      (p.resolvents step).foldl (offer settings step p) round := by
  unfold tryPair
  split
  · rename_i hstopped
    exact (foldl_of_stopped (fun round res => offer_of_stopped settings step p res) _
      hstopped).symm
  · rfl

/-- Trying the pairs in which a clause comes first tries them one after the other. -/
lemma tryPairsOf_eq (settings : Settings) (step : ℕ) (numbered : List (Clause × ℕ)) (paired : ℕ)
    (round : Round) (ci : Clause × ℕ) :
    tryPairsOf settings step numbered paired round ci =
      (pairsOf numbered paired ci.1 ci.2).foldl (tryPair settings step) round := by
  unfold tryPairsOf
  split
  · rename_i hstopped
    exact (foldl_of_stopped (fun round p h => tryPair_of_stopped settings step p h) _
      hstopped).symm
  · rfl

/-- What holds of a round and is kept when a resolvent of one of the pairs is registered holds when
all pairs are tried. -/
lemma foldl_tryPair_induct {P : Round → Prop} {pairs : List ParentPair} (start : P round)
    (keep : ∀ round, ∀ p ∈ pairs, ∀ res ∈ p.resolvents step, P round → round.stopped = false →
      ¬ round.registry.Covers settings.subsumption res.clause →
      P (registered settings step round p res)) :
    P (pairs.foldl (tryPair settings step) round) := by
  refine List.foldlRecOn pairs _ start fun round hround p hp => ?_
  rw [tryPair_eq]
  refine List.foldlRecOn _ _ hround fun round hround res hres => ?_
  rcases offer_cases settings step p round res with ⟨heq, -⟩ | ⟨heq, hstopped, hcovers⟩
  · rw [heq]
    exact hround
  · rw [heq]
    exact keep round p hp res hres hround hstopped hcovers

/-- Registering a resolvent adds to the registry. -/
lemma isPartOf_registered (settings : Settings) (step : ℕ) (round : Round) (p : ParentPair)
    (res : Resolvent) :
    round.registry.IsPartOf (registered settings step round p res).registry := by
  rw [Registry.IsPartOf, registered, Registry.clauses_addResolvent]
  exact List.prefix_append _ _

/-- Trying pairs adds to the registry. -/
lemma isPartOf_foldl_tryPair (settings : Settings) (step : ℕ) (pairs : List ParentPair)
    (round : Round) :
    round.registry.IsPartOf (pairs.foldl (tryPair settings step) round).registry := by
  refine foldl_tryPair_induct (P := fun r => round.registry.IsPartOf r.registry)
    (Registry.IsPartOf.refl _) fun r p _ res _ h _ _ => ?_
  exact h.trans (isPartOf_registered settings step r p res)

/-- A clause is covered once it is registered. -/
lemma covers_registered (hres : res.clause.literals.Nodup) :
    (registered settings step round p res).registry.Covers settings.subsumption res.clause := by
  rw [registered, Registry.Covers, Registry.clauses_addResolvent]
  refine Or.inr ⟨_, List.mem_append_right _ List.mem_cons_self, ?_⟩
  exact Clause.subsumesIn_of_subset _ hres hres (List.Subset.refl _) (List.Subset.refl _)

/-- When things are taken one after the other and the round does not stop, what each of them
achieves, unless it stops the round, is achieved for all. -/
lemma forall_of_foldl_not_stopped {α : Type} {f : Round → α → Round} {Q : α → Registry → Prop}
    {l : List α} (hstop : ∀ round a, round.stopped = true → f round a = round)
    (hpart : ∀ (round : Round) a, round.registry.IsPartOf (f round a).registry)
    (hmono : ∀ (a : α) (r r' : Registry), r.IsPartOf r' → Q a r → Q a r')
    (each : ∀ round, ∀ a ∈ l, (f round a).stopped = false → Q a (f round a).registry)
    (hrun : (l.foldl f round).stopped = false) : ∀ a ∈ l, Q a (l.foldl f round).registry := by
  induction l generalizing round with
  | nil => exact fun a ha => absurd ha List.not_mem_nil
  | cons b l ih =>
    rw [List.foldl_cons] at hrun ⊢
    have hlater : (f round b).registry.IsPartOf (l.foldl f (f round b)).registry :=
      List.foldlRecOn l f (Registry.IsPartOf.refl _)
        (motive := fun r => (f round b).registry.IsPartOf r.registry)
        fun r hr a _ => hr.trans (hpart r a)
    have hfirst : (f round b).stopped = false := by
      by_contra hstopped
      rw [foldl_of_stopped hstop l (Bool.not_eq_false _ ▸ hstopped)] at hrun
      exact hstopped hrun
    intro a ha
    rcases List.mem_cons.mp ha with rfl | ha
    · exact hmono _ _ _ hlater (each round a List.mem_cons_self hfirst)
    · exact ih (fun r a ha => each r a (List.mem_cons_of_mem _ ha)) hrun a ha

/-- An offer adds to the registry. -/
lemma isPartOf_offer (settings : Settings) (step : ℕ) (p : ParentPair) (round : Round)
    (res : Resolvent) : round.registry.IsPartOf (offer settings step p round res).registry := by
  rcases offer_cases settings step p round res with ⟨heq, -⟩ | ⟨heq, -⟩
  · rw [heq]
    exact Registry.IsPartOf.refl _
  · rw [heq]
    exact isPartOf_registered settings step round p res

/-- A round that does not stop while pairs are tried covers all resolvents of the pairs. -/
lemma covers_of_foldl_tryPair {pairs : List ParentPair}
    (hrun : (pairs.foldl (tryPair settings step) round).stopped = false) :
    ∀ p ∈ pairs, ∀ res ∈ p.resolvents step,
      (pairs.foldl (tryPair settings step) round).registry.Covers settings.subsumption
        res.clause := by
  refine forall_of_foldl_not_stopped (f := tryPair settings step)
    (Q := fun p r => ∀ res ∈ p.resolvents step, r.Covers settings.subsumption res.clause)
    (fun round p => tryPair_of_stopped settings step p)
    (fun round p => isPartOf_foldl_tryPair settings step [p] round)
    (fun p r r' hpart h res hres => (h res hres).mono hpart) (fun round p _ hpair => ?_) hrun
  rw [tryPair_eq] at hpair ⊢
  refine forall_of_foldl_not_stopped (f := offer settings step p)
    (Q := fun res r => r.Covers settings.subsumption res.clause)
    (fun round res => offer_of_stopped settings step p res) (isPartOf_offer settings step p)
    (fun res r r' hpart h => h.mono hpart) (fun round res hres hoffer => ?_) hpair
  rcases offer_cases settings step p round res with ⟨heq, hreason⟩ | ⟨heq, -⟩
  · rw [heq] at hoffer ⊢
    rcases hreason with hstopped | hcovers
    · rw [hoffer] at hstopped
      cases hstopped
    · exact hcovers
  · rw [heq]
    exact covers_registered (ParentPair.nodup_of_mem_resolvents hres)

/-- A round stops only if it has registered the empty clause or reached the ceiling on clauses. -/
lemma exists_isEmpty_or_le_of_stopped {pairs : List ParentPair} {r : Registry}
    (h : (pairs.foldl (tryPair settings step) ⟨r, false⟩).stopped = true) :
    (∃ c ∈ (pairs.foldl (tryPair settings step) ⟨r, false⟩).registry.clauses.toList,
        c.isEmpty = true) ∨
      settings.maxClauses ≤ (pairs.foldl (tryPair settings step) ⟨r, false⟩).registry.size := by
  refine foldl_tryPair_induct
    (P := fun round => round.stopped = true →
      (∃ c ∈ round.registry.clauses.toList, c.isEmpty = true) ∨
        settings.maxClauses ≤ round.registry.size)
    (fun h => nomatch h) (fun round p _ res _ _ _ _ hstopped => ?_) h
  rcases Bool.or_eq_true_iff.mp hstopped with hempty | hceiling
  · refine Or.inl ⟨{ res.clause with id := some round.registry.size }, ?_,
      (Bool.and_eq_true_iff.mp hempty).1⟩
    rw [registered, Registry.clauses_addResolvent]
    exact List.mem_append_right _ List.mem_cons_self
  · exact Or.inr (of_decide_eq_true hceiling)

/-- Registering a clause that is not covered adds a clause that is not redundant. -/
lemma irredundantFrom_registered {n : ℕ}
    (h : round.registry.IrredundantFrom settings.subsumption n)
    (hcovers : ¬ round.registry.Covers settings.subsumption res.clause) :
    (registered settings step round p res).registry.IrredundantFrom settings.subsumption n := by
  obtain ⟨htautology, hsubsumes⟩ := not_or.mp hcovers
  have hdrop : (registered settings step round p res).registry.clauses.toList.drop n =
      round.registry.clauses.toList.drop n ++
        [{ res.clause with id := some round.registry.size }] := by
    rw [registered, Registry.clauses_addResolvent, List.drop_append_of_le_length h.le_size]
  refine ⟨Nat.le_trans h.le_size (isPartOf_registered settings step round p res).size_le, ?_, ?_⟩
  · rw [hdrop, List.forall_mem_append, List.forall_mem_singleton]
    exact ⟨h.noTautology, Bool.eq_false_iff.mpr htautology⟩
  · rw [hdrop, List.pairwise_append]
    refine ⟨h.pairwise, List.pairwise_singleton _ _, fun e he c hc => ?_⟩
    rw [List.mem_singleton.mp hc, ← Bool.not_eq_true]
    exact fun hsubsumed => hsubsumes ⟨e, List.mem_of_mem_drop he, hsubsumed⟩

/-! ## The pairs that are resolved -/

/-- The pairs, of those that are to be tried in order, whose resolvents are asked for: all that come
before the round stops. -/
def resolvedPairs (settings : Settings) (step : ℕ) : Round → List ParentPair → List ParentPair
  | _, [] => []
  | round, p :: pairs =>
      if round.stopped then []
      else p :: resolvedPairs settings step (tryPair settings step round p) pairs

/-- The pairs that are resolved are among those that are to be tried, in the same order. -/
lemma resolvedPairs_sublist (settings : Settings) (step : ℕ) (round : Round)
    (pairs : List ParentPair) : (resolvedPairs settings step round pairs).Sublist pairs := by
  induction pairs generalizing round with
  | nil => exact List.Sublist.refl _
  | cons p pairs ih =>
    rw [resolvedPairs]
    split
    · exact List.nil_sublist _
    · exact (ih _).cons_cons p

/-- All pairs are resolved in a round that does not stop. -/
lemma resolvedPairs_eq_self {pairs : List ParentPair}
    (hrun : (pairs.foldl (tryPair settings step) round).stopped = false) :
    resolvedPairs settings step round pairs = pairs := by
  induction pairs generalizing round with
  | nil => rfl
  | cons p pairs ih =>
    have hround : ¬ round.stopped = true := by
      intro hstopped
      rw [foldl_of_stopped (fun round p => tryPair_of_stopped settings step p) _ hstopped] at hrun
      rw [hrun] at hstopped
      cases hstopped
    rw [resolvedPairs, if_neg hround, ih hrun]

/-- No pairs are resolved in a round that has stopped. -/
lemma resolvedPairs_of_stopped (settings : Settings) (step : ℕ) (pairs : List ParentPair)
    (h : round.stopped = true) : resolvedPairs settings step round pairs = [] := by
  cases pairs with
  | nil => rfl
  | cons p pairs => rw [resolvedPairs, if_pos h]

/-! ## Rounds that report the pairs -/

/-- Offers every resolvent of a pair and reports the pair, unless the round has stopped. -/
def tryPairReporting (settings : Settings) (step : ℕ) (x : Round × List ParentPair)
    (p : ParentPair) : Round × List ParentPair :=
  if x.1.stopped then x
  else ((p.resolvents step).foldl (offer settings step p) x.1, x.2 ++ [p])

/-- Tries every untried pair in which a clause comes first and reports those that it resolves. -/
def tryPairsOfReporting (settings : Settings) (step : ℕ) (numbered : List (Clause × ℕ))
    (paired : ℕ) (x : Round × List ParentPair) (ci : Clause × ℕ) : Round × List ParentPair :=
  if x.1.stopped then x
  else (pairsOf numbered paired ci.1 ci.2).foldl (tryPairReporting settings step) x

/-- Reporting does not change what is done, and the pairs reported are those that are resolved. -/
lemma foldl_tryPairReporting (settings : Settings) (step : ℕ) (pairs : List ParentPair)
    (round : Round) (reported : List ParentPair) :
    pairs.foldl (tryPairReporting settings step) (round, reported) =
      (pairs.foldl (tryPair settings step) round,
        reported ++ resolvedPairs settings step round pairs) := by
  induction pairs generalizing round reported with
  | nil => rw [resolvedPairs, List.append_nil, List.foldl_nil, List.foldl_nil]
  | cons p pairs ih =>
    rw [List.foldl_cons, List.foldl_cons, tryPairReporting, resolvedPairs]
    cases hstopped : round.stopped with
    | true =>
      rw [if_pos rfl, if_pos rfl, ih, tryPair_of_stopped settings step p hstopped,
        resolvedPairs_of_stopped settings step pairs hstopped]
    | false =>
      rw [if_neg Bool.false_ne_true, if_neg Bool.false_ne_true, ih, tryPair_eq, List.append_assoc,
        List.singleton_append]

/-- Trying the pairs in which a clause comes first tries them one after the other. -/
lemma tryPairsOfReporting_eq (settings : Settings) (step : ℕ) (numbered : List (Clause × ℕ))
    (paired : ℕ) (x : Round × List ParentPair) (ci : Clause × ℕ) :
    tryPairsOfReporting settings step numbered paired x ci =
      (pairsOf numbered paired ci.1 ci.2).foldl (tryPairReporting settings step) x := by
  unfold tryPairsOfReporting
  split
  · rename_i hstopped
    have htry := foldl_of_stopped (fun round p => tryPair_of_stopped settings step p)
      (pairsOf numbered paired ci.1 ci.2) hstopped
    rw [foldl_tryPairReporting, htry, resolvedPairs_of_stopped _ _ _ hstopped, List.append_nil]
  · rfl

end Round

namespace Registry

/-- The pairs to be tried in a round, where every pair of clauses below `paired` has been tried. -/
def untriedPairs (r : Registry) (paired : ℕ) : List ParentPair :=
  r.clauses.toList.zipIdx.flatMap fun ci =>
    Round.pairsOf r.clauses.toList.zipIdx paired ci.1 ci.2

/-- A round tries the untried pairs one after the other. -/
lemma resolveRound_eq (r : Registry) (settings : Settings) (step paired : ℕ) :
    r.resolveRound settings step paired =
      ((r.untriedPairs paired).foldl (Round.tryPair settings step) ⟨r, false⟩).registry := by
  have hpairs : Round.tryPairsOf settings step r.clauses.toList.zipIdx paired = fun round ci =>
      (Round.pairsOf r.clauses.toList.zipIdx paired ci.1 ci.2).foldl
        (Round.tryPair settings step) round := by
    funext round ci
    exact Round.tryPairsOf_eq settings step _ paired round ci
  rw [resolveRound, untriedPairs, List.foldl_flatMap, hpairs]

/-- The registry after a round, with the pairs whose resolvents the round has asked for. -/
def resolveRoundReporting (r : Registry) (settings : Settings) (step paired : ℕ) :
    Registry × List ParentPair :=
  let numbered := r.clauses.toList.zipIdx
  let result := numbered.foldl (Round.tryPairsOfReporting settings step numbered paired)
    ({ registry := r, stopped := false }, [])
  (result.1.registry, result.2)

/-- A round that reports does what a round does and reports the pairs that it resolves. -/
lemma resolveRoundReporting_eq (r : Registry) (settings : Settings) (step paired : ℕ) :
    r.resolveRoundReporting settings step paired =
      (r.resolveRound settings step paired,
        Round.resolvedPairs settings step ⟨r, false⟩ (r.untriedPairs paired)) := by
  have hpairs : Round.tryPairsOfReporting settings step r.clauses.toList.zipIdx paired =
      fun x ci => (Round.pairsOf r.clauses.toList.zipIdx paired ci.1 ci.2).foldl
        (Round.tryPairReporting settings step) x := by
    funext x ci
    exact Round.tryPairsOfReporting_eq settings step _ paired x ci
  rw [resolveRoundReporting, hpairs, ← List.foldl_flatMap, ← untriedPairs,
    Round.foldl_tryPairReporting, resolveRound_eq, List.nil_append]

/-- The members of a numbered list from some number on. -/
lemma mem_drop_zipIdx_iff {α : Type} {l : List α} {k j : ℕ} {a : α} :
    (a, j) ∈ l.zipIdx.drop k ↔ l[j]? = some a ∧ k ≤ j := by
  rw [List.mem_iff_getElem?]
  simp only [List.getElem?_drop, List.getElem?_zipIdx, Option.map_eq_some_iff, Prod.mk.injEq,
    Nat.zero_add]
  constructor
  · rintro ⟨n, b, hb, rfl, rfl⟩
    exact ⟨hb, Nat.le_add_right k n⟩
  · rintro ⟨ha, hk⟩
    refine ⟨j - k, a, ?_, rfl, Nat.add_sub_cancel' hk⟩
    rwa [Nat.add_sub_cancel' hk]

/-- The untried pairs are those of registered clauses in the order of their numbers, of which the
second is not below `paired`. -/
lemma mem_untriedPairs {r : Registry} {paired : ℕ} {p : ParentPair} :
    p ∈ r.untriedPairs paired ↔ p.leftId < p.rightId ∧ paired ≤ p.rightId ∧
      r.get? p.leftId = some p.left ∧ r.get? p.rightId = some p.right := by
  simp only [untriedPairs, Round.pairsOf, List.mem_flatMap, List.mem_map, Prod.exists,
    mem_drop_zipIdx_iff, List.mem_zipIdx_iff_getElem?, get?, ← Array.getElem?_toList]
  constructor
  · rintro ⟨c, i, hc, d, j, ⟨hd, hj⟩, rfl⟩
    obtain ⟨hij, hpaired⟩ := Nat.max_le.mp hj
    exact ⟨hij, hpaired, hc, hd⟩
  · rintro ⟨hlt, hpaired, hleft, hright⟩
    exact ⟨p.left, p.leftId, hleft, p.right, p.rightId, ⟨hright, Nat.max_le.mpr ⟨hlt, hpaired⟩⟩,
      rfl⟩

/-- No two untried pairs have the same numbers. -/
lemma nodup_untriedPairs (r : Registry) (paired : ℕ) :
    ((r.untriedPairs paired).map fun p => (p.leftId, p.rightId)).Nodup := by
  have hnumbers : (r.clauses.toList.zipIdx.map Prod.snd).Nodup := by
    rw [List.zipIdx_map_snd]
    exact List.nodup_range'
  rw [untriedPairs, List.map_flatMap, List.nodup_flatMap]
  constructor
  · rintro ⟨c, i⟩ -
    have hdrop : ((r.clauses.toList.zipIdx.drop (max (i + 1) paired)).map Prod.snd).Nodup := by
      rw [List.map_drop]
      exact (List.drop_sublist _ _).nodup hnumbers
    have hids := hdrop.map (f := fun j => (i, j)) fun j k h => (Prod.mk.inj h).2
    rw [List.map_map] at hids
    rw [Round.pairsOf, List.map_map]
    exact hids
  · -- pairs that belong to different first clauses differ in their first number
    refine (List.pairwise_map.mp hnumbers).imp ?_
    rintro ⟨c, i⟩ ⟨d, j⟩ hij q hq hq'
    obtain ⟨p, hp, rfl⟩ := List.mem_map.mp hq
    obtain ⟨p', hp', heq⟩ := List.mem_map.mp hq'
    obtain ⟨e, -, rfl⟩ := List.mem_map.mp hp
    obtain ⟨e', -, rfl⟩ := List.mem_map.mp hp'
    exact hij (Prod.mk.inj heq).1.symm

end Registry

end Clausal
