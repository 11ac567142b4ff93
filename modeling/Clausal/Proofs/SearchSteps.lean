import Clausal.Proofs.Rounds
import Clausal.Search.Run

/-!
# Steps and runs of a search

A step ends the search, because there is the empty clause, because a ceiling is reached or because a
round adds nothing, or it is a round that adds clauses.  A run makes steps of the last kind and then
one that ends it.  So whatever rounds keep holds until the last step of every run.
-/

namespace Clausal

/-! ## The empty clause -/

/-- The empty clause is registered. -/
def Registry.HasEmpty (r : Registry) : Prop :=
  ∃ c ∈ r.clauses.toList, c.isEmpty = true

/-- An empty clause is found exactly if there is one. -/
lemma Registry.isSome_findEmpty?_iff {r : Registry} : r.findEmpty?.isSome = true ↔ r.HasEmpty := by
  rw [findEmpty?, Option.isSome_map, List.find?_isSome, HasEmpty]
  constructor
  · rintro ⟨⟨c, i⟩, hc, hempty⟩
    exact ⟨c, (List.mem_zipIdx' hc).2 ▸ List.getElem_mem _, hempty⟩
  · rintro ⟨c, hc, hempty⟩
    obtain ⟨i, hi⟩ := List.mem_iff_getElem?.mp hc
    exact ⟨(c, i), List.mem_zipIdx_iff_getElem?.mpr hi, hempty⟩

namespace Search

/-! ## One step -/

/-- The search with one step more counted. -/
def counted (s : Search) : Search :=
  { s with stepsMade := s.stepsMade + 1 }

/-- The conditions under which a step runs a round. -/
structure CanResolve (s : Search) : Prop where
  noEmpty : ¬ s.registry.HasEmpty
  stepsMade_lt : s.stepsMade < s.settings.maxSteps
  size_lt : s.registry.size < s.settings.maxClauses

/-- What a step can come to. -/
inductive Outcome (s : Search) : Search → Option Verdict → Prop where
  | contradiction (e : LogEntry) (h : s.registry.HasEmpty) :
      Outcome s (s.counted.finish e) (some .refuted)
  | ceiling (e : LogEntry) (h : ¬ s.registry.HasEmpty) (hfull : ¬ s.CanResolve) :
      Outcome s (s.counted.finish e) (some .undetermined)
  | saturated (e : LogEntry) (h : s.CanResolve)
      (hsize : s.counted.round.registry.size = s.registry.size) :
      Outcome s (s.counted.round.finish e) (some .notRefuted)
  | progress (h : s.CanResolve) (hsize : s.counted.round.registry.size ≠ s.registry.size) :
      Outcome s s.counted.round none

/-- Every step comes to one of these. -/
lemma outcome_step (s : Search) : Outcome s s.step.1 s.step.2 := by
  unfold step
  simp only
  split
  · rename_i id c hfind
    refine .contradiction _ (Registry.isSome_findEmpty?_iff.mp ?_)
    rw [hfind]
    rfl
  · rename_i hfind
    have hempty : ¬ s.registry.HasEmpty := by
      intro h
      have hsome := Registry.isSome_findEmpty?_iff.mpr h
      rw [hfind] at hsome
      cases hsome
    split
    · rename_i hceiling
      refine .ceiling _ hempty fun h => ?_
      have hsteps := h.stepsMade_lt
      have hclauses := h.size_lt
      omega
    · rename_i hceiling
      obtain ⟨hsteps, hclauses⟩ := not_or.mp hceiling
      have h : s.CanResolve := ⟨hempty, Nat.lt_of_succ_le (Nat.not_lt.mp hsteps),
        Nat.not_le.mp hclauses⟩
      split
      · rename_i hsize
        exact .saturated _ h hsize
      · rename_i hsize
        exact .progress h hsize

/-- A step that finds the empty clause refutes. -/
lemma step_of_findEmpty? {s : Search} {id : ℕ} {c : Clause}
    (h : s.registry.findEmpty? = some (id, c)) :
    s.step = (s.counted.finish (.contradiction id c.provenance.parents), some .refuted) := by
  unfold step
  simp only [h]
  rfl

/-- A step that can run a round does, and ends the search if the round adds nothing. -/
lemma CanResolve.step_eq {s : Search} (h : s.CanResolve) :
    s.step = if s.counted.round.registry.size = s.registry.size then
      (s.counted.round.finish .noNewClauses, some .notRefuted) else (s.counted.round, none) := by
  have hfind : s.registry.findEmpty? = none := by
    rw [← Option.not_isSome_iff_eq_none, Registry.isSome_findEmpty?_iff]
    exact h.noEmpty
  have hsteps := h.stepsMade_lt
  have hclauses := h.size_lt
  unfold step
  simp only [hfind]
  rw [if_neg (by omega)]
  rfl

/-- A step whose round adds nothing ends the search. -/
lemma CanResolve.step_of_size_eq {s : Search} (h : s.CanResolve)
    (hsize : s.counted.round.registry.size = s.registry.size) :
    s.step = (s.counted.round.finish .noNewClauses, some .notRefuted) :=
  h.step_eq.trans (if_pos hsize)

/-- A step whose round adds clauses is the round. -/
lemma CanResolve.step_of_size_ne {s : Search} (h : s.CanResolve)
    (hsize : s.counted.round.registry.size ≠ s.registry.size) :
    s.step = (s.counted.round, none) :=
  h.step_eq.trans (if_neg hsize)

/-- What a step comes to is one of these. -/
lemma outcome_of_step_eq {s t : Search} {verdict : Option Verdict} (h : s.step = (t, verdict)) :
    Outcome s t verdict := by
  have houtcome := s.outcome_step
  rw [h] at houtcome
  exact houtcome

/-- A step keeps the settings. -/
lemma Outcome.settings_eq {s t : Search} {verdict : Option Verdict} (h : Outcome s t verdict) :
    t.settings = s.settings := by
  cases h <;> rfl

/-- A step that does not end the search is a round that adds clauses. -/
lemma Outcome.eq_round_of_none {s t : Search} (h : Outcome s t none) :
    s.CanResolve ∧ t = s.counted.round ∧ t.registry.size ≠ s.registry.size := by
  cases h with
  | progress hs hsize => exact ⟨hs, rfl, hsize⟩

/-- Counting a step and running a round keep the clauses. -/
lemma isPartOf_round (s : Search) : s.registry.IsPartOf s.counted.round.registry := by
  rw [round, Registry.resolveRound_eq]
  exact Round.isPartOf_foldl_tryPair _ _ _ ⟨s.registry, false⟩

/-- So there are more clauses after such a step. -/
lemma Outcome.size_lt_of_none {s t : Search} (h : Outcome s t none) :
    s.registry.size < t.registry.size := by
  obtain ⟨-, rfl, hsize⟩ := h.eq_round_of_none
  exact Nat.lt_of_le_of_ne s.isPartOf_round.size_le (Ne.symm hsize)

/-- What holds of the clauses and of each resolvent of clauses that it holds of, whatever number it
gets, holds of the clauses after a round. -/
lemma forall_mem_round {P : Clause → Prop} {s : Search} (hP : ∀ c ∈ s.registry.clauses.toList, P c)
    (keep : ∀ (p : ParentPair) (step id : ℕ), p.left ∈ s.registry.clauses.toList →
      p.right ∈ s.registry.clauses.toList → ∀ res ∈ p.resolvents step,
      P { res.clause with id := some id }) :
    ∀ c ∈ s.counted.round.registry.clauses.toList, P c := by
  rw [round, Registry.resolveRound_eq]
  refine Round.foldl_tryPair_induct (P := fun r => ∀ c ∈ r.registry.clauses.toList, P c) hP ?_
  intro r p hp res hres hr _ _ c hc
  rw [Round.registered, Registry.clauses_addResolvent, List.mem_append, List.mem_singleton] at hc
  rcases hc with hc | rfl
  · exact hr c hc
  · obtain ⟨-, -, hleft, hright⟩ := Registry.mem_untriedPairs.mp hp
    exact keep p _ _ (Array.mem_toList_iff.mpr (Array.mem_of_getElem? hleft))
      (Array.mem_toList_iff.mpr (Array.mem_of_getElem? hright)) res hres

/-- A round adds clauses that are not redundant. -/
lemma irredundantFrom_round {s : Search} {n : ℕ}
    (h : s.registry.IrredundantFrom s.settings.subsumption n) :
    s.counted.round.registry.IrredundantFrom s.settings.subsumption n := by
  rw [round, Registry.resolveRound_eq]
  exact Round.foldl_tryPair_induct
    (P := fun r => r.registry.IrredundantFrom s.settings.subsumption n) h
    fun r p _ res _ hr _ hcovers => Round.irredundantFrom_registered hr hcovers

/-! ## Runs -/

/-- A run that begins with a step which ends the search comes to the verdict of that step. -/
lemma run_of_step_some {s : Search} {verdict : Verdict} (h : s.step.2 = some verdict) :
    s.run = (s.step.1, verdict) := by
  have hstep : s.step = (s.step.1, some verdict) := Prod.ext rfl h
  rw [run]
  split
  · rename_i t v heq
    obtain ⟨rfl, hv⟩ := Prod.mk.inj (heq.symm.trans hstep)
    rw [Option.some.inj hv]
  · rename_i t heq
    cases (Prod.mk.inj (heq.symm.trans hstep)).2

/-- A run that begins with a step which does not end the search goes on after that step. -/
lemma run_of_step_none {s : Search} (h : s.step.2 = none) : s.run = s.step.1.run := by
  have hstep : s.step = (s.step.1, none) := Prod.ext rfl h
  rw [run]
  split
  · rename_i t v heq
    cases (Prod.mk.inj (heq.symm.trans hstep)).2
  · rename_i t heq
    rw [(Prod.mk.inj (heq.symm.trans hstep)).1]

/-- A run keeps the settings. -/
lemma settings_run (s : Search) : s.run.1.settings = s.settings := by
  fun_induction run s with
  | case1 s t verdict hstep => exact (outcome_of_step_eq hstep).settings_eq
  | case2 s t hstep ih => exact ih.trans (outcome_of_step_eq hstep).settings_eq

/-- A run that begins with the empty clause refutes at once. -/
lemma run_of_findEmpty? {s : Search} {id : ℕ} {c : Clause}
    (h : s.registry.findEmpty? = some (id, c)) :
    s.run = (s.counted.finish (.contradiction id c.provenance.parents), .refuted) := by
  have hstep := step_of_findEmpty? h
  rw [run_of_step_some (congrArg Prod.snd hstep), hstep]

/-- A run that begins at a ceiling without the empty clause leaves the verdict open. -/
lemma run_of_not_canResolve {s : Search} (hempty : ¬ s.registry.HasEmpty) (h : ¬ s.CanResolve) :
    s.run.2 = .undetermined := by
  have houtcome := s.outcome_step
  generalize hstep : s.step = result at houtcome
  obtain ⟨t, verdict⟩ := result
  cases houtcome with
  | contradiction e hfound => exact absurd hfound hempty
  | ceiling e _ _ => rw [run_of_step_some (congrArg Prod.snd hstep)]
  | saturated e hs _ => exact absurd hs h
  | progress hs _ => exact absurd hs h

/-- A run comes to a last step, and what holds at the start and is kept by the steps that do not end
the search holds before that last step. -/
lemma exists_outcome_run {P : Search → Prop} {s : Search} (start : P s)
    (keep : ∀ s t, P s → Outcome s t none → P t) :
    ∃ t, P t ∧ Outcome t s.run.1 (some s.run.2) := by
  fun_induction run s with
  | case1 s t verdict hstep =>
    refine ⟨s, start, ?_⟩
    have houtcome := s.outcome_step
    rw [hstep] at houtcome
    exact houtcome
  | case2 s t hstep ih =>
    have houtcome := s.outcome_step
    rw [hstep] at houtcome
    exact ih (keep s t start houtcome)

end Search

/-! ## Steps of given searches -/

namespace Evaluation

-- the equations by which `simp`, with those for resolvents, makes steps of searches that are
-- written out
attribute [scoped simp] Search.step Search.round Search.finish Settings.standard
  Registry.findEmpty? Registry.size Registry.register Registry.note Registry.addResolvent
  Registry.resolveRound Round.tryPairsOf Round.pairsOf Round.tryPair Round.offer
  Clause.redundancy? Clause.isEmpty Clause.isTautology Clause.hasComplementaryPair
  Literal.complement Clause.subsumesIn Clause.sameLiterals Clause.subsumes Clause.embeds
  Clause.selections Literal.matchOnto Term.matchOnto Term.matchListOnto Substitution.get?

end Evaluation

end Clausal
