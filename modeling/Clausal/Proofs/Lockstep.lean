import Clausal.Proofs.Bookkeeping

/-!
# Searches in lockstep

Settings are stricter than others if they have the same subsumption mode, lower ceilings, and an
early exit where the others have one.  Under stricter settings a search does the same, clause by
clause, until it stops and the other goes on.  It stops in a round for one of two reasons.  Either
the empty clause is there, and then the next step refutes under both settings, with the same clause.
Or it is not there and the ceiling on clauses is reached, and then nothing is decided.  So ceilings
that are raised do not change a verdict that has been reached, nor the proof behind it.
-/

namespace Clausal

/-- Settings under which a search stops wherever it does under others. -/
structure Settings.IsStricter (settings settings' : Settings) : Prop where
  subsumption_eq : settings.subsumption = settings'.subsumption
  maxSteps_le : settings.maxSteps ≤ settings'.maxSteps
  maxClauses_le : settings.maxClauses ≤ settings'.maxClauses
  earlyExit_imp : settings'.earlyExit = true → settings.earlyExit = true

/-! ## Empty clauses -/

namespace Registry

variable {r r' : Registry}

/-- A registry has an empty clause after a resolvent is added if it had one or the resolvent is
empty. -/
lemma hasEmpty_addResolvent (r : Registry) (step : ℕ) (p : ParentPair) (res : Resolvent) :
    (r.addResolvent step p res).HasEmpty ↔ r.HasEmpty ∨ res.clause.isEmpty = true := by
  rw [HasEmpty, HasEmpty, clauses_addResolvent]
  constructor
  · rintro ⟨c, hc, hempty⟩
    rcases List.mem_append.mp hc with hc | hc
    · exact Or.inl ⟨c, hc, hempty⟩
    · rw [List.mem_singleton.mp hc] at hempty
      exact Or.inr hempty
  · rintro (⟨c, hc, hempty⟩ | hempty)
    · exact ⟨c, List.mem_append_left _ hc, hempty⟩
    · exact ⟨_, List.mem_append_right _ List.mem_cons_self, hempty⟩

/-- The first empty clause stays the first one when clauses are added. -/
lemma IsPartOf.findEmpty?_eq (h : r.IsPartOf r') {idc : ℕ × Clause} (hr : r.findEmpty? = some idc) :
    r'.findEmpty? = some idc := by
  obtain ⟨more, hmore⟩ := h
  rw [findEmpty?, Option.map_eq_some_iff] at hr
  obtain ⟨ck, hck, rfl⟩ := hr
  rw [findEmpty?, ← hmore, List.zipIdx_append, List.find?_append, hck]
  rfl

/-- There is a first empty clause if there is one. -/
lemma HasEmpty.exists_findEmpty? (h : r.HasEmpty) : ∃ id c, r.findEmpty? = some (id, c) := by
  obtain ⟨⟨id, c⟩, hfind⟩ := Option.isSome_iff_exists.mp (isSome_findEmpty?_iff.mpr h)
  exact ⟨id, c, hfind⟩

end Registry

/-! ## Rounds in lockstep -/

namespace Round

variable {settings settings' : Settings} {step : ℕ}

/-- Two rounds that take the same offers, the first under stricter settings: they are the same, or
the first one has stopped and the second one has gone on from there. -/
inductive Lockstep (settings settings' : Settings) : Round → Round → Prop where
  | together {round : Round} (hempty : round.stopped = false → settings.earlyExit = true →
      ¬ round.registry.HasEmpty) : Lockstep settings settings' round round
  | apart {round round' : Round} (hstopped : round.stopped = true)
      (hgrows : round.registry.Grows round'.registry)
      (hempty : settings'.earlyExit = true → ¬ round.registry.HasEmpty) :
      Lockstep settings settings' round round'

/-- A round only adds to its registry when it takes an offer. -/
lemma grows_take (settings : Settings) (step : ℕ) (round : Round) (o : Offer) :
    round.registry.Grows (take settings step round o).registry := by
  rcases offer_cases settings step o.1 round o.2 with ⟨heq, -⟩ | ⟨heq, -⟩
  · rw [take, heq]
    exact .refl _
  · rw [take, heq]
    exact Registry.grows_addResolvent _ _ _ _

/-- A round that stops under laxer settings when a resolvent is registered stops under stricter
ones. -/
lemma stopped_registered_of_isStricter (h : settings.IsStricter settings') {round : Round}
    {p : ParentPair} {res : Resolvent}
    (hstopped : (registered settings' step round p res).stopped = true) :
    (registered settings step round p res).stopped = true := by
  rcases Bool.or_eq_true_iff.mp hstopped with hexit | hceiling
  · obtain ⟨hempty, hearly⟩ := Bool.and_eq_true_iff.mp hexit
    exact Bool.or_eq_true_iff.mpr
      (Or.inl (Bool.and_eq_true_iff.mpr ⟨hempty, h.earlyExit_imp hearly⟩))
  · refine Bool.or_eq_true_iff.mpr (Or.inr (decide_eq_true ?_))
    exact Nat.le_trans h.maxClauses_le (of_decide_eq_true hceiling)

/-- A round that goes on with early exit after a resolvent is registered has not found the empty
clause by it. -/
lemma isEmpty_of_stopped_registered {round : Round} {p : ParentPair} {res : Resolvent}
    (hstopped : (registered settings step round p res).stopped = false)
    (hearly : settings.earlyExit = true) : ¬ res.clause.isEmpty = true := by
  intro hempty
  obtain ⟨hexit, -⟩ := Bool.or_eq_false_iff.mp hstopped
  rw [hempty, hearly] at hexit
  cases hexit

/-- Rounds in lockstep stay so when the same resolvent is registered in both. -/
lemma lockstep_registered (h : settings.IsStricter settings') {round : Round}
    (hempty : settings.earlyExit = true → ¬ round.registry.HasEmpty) (p : ParentPair)
    (res : Resolvent) :
    Lockstep settings settings' (registered settings step round p res)
      (registered settings' step round p res) := by
  cases hstopped : (registered settings step round p res).stopped with
  | false =>
    have hstopped' : (registered settings' step round p res).stopped = false := by
      by_contra hne
      rw [Bool.not_eq_false] at hne
      rw [stopped_registered_of_isStricter h hne] at hstopped
      cases hstopped
    have hsame : registered settings' step round p res = registered settings step round p res := by
      rw [registered, registered, Round.mk.injEq]
      exact ⟨rfl, hstopped'.trans hstopped.symm⟩
    rw [hsame]
    refine .together fun _ hearly => ?_
    rw [registered, Registry.hasEmpty_addResolvent]
    exact not_or.mpr ⟨hempty hearly, isEmpty_of_stopped_registered hstopped hearly⟩
  | true =>
    cases hstopped' : (registered settings' step round p res).stopped with
    | true =>
      have hsame : registered settings' step round p res =
          registered settings step round p res := by
        rw [registered, registered, Round.mk.injEq]
        exact ⟨rfl, hstopped'.trans hstopped.symm⟩
      rw [hsame]
      refine .together fun hgoes => ?_
      rw [hstopped] at hgoes
      cases hgoes
    | false =>
      refine .apart hstopped (.refl _) fun hearly => ?_
      rw [registered, Registry.hasEmpty_addResolvent]
      exact not_or.mpr ⟨hempty (h.earlyExit_imp hearly),
        isEmpty_of_stopped_registered hstopped' hearly⟩

/-- Rounds in lockstep stay so when both take an offer. -/
lemma Lockstep.take (h : settings.IsStricter settings') {round round' : Round}
    (hround : Lockstep settings settings' round round') (o : Offer) :
    Lockstep settings settings' (take settings step round o) (take settings' step round' o) := by
  cases hround with
  | apart hstopped hgrows hempty =>
    rw [take_of_stopped hstopped]
    exact .apart hstopped (hgrows.trans (grows_take _ _ _ _)) hempty
  | together hempty =>
    unfold Round.take
    rcases offer_cases settings step o.1 round o.2 with ⟨heq, hpass⟩ | ⟨heq, hgoes, hcovers⟩
    · rcases offer_cases settings' step o.1 round o.2 with ⟨heq', -⟩ | ⟨-, hgoes', hcovers'⟩
      · rw [heq, heq']
        exact .together hempty
      · rw [← h.subsumption_eq] at hcovers'
        rcases hpass with hstopped | hcovers
        · rw [hgoes'] at hstopped
          cases hstopped
        · exact absurd hcovers hcovers'
    · rcases offer_cases settings' step o.1 round o.2 with ⟨-, hpass'⟩ | ⟨heq', -⟩
      · rw [← h.subsumption_eq] at hpass'
        rcases hpass' with hstopped | hcovers'
        · rw [hgoes] at hstopped
          cases hstopped
        · exact absurd hcovers' hcovers
      · rw [heq, heq']
        exact lockstep_registered h (hempty hgoes) o.1 o.2

/-- Rounds on the same registry run in lockstep. -/
lemma lockstep_foldl_take (h : settings.IsStricter settings') {r : Registry} (hr : ¬ r.HasEmpty)
    (step : ℕ) (offers : List Offer) :
    Lockstep settings settings' (offers.foldl (take settings step) ⟨r, false⟩)
      (offers.foldl (take settings' step) ⟨r, false⟩) := by
  have hstart : Lockstep settings settings' ⟨r, false⟩ ⟨r, false⟩ := .together fun _ _ => hr
  exact List.foldl_rel hstart fun o _ _ _ hround => hround.take h o

end Round

/-! ## Runs in lockstep -/

namespace Search

/-- A search that goes on under other settings. -/
def under (s : Search) (settings : Settings) : Search :=
  { s with settings }

variable {s : Search} {settings' : Settings}

/-- A search that can run a round can do so under laxer settings. -/
lemma CanResolve.under (h : s.settings.IsStricter settings') (hs : s.CanResolve) :
    (s.under settings').CanResolve where
  noEmpty := hs.noEmpty
  stepsMade_lt := Nat.lt_of_lt_of_le hs.stepsMade_lt h.maxSteps_le
  size_lt := Nat.lt_of_lt_of_le hs.size_lt h.maxClauses_le

/-- A round comes to the same under laxer settings, unless it stops with the empty clause or,
without it, at the ceiling on clauses, and then it goes on from there under laxer settings. -/
lemma round_under (h : s.settings.IsStricter settings') (hs : s.CanResolve) :
    (s.under settings').counted.round.registry = s.counted.round.registry ∨
      s.counted.round.registry.Grows (s.under settings').counted.round.registry ∧
        (s.counted.round.registry.HasEmpty ∧ settings'.earlyExit = false ∨
          ¬ s.counted.round.registry.HasEmpty ∧
            s.settings.maxClauses ≤ s.counted.round.registry.size) := by
  have hround : s.counted.round.registry =
      ((s.registry.offers (s.stepsMade + 1) s.paired).foldl
        (Round.take s.settings (s.stepsMade + 1)) ⟨s.registry, false⟩).registry :=
    Round.resolveRound_eq_foldl_take _ _ _ _
  have hround' : (s.under settings').counted.round.registry =
      ((s.registry.offers (s.stepsMade + 1) s.paired).foldl
        (Round.take settings' (s.stepsMade + 1)) ⟨s.registry, false⟩).registry :=
    Round.resolveRound_eq_foldl_take _ _ _ _
  have hreason : ((s.registry.offers (s.stepsMade + 1) s.paired).foldl
        (Round.take s.settings (s.stepsMade + 1)) ⟨s.registry, false⟩).stopped = true →
      s.counted.round.registry.HasEmpty ∨
        s.settings.maxClauses ≤ s.counted.round.registry.size := by
    rw [hround, Round.foldl_take_offers]
    exact Round.exists_isEmpty_or_le_of_stopped
  have hlockstep := Round.lockstep_foldl_take h hs.noEmpty (s.stepsMade + 1)
    (s.registry.offers (s.stepsMade + 1) s.paired)
  rw [hround] at hreason ⊢
  rw [hround']
  generalize (s.registry.offers (s.stepsMade + 1) s.paired).foldl
    (Round.take s.settings (s.stepsMade + 1)) ⟨s.registry, false⟩ = round at hlockstep hreason
  generalize (s.registry.offers (s.stepsMade + 1) s.paired).foldl
    (Round.take settings' (s.stepsMade + 1)) ⟨s.registry, false⟩ = round' at hlockstep
  cases hlockstep with
  | together => exact Or.inl rfl
  | apart hstopped hgrows hempty =>
    refine Or.inr ⟨hgrows, ?_⟩
    by_cases hfound : round.registry.HasEmpty
    · exact Or.inl ⟨hfound, Bool.eq_false_iff.mpr fun hearly => hempty hearly hfound⟩
    · exact Or.inr ⟨hfound, (hreason hstopped).resolve_left hfound⟩

/-- A round that registers nothing cannot have stopped, so it comes to the same under laxer
settings. -/
lemma round_under_of_size_eq (h : s.settings.IsStricter settings') (hs : s.CanResolve)
    (hsize : s.counted.round.registry.size = s.registry.size) :
    (s.under settings').counted.round.registry = s.counted.round.registry := by
  have hclauses : s.counted.round.registry.clauses = s.registry.clauses :=
    s.isPartOf_round.clauses_eq hsize
  rcases round_under h hs with hsame | ⟨-, ⟨hempty, -⟩ | ⟨-, hfull⟩⟩
  · exact hsame
  · rw [Registry.HasEmpty, hclauses] at hempty
    exact absurd hempty hs.noEmpty
  · rw [hsize] at hfull
    exact absurd hs.size_lt (Nat.not_lt.mpr hfull)

/-- If a round finds the empty clause, and goes on from there under laxer settings, then both
searches refute in the next step. -/
lemma run_under_of_hasEmpty (h : s.settings.IsStricter settings') (hs : s.CanResolve)
    (hlt : s.registry.size < s.counted.round.registry.size)
    (hgrows : s.counted.round.registry.Grows (s.under settings').counted.round.registry)
    (hempty : s.counted.round.registry.HasEmpty) :
    s.counted.round.run.2 = .refuted ∧ (s.under settings').run.2 = .refuted ∧
      s.counted.round.run.1.registry.IsPartOf (s.under settings').run.1.registry ∧
      s.counted.round.run.1.registry.log.steps <+:
        (s.under settings').run.1.registry.log.steps := by
  obtain ⟨id, c, hfind⟩ := hempty.exists_findEmpty?
  have hfind' := hgrows.isPartOf.findEmpty?_eq hfind
  have hlt' := Nat.lt_of_lt_of_le hlt hgrows.isPartOf.size_le
  have hstep' := (hs.under h).step_of_size_ne (Nat.ne_of_gt hlt')
  rw [run_of_step_none (congrArg Prod.snd hstep'), hstep', run_of_findEmpty? hfind',
    run_of_findEmpty? hfind]
  refine ⟨rfl, rfl, hgrows.isPartOf, ?_⟩
  have hsteps : ∀ r : Registry, (r.note (.contradiction id c.provenance.parents)).log.steps =
      r.log.steps := fun r => ProofLog.steps_push_of_forall_ne fun _ => nofun
  exact (hsteps _).symm ▸ (hsteps _).symm ▸ hgrows.log.filterMap _

/-- A verdict that is not open is reached under laxer settings too.  The clauses and the log are the
same, unless the search refutes in a round that goes on, under laxer settings, after the empty
clause is found. -/
lemma run_under (h : s.settings.IsStricter settings') (hdecided : s.run.2 ≠ .undetermined) :
    (s.under settings').run.2 = s.run.2 ∧
      ((s.under settings').run.1.registry = s.run.1.registry ∨
        s.run.2 = .refuted ∧ settings'.earlyExit = false ∧
          s.run.1.registry.IsPartOf (s.under settings').run.1.registry ∧
          s.run.1.registry.log.steps <+: (s.under settings').run.1.registry.log.steps) := by
  fun_induction Search.run s with
  | case1 s t verdict hstep =>
    have houtcome := outcome_of_step_eq hstep
    cases houtcome with
    | contradiction e hempty =>
      obtain ⟨id, c, hfind⟩ := hempty.exists_findEmpty?
      have hfind' : (s.under settings').registry.findEmpty? = some (id, c) := hfind
      have heq := (Prod.mk.inj (hstep.symm.trans (step_of_findEmpty? hfind))).1
      rw [run_of_findEmpty? hfind', heq]
      exact ⟨rfl, Or.inl rfl⟩
    | ceiling => exact absurd rfl hdecided
    | saturated e hs hsize =>
      have hround := round_under_of_size_eq h hs hsize
      have hsize' : (s.under settings').counted.round.registry.size = s.registry.size := by
        rw [hround]
        exact hsize
      have hstep' := (hs.under h).step_of_size_eq hsize'
      have heq := (Prod.mk.inj (hstep.symm.trans (hs.step_of_size_eq hsize))).1
      rw [run_of_step_some (congrArg Prod.snd hstep'), hstep', heq, finish, finish, hround]
      exact ⟨rfl, Or.inl rfl⟩
  | case2 s t hstep ih =>
    obtain ⟨hs, hround, hsize⟩ := (outcome_of_step_eq hstep).eq_round_of_none
    have hsettings : t.settings = s.settings := (step_none hstep).1
    have hlt := (outcome_of_step_eq hstep).size_lt_of_none
    rcases round_under h hs with hsame | ⟨hgrows, ⟨hempty, hearly⟩ | ⟨hempty, hfull⟩⟩
    · have hgoes : (s.under settings').step = (t.under settings', none) := by
        have hnext : (s.under settings').counted.round = t.under settings' := by
          rw [hround]
          exact congrArg (fun r => Search.mk settings' r (s.stepsMade + 1) s.registry.size) hsame
        rw [(hs.under h).step_of_size_ne (hnext.symm ▸ hsize), hnext]
      have hrun' := run_of_step_none (congrArg Prod.snd hgoes)
      rw [hrun', hgoes]
      exact ih (hsettings ▸ h) hdecided
    · rw [hround] at hlt ⊢
      obtain ⟨hrefuted, hrefuted', hpart, hsteps⟩ := run_under_of_hasEmpty h hs hlt hgrows hempty
      exact ⟨hrefuted'.trans hrefuted.symm, Or.inr ⟨hrefuted, hearly, hpart, hsteps⟩⟩
    · -- the search cannot go on, so that the verdict stays open
      rw [← hround] at hempty hfull
      have hnot : ¬ t.CanResolve := by
        intro ht
        have hsize_lt := ht.size_lt
        rw [hsettings] at hsize_lt
        exact Nat.not_le.mpr hsize_lt hfull
      exact absurd (run_of_not_canResolve hempty hnot) hdecided

end Search

end Clausal
