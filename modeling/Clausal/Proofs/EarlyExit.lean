import Clausal.Proofs.HigherCeilings

/-!
# Early exit

With early exit a round stops as soon as the empty clause is registered; without it the round goes
on through its other offers, and may register more clauses.  This cannot change anything but the end
of the log.  Until the empty clause is found, the two searches do the same.  When it is found, it is
the last clause of the search with early exit, and the first empty clause of both.  As the next step
looks for the empty clause before it looks at the ceilings, both refute in it, even if the longer
round has reached the ceiling on clauses.  The clauses that were registered meanwhile are not traced
back from the empty clause, which has a lower number.
-/

namespace Clausal

/-- The settings without early exit. -/
def Settings.withoutExit (settings : Settings) : Settings :=
  { settings with earlyExit := false }

/-- A search with early exit stops wherever it does without. -/
lemma Settings.isStricter_withoutExit (settings : Settings) :
    settings.IsStricter settings.withoutExit :=
  ⟨rfl, Nat.le_refl _, Nat.le_refl _, nofun⟩

/-- A log is another one without steps that are recorded after the step that derives the empty
clause: the two are the same, or they differ in steps dropped from there on. -/
def ProofLog.IsCutOf (log log' : ProofLog) : Prop :=
  log = log' ∨
    ∃ (before after : List LogEntry) (last : ResolutionStep) (dropped : List ResolutionStep),
    log'.entries.toList = before ++ .resolution last :: dropped.map .resolution ++ after ∧
    log.entries.toList = before ++ .resolution last :: after ∧
    log.contradiction? = some last.resolventId

/-! ## The empty clause as the last one -/

namespace Registry

variable {r r' : Registry} {given : ℕ} {ending : List LogEntry}

/-- The last clause is empty, and no other one is. -/
def EndsEmpty (r : Registry) : Prop :=
  ∃ id c, r.findEmpty? = some (id, c) ∧ r.size = id + 1

lemma EndsEmpty.hasEmpty (h : r.EndsEmpty) : r.HasEmpty := by
  obtain ⟨id, c, hfind, -⟩ := h
  rw [← isSome_findEmpty?_iff, hfind]
  rfl

/-- An empty resolvent that is added to clauses that are not empty is the first empty clause. -/
lemma endsEmpty_addResolvent (hr : ¬ r.HasEmpty) (step : ℕ) (p : ParentPair) {res : Resolvent}
    (hres : res.clause.isEmpty = true) : (r.addResolvent step p res).EndsEmpty := by
  have hnone : r.clauses.toList.zipIdx.find? (·.1.isEmpty) = none := by
    rw [← isSome_findEmpty?_iff, findEmpty?, Option.isSome_map, Bool.not_eq_true,
      Option.isSome_eq_false_iff, Option.isNone_iff_eq_none] at hr
    exact hr
  refine ⟨r.size, { res.clause with id := some r.size }, ?_, size_addResolvent _ _ _ _⟩
  rw [findEmpty?, clauses_addResolvent, List.zipIdx_append, List.find?_append, hnone,
    Option.none_or, List.zipIdx_singleton]
  simp only [List.find?_singleton, Nat.zero_add]
  exact congrArg (Option.map _) (if_pos hres)

/-- If the last clause is empty and derived, then the last step that is recorded derives it. -/
lemma Documented.exists_steps_eq {mode : SubsumptionMode} (h : r.Documented mode given ending)
    (hends : r.EndsEmpty) (hlt : given < r.size) :
    ∃ steps last c, r.log.steps = steps ++ [last] ∧ r.findEmpty? = some (last.resolventId, c) := by
  obtain ⟨id, c, hfind, hsize⟩ := hends
  have hlength := h.length_steps
  have hne : r.log.steps ≠ [] := by
    intro hnil
    rw [hnil, List.length_nil] at hlength
    omega
  have hlast : r.log.steps[r.log.steps.length - 1]? = some (r.log.steps.getLast hne) := by
    rw [List.getLast_eq_getElem, List.getElem?_eq_getElem]
  have hid : (r.log.steps.getLast hne).resolventId = id := by
    rw [(h.tells _ _ hlast).resolventId_eq]
    have hpos := List.length_pos_iff.mpr hne
    omega
  exact ⟨_, _, c, (List.dropLast_append_getLast hne).symm, hid ▸ hfind⟩

end Registry

/-! ## Rounds with and without early exit -/

namespace Round

variable {settings : Settings} {step : ℕ}

/-- Two rounds that take the same offers, the second one without early exit: they are the same, or
the first one has stopped at the empty clause and the second one has gone on from there. -/
inductive Overrun : Round → Round → Prop where
  | together {round : Round} (hempty : round.stopped = false → ¬ round.registry.HasEmpty) :
      Overrun round round
  | apart {round round' : Round} (hstopped : round.stopped = true)
      (hends : round.registry.EndsEmpty) (hgrows : round.registry.Grows round'.registry) :
      Overrun round round'

/-- When the same resolvent is registered in both rounds, the first one stops if it is empty, and
otherwise the rounds stay the same. -/
lemma overrun_registered (hexit : settings.earlyExit = true) {round : Round}
    (hempty : ¬ round.registry.HasEmpty) (p : ParentPair) (res : Resolvent) :
    Overrun (registered settings step round p res)
      (registered settings.withoutExit step round p res) := by
  cases hres : res.clause.isEmpty with
  | true =>
    have hstopped : (registered settings step round p res).stopped = true :=
      Bool.or_eq_true_iff.mpr (Or.inl (Bool.and_eq_true_iff.mpr ⟨hres, hexit⟩))
    exact .apart hstopped (Registry.endsEmpty_addResolvent hempty step p hres) (.refl _)
  | false =>
    have hsame : registered settings.withoutExit step round p res =
        registered settings step round p res := by
      rw [registered, registered, Round.mk.injEq, hres]
      exact ⟨rfl, rfl⟩
    rw [hsame]
    refine .together fun _ => ?_
    rw [registered, Registry.hasEmpty_addResolvent, hres]
    exact not_or.mpr ⟨hempty, Bool.false_ne_true⟩

/-- Taking one more offer keeps the two rounds in this relation. -/
lemma Overrun.take (hexit : settings.earlyExit = true) {round round' : Round}
    (hround : Overrun round round') (o : Offer) :
    Overrun (take settings step round o) (take settings.withoutExit step round' o) := by
  cases hround with
  | apart hstopped hends hgrows =>
    rw [take_of_stopped hstopped]
    exact .apart hstopped hends (hgrows.trans (grows_take _ _ _ _))
  | together hempty =>
    unfold Round.take
    rcases offer_cases settings step o.1 round o.2 with ⟨heq, hpass⟩ | ⟨heq, hgoes, hcovers⟩
    · rcases offer_cases settings.withoutExit step o.1 round o.2 with
        ⟨heq', -⟩ | ⟨-, hgoes', hcovers'⟩
      · rw [heq, heq']
        exact .together hempty
      · rcases hpass with hstopped | hcovers
        · rw [hgoes'] at hstopped
          cases hstopped
        · exact absurd hcovers hcovers'
    · rcases offer_cases settings.withoutExit step o.1 round o.2 with ⟨-, hpass'⟩ | ⟨heq', -⟩
      · rcases hpass' with hstopped | hcovers'
        · rw [hgoes] at hstopped
          cases hstopped
        · exact absurd hcovers' hcovers
      · rw [heq, heq']
        exact overrun_registered hexit (hempty hgoes) o.1 o.2

/-- So the relation holds after all offers, if there is no empty clause before the first one. -/
lemma overrun_foldl_take (hexit : settings.earlyExit = true) {r : Registry} (hr : ¬ r.HasEmpty)
    (step : ℕ) (offers : List Offer) :
    Overrun (offers.foldl (take settings step) ⟨r, false⟩)
      (offers.foldl (take settings.withoutExit step) ⟨r, false⟩) := by
  have hstart : Overrun ⟨r, false⟩ ⟨r, false⟩ := .together fun _ => hr
  exact List.foldl_rel hstart fun o _ _ _ hround => hround.take hexit o

end Round

/-! ## Runs with and without early exit -/

namespace Search

variable {s : Search} {given : ℕ}

/-- A round comes to the same without early exit, unless it stops at the empty clause, and then it
goes on from there. -/
lemma round_withoutExit (hexit : s.settings.earlyExit = true) (hs : s.CanResolve) :
    (s.under s.settings.withoutExit).counted.round.registry = s.counted.round.registry ∨
      s.counted.round.registry.EndsEmpty ∧
        s.counted.round.registry.Grows
          (s.under s.settings.withoutExit).counted.round.registry := by
  have hround : s.counted.round.registry =
      ((s.registry.offers (s.stepsMade + 1) s.paired).foldl
        (Round.take s.settings (s.stepsMade + 1)) ⟨s.registry, false⟩).registry :=
    Round.resolveRound_eq_foldl_take _ _ _ _
  have hround' : (s.under s.settings.withoutExit).counted.round.registry =
      ((s.registry.offers (s.stepsMade + 1) s.paired).foldl
        (Round.take s.settings.withoutExit (s.stepsMade + 1)) ⟨s.registry, false⟩).registry :=
    Round.resolveRound_eq_foldl_take _ _ _ _
  have hoverrun := Round.overrun_foldl_take hexit hs.noEmpty (s.stepsMade + 1)
    (s.registry.offers (s.stepsMade + 1) s.paired)
  rw [hround, hround']
  generalize (s.registry.offers (s.stepsMade + 1) s.paired).foldl
    (Round.take s.settings (s.stepsMade + 1)) ⟨s.registry, false⟩ = round at hoverrun
  generalize (s.registry.offers (s.stepsMade + 1) s.paired).foldl
    (Round.take s.settings.withoutExit (s.stepsMade + 1)) ⟨s.registry, false⟩ = round' at hoverrun
  cases hoverrun with
  | together => exact Or.inl rfl
  | apart _ hends hgrows => exact Or.inr ⟨hends, hgrows⟩

/-- A step at a ceiling without the empty clause leaves the verdict open. -/
lemma step_of_not_canResolve (hempty : ¬ s.registry.HasEmpty) (h : ¬ s.CanResolve) :
    s.step = (s.counted.finish .timeout, some .undetermined) := by
  have hfind : s.registry.findEmpty? = none := by
    rw [← Option.not_isSome_iff_eq_none, Registry.isSome_findEmpty?_iff]
    exact hempty
  have hceiling : s.settings.maxSteps < s.stepsMade + 1 ∨
      s.settings.maxClauses ≤ s.registry.size := by
    by_contra hbelow
    obtain ⟨hsteps, hclauses⟩ := not_or.mp hbelow
    exact h ⟨hempty, Nat.lt_of_succ_le (Nat.not_lt.mp hsteps), Nat.not_le.mp hclauses⟩
  unfold step
  simp only [hfind]
  exact if_pos hceiling

/-- What one search can do the other can, as the ceilings are the same. -/
lemma canResolve_withoutExit_iff : (s.under s.settings.withoutExit).CanResolve ↔ s.CanResolve :=
  ⟨fun h => ⟨h.noEmpty, h.stepsMade_lt, h.size_lt⟩, fun h => ⟨h.noEmpty, h.stepsMade_lt, h.size_lt⟩⟩

/-- A search comes to the same verdict without early exit.  The clauses and the log are the same,
unless the search refutes in a round that goes on without early exit, and then the empty clause is
the last one of the search with early exit. -/
lemma run_withoutExit (hexit : s.settings.earlyExit = true) :
    (s.under s.settings.withoutExit).run.2 = s.run.2 ∧
      ((s.under s.settings.withoutExit).run.1.registry = s.run.1.registry ∨
        s.run.2 = .refuted ∧ s.run.1.registry.EndsEmpty ∧ s.registry.size < s.run.1.registry.size ∧
          s.run.1.registry.IsPartOf (s.under s.settings.withoutExit).run.1.registry ∧
          s.run.1.registry.log.steps <+:
            (s.under s.settings.withoutExit).run.1.registry.log.steps) := by
  have hstricter := s.settings.isStricter_withoutExit
  fun_induction Search.run s with
  | case1 s t verdict hstep =>
    have houtcome := outcome_of_step_eq hstep
    cases houtcome with
    | contradiction e hempty =>
      obtain ⟨id, c, hfind⟩ := hempty.exists_findEmpty?
      have hfind' : (s.under s.settings.withoutExit).registry.findEmpty? = some (id, c) := hfind
      have heq := (Prod.mk.inj (hstep.symm.trans (step_of_findEmpty? hfind))).1
      rw [run_of_findEmpty? hfind', heq]
      exact ⟨rfl, Or.inl rfl⟩
    | ceiling e hempty hfull =>
      have hstep' := step_of_not_canResolve (s := s.under s.settings.withoutExit) hempty
        (fun h => hfull (canResolve_withoutExit_iff.mp h))
      have heq := (Prod.mk.inj (hstep.symm.trans (step_of_not_canResolve hempty hfull))).1
      rw [run_of_step_some (congrArg Prod.snd hstep'), hstep', heq]
      exact ⟨rfl, Or.inl rfl⟩
    | saturated e hs hsize =>
      have hround := round_under_of_size_eq hstricter hs hsize
      have hsize' : (s.under s.settings.withoutExit).counted.round.registry.size =
          s.registry.size := by
        rw [hround]
        exact hsize
      have hstep' := (hs.under hstricter).step_of_size_eq hsize'
      have heq := (Prod.mk.inj (hstep.symm.trans (hs.step_of_size_eq hsize))).1
      rw [run_of_step_some (congrArg Prod.snd hstep'), hstep', heq, finish, finish, hround]
      exact ⟨rfl, Or.inl rfl⟩
  | case2 s t hstep ih =>
    obtain ⟨hs, hround, hsize⟩ := (outcome_of_step_eq hstep).eq_round_of_none
    have hsettings : t.settings = s.settings := (step_none hstep).1
    have hlt := (outcome_of_step_eq hstep).size_lt_of_none
    rcases round_withoutExit hexit hs with hsame | ⟨hends, hgrows⟩
    · have hgoes : (s.under s.settings.withoutExit).step =
          (t.under t.settings.withoutExit, none) := by
        have hnext : (s.under s.settings.withoutExit).counted.round =
            t.under t.settings.withoutExit := by
          rw [hround]
          exact congrArg
            (fun r => Search.mk s.settings.withoutExit r (s.stepsMade + 1) s.registry.size) hsame
        rw [(hs.under hstricter).step_of_size_ne (hnext.symm ▸ hsize), hnext]
      rw [run_of_step_none (congrArg Prod.snd hgoes), hgoes]
      obtain ⟨hverdict, hend⟩ := ih (hsettings ▸ hexit) (hsettings ▸ hstricter)
      refine ⟨hverdict, hend.imp_right ?_⟩
      rintro ⟨hrefuted, hends, hlater, hgrows⟩
      exact ⟨hrefuted, hends, hlt.trans hlater, hgrows⟩
    · rw [hround] at hlt ⊢
      obtain ⟨hrefuted, hrefuted', hpart, hsteps⟩ :=
        run_under_of_hasEmpty hstricter hs hlt hgrows hends.hasEmpty
      refine ⟨hrefuted'.trans hrefuted.symm, Or.inr ⟨hrefuted, ?_, ?_, hpart, hsteps⟩⟩
      · obtain ⟨id, c, hfind, hsize⟩ := hends
        rw [run_of_findEmpty? hfind]
        exact ⟨id, c, hfind, hsize⟩
      · obtain ⟨id, c, hfind, -⟩ := hends
        rw [run_of_findEmpty? hfind]
        exact hlt

/-- The log of a search with early exit is that of the search without, less the steps that follow
the one that derives the empty clause. -/
lemma isCutOf_log_run_withoutExit (hexit : s.settings.earlyExit = true)
    (hs : s.Documents given []) :
    s.run.1.registry.log.IsCutOf (s.under s.settings.withoutExit).run.1.registry.log := by
  obtain ⟨hverdict, hsame | ⟨hrefuted, hends, hlt, hpart, hsteps⟩⟩ := run_withoutExit hexit
  · rw [hsame]
    exact Or.inl rfl
  · have hs' : (s.under s.settings.withoutExit).Documents given [] := ⟨hs.documented, hs.step_le⟩
    obtain ⟨ending, ⟨hdocumented, -⟩, hending⟩ := hs.run
    obtain ⟨ending', ⟨hdocumented', -⟩, hending'⟩ := hs'.run
    rw [hrefuted] at hending
    rw [hverdict, hrefuted] at hending'
    have hgiven := Nat.lt_of_le_of_lt hs.documented.given_le hlt
    obtain ⟨steps, last, c, hlast, hfind⟩ := hdocumented.exists_steps_eq hends hgiven
    obtain ⟨dropped, hdropped⟩ := hsteps
    refine Or.inr ⟨.initial (s.run.1.registry.records.take given) :: steps.map .resolution, ending,
      last, dropped, ?_, ?_, ?_⟩
    · rw [hdocumented'.entries_eq, hpart.take_records hdocumented.given_le, ← hdropped, hlast,
        hending.eq_of_isPartOf hending' hpart]
      simp
    · rw [hdocumented.entries_eq, hlast]
      simp
    · rw [hdocumented.contradiction?_eq hending, hfind]
      rfl

/-- A search without early exit tells the same contradiction and the same proof, and has the same
log under full subsumption. -/
lemma log_run_withoutExit (hexit : s.settings.earlyExit = true) (hs : s.Documents given []) :
    (s.under s.settings.withoutExit).run.1.registry.log.contradiction? =
        s.run.1.registry.log.contradiction? ∧
      (s.under s.settings.withoutExit).run.1.registry.log.proofClauses? =
        s.run.1.registry.log.proofClauses? ∧
      (s.settings.subsumption = .full →
        (s.under s.settings.withoutExit).run.1.registry.log = s.run.1.registry.log) := by
  obtain ⟨-, hsame | ⟨hrefuted, -⟩⟩ := run_withoutExit hexit
  · rw [hsame]
    exact ⟨rfl, rfl, fun _ => rfl⟩
  · have hdecided : s.run.2 ≠ .undetermined := by
      rw [hrefuted]
      nofun
    obtain ⟨hcontradiction, hproof, hlog⟩ :=
      log_run_under s.settings.isStricter_withoutExit hs hdecided
    exact ⟨hcontradiction, hproof, fun hfull => hlog (Or.inr hfull)⟩

end Search

/-! ## Attempts with and without early exit -/

/-- Whether there is an early exit makes no difference to what an attempt comes to: it fails with
the same error, or it comes to the same verdict, with the same contradiction and the same clauses of
the proof.  Under full subsumption the log is the same.  In any mode the log with early exit is the
other one without steps that are recorded after the step that derives the empty clause. -/
theorem outcome_earlyExit (settings : Settings) (inputs : List (String × Origin)) :
    (∃ e, Attempt.outcome { settings with earlyExit := true } inputs = .error e ∧
        Attempt.outcome { settings with earlyExit := false } inputs = .error e) ∨
      ∃ verdict log log',
        Attempt.outcome { settings with earlyExit := true } inputs = .ok (verdict, log) ∧
        Attempt.outcome { settings with earlyExit := false } inputs = .ok (verdict, log') ∧
        log'.contradiction? = log.contradiction? ∧ log'.proofClauses? = log.proofClauses? ∧
        (settings.subsumption = .full → log' = log) ∧ log.IsCutOf log' := by
  obtain ⟨e, he⟩ | ⟨cs, hcs, houtcome⟩ := Attempt.exists_outcome_eq inputs
  · exact Or.inl ⟨e, he _, he _⟩
  · let s := Search.initial { settings with earlyExit := true } cs
    have hexit : s.settings.earlyExit = true := rfl
    have hs : s.Documents s.registry.size [] := Search.documents_initial _ hcs
    obtain ⟨hverdict, -⟩ := Search.run_withoutExit hexit
    obtain ⟨hcontradiction, hproof, hlog⟩ := Search.log_run_withoutExit hexit hs
    refine Or.inr ⟨s.run.2, _, _, houtcome _, ?_, hcontradiction, hproof, hlog,
      Search.isCutOf_log_run_withoutExit hexit hs⟩
    rw [houtcome, ← hverdict]
    rfl

end Clausal
