import Clausal.Proofs.Lockstep
import Clausal.Proofs.Refutation
import Clausal.ProofLog.Proof

/-!
# Higher ceilings

Raising the ceilings of an attempt does not change a verdict that it has reached, the clause in
which a contradiction was found, or the clauses of the proof.  The log does not change either,
unless the search went on in its last round after it had found the empty clause, which takes a
search without early exit in which the empty clause does not subsume the resolvents that follow.

The log tells the proof: the entry for the contradiction has the number of the first empty clause,
and the clauses of the proof are traced back from it by steps that are recorded before it.  So what
is recorded later plays no part in it.
-/

namespace Clausal

/-! ## The proof that a log tells -/

namespace ResolutionStep

/-- Steps that derive other clauses do not change the parents of a clause. -/
lemma parentsOf?_append {steps more : List ResolutionStep} {id : ℕ}
    (hmore : ∀ st ∈ more, st.resolventId ≠ id) :
    parentsOf? (steps ++ more) id = parentsOf? steps id := by
  have hnone : more.reverse.find? (·.resolventId = id) = none := by
    rw [List.find?_eq_none]
    intro st hst hid
    exact hmore st (List.mem_reverse.mp hst) (of_decide_eq_true hid)
  rw [parentsOf?, parentsOf?, List.reverse_append, List.find?_append, hnone, Option.none_or]

/-- The parents of a clause are those of a step. -/
lemma exists_mem_of_parentsOf? {steps : List ResolutionStep} {id : ℕ} {parents : ℕ × ℕ}
    (h : parentsOf? steps id = some parents) : ∃ st ∈ steps, st.parentIds = parents := by
  obtain ⟨st, hfind, hparents⟩ := Option.map_eq_some_iff.mp h
  exact ⟨st, List.mem_reverse.mp (List.mem_of_find?_eq_some hfind), hparents⟩

/-- Steps that derive clauses from number `n` on do not change what is traced back from clauses
below `n`, if the steps before lead to clauses below `n` only. -/
lemma ancestors_append {steps more : List ResolutionStep} {n : ℕ}
    (hmore : ∀ st ∈ more, n ≤ st.resolventId)
    (hsteps : ∀ st ∈ steps, st.parentIds.1 < n ∧ st.parentIds.2 < n) {visited agenda : List ℕ}
    (hagenda : ∀ id ∈ agenda, id < n) :
    ancestors (steps ++ more) visited agenda = ancestors steps visited agenda := by
  have hparents : ∀ id < n, parentsOf? (steps ++ more) id = parentsOf? steps id := by
    intro id hid
    refine parentsOf?_append fun st hst heq => ?_
    have hle := hmore st hst
    omega
  fun_induction ancestors steps visited agenda with
  | case1 visited => rw [ancestors]
  | case2 visited id agenda hid ih =>
    rw [ancestors, if_pos hid]
    exact ih fun id' hid' => hagenda id' (List.mem_cons_of_mem _ hid')
  | case3 visited id agenda hid hnone ih =>
    rw [ancestors, if_neg hid, hparents id (hagenda id List.mem_cons_self), hnone]
    exact ih fun id' hid' => hagenda id' (List.mem_cons_of_mem _ hid')
  | case4 visited id agenda hid a b hsome ih =>
    rw [ancestors, if_neg hid, hparents id (hagenda id List.mem_cons_self), hsome]
    obtain ⟨st, hst, hids⟩ := exists_mem_of_parentsOf? hsome
    have hlt := hsteps st hst
    rw [hids] at hlt
    refine ih ?_
    rw [List.forall_mem_cons, List.forall_mem_cons]
    exact ⟨hlt.1, hlt.2, fun id' hid' => hagenda id' (List.mem_cons_of_mem _ hid')⟩

end ResolutionStep

namespace Registry

variable {mode : SubsumptionMode} {given id : ℕ} {r r' : Registry} {ending ending' : List LogEntry}

/-- The log of a refutation tells the number of the first empty clause. -/
lemma Documented.contradiction?_eq (h : r.Documented mode given ending)
    (hends : r.EndsWith (some .refuted) ending) :
    r.log.contradiction? = r.findEmpty?.map Prod.fst := by
  cases hends with
  | refuted hfind =>
    -- of the entries only the last one tells of a contradiction
    rw [ProofLog.contradiction?, h.entries_eq, hfind, List.findSome?_append,
      List.findSome?_eq_none_iff.mpr ?_]
    · rfl
    · rw [List.forall_mem_cons, List.forall_mem_map]
      exact ⟨rfl, fun _ _ => rfl⟩

/-- The first empty clause is a registered clause without literals. -/
lemma get?_of_findEmpty? {c : Clause} (h : r.findEmpty? = some (id, c)) :
    r.get? id = some c ∧ c.isEmpty = true := by
  rw [findEmpty?, Option.map_eq_some_iff] at h
  obtain ⟨ck, hck, heq⟩ := h
  obtain ⟨rfl, rfl⟩ := Prod.mk.inj heq
  have hmem := List.mem_zipIdx_iff_getElem?.mp (List.mem_of_find?_eq_some hck)
  rw [Array.getElem?_toList] at hmem
  have hempty := List.find?_some hck
  exact ⟨hmem, hempty⟩

/-- The first empty clause has a number of the registry. -/
lemma lt_size_of_findEmpty? {c : Clause} (h : r.findEmpty? = some (id, c)) : id < r.size :=
  lt_size_of_get? (get?_of_findEmpty? h).1

/-- The steps that are recorded later derive clauses with higher numbers. -/
lemma Documented.size_le_resolventId (h : r.Documented mode given ending)
    (h' : r'.Documented mode given ending') {more : List ResolutionStep}
    (hmore : r'.log.steps = r.log.steps ++ more) : ∀ st ∈ more, r.size ≤ st.resolventId := by
  intro st hst
  obtain ⟨n, hn⟩ := List.mem_iff_getElem?.mp hst
  have hat : r'.log.steps[r.log.steps.length + n]? = some st := by
    rw [hmore, List.getElem?_append_right (Nat.le_add_right _ _), Nat.add_sub_cancel_left, hn]
  have hid := (h'.tells _ st hat).resolventId_eq
  have hlength := h.length_steps
  omega

/-- The steps that are recorded lead to clauses of the registry. -/
lemma Documented.parentIds_lt_size (h : r.Documented mode given ending) :
    ∀ st ∈ r.log.steps, st.parentIds.1 < r.size ∧ st.parentIds.2 < r.size := by
  intro st hst
  obtain ⟨n, hn⟩ := List.mem_iff_getElem?.mp hst
  obtain ⟨c, left, right, -, hleft, hright, -⟩ := (h.tells n st hn).exists_clauses
  exact ⟨lt_size_of_get? hleft, lt_size_of_get? hright⟩

/-- A refutation that goes on after the empty clause is found tells the same contradiction and the
same proof. -/
lemma Documented.proofClauses?_eq (h : r.Documented mode given ending)
    (hends : r.EndsWith (some .refuted) ending) (h' : r'.Documented mode given ending')
    (hends' : r'.EndsWith (some .refuted) ending') (hpart : r.IsPartOf r')
    (hsteps : r.log.steps <+: r'.log.steps) :
    r'.log.contradiction? = r.log.contradiction? ∧ r'.log.proofClauses? = r.log.proofClauses? := by
  obtain ⟨more, hmore⟩ := hsteps
  obtain ⟨id, c, hfind⟩ : ∃ id c, r.findEmpty? = some (id, c) := by
    cases hends with
    | refuted hfind => exact ⟨_, _, hfind⟩
  have hid : r.log.contradiction? = some id := by
    rw [h.contradiction?_eq hends, hfind]
    rfl
  have hid' : r'.log.contradiction? = some id := by
    rw [h'.contradiction?_eq hends', hpart.findEmpty?_eq hfind]
    rfl
  refine ⟨hid'.trans hid.symm, ?_⟩
  rw [ProofLog.proofClauses?, ProofLog.proofClauses?, hid, hid', ← hmore, Option.map_some,
    Option.map_some,
    ResolutionStep.ancestors_append (h.size_le_resolventId h' hmore.symm) h.parentIds_lt_size]
  exact List.forall_mem_singleton.mpr (lt_size_of_findEmpty? hfind)

/-- A refutation that goes on after the empty clause is found ends with the same entry. -/
lemma EndsWith.eq_of_isPartOf (hends : r.EndsWith (some .refuted) ending)
    (hends' : r'.EndsWith (some .refuted) ending') (hpart : r.IsPartOf r') : ending' = ending := by
  cases hends with
  | refuted hfind =>
    cases hends' with
    | refuted hfind' =>
      rw [hpart.findEmpty?_eq hfind] at hfind'
      obtain ⟨rfl, rfl⟩ := Prod.mk.inj (Option.some.inj hfind')
      rfl

/-- A refutation has registered the empty clause. -/
lemma EndsWith.hasEmpty (hends : r.EndsWith (some .refuted) ending) : r.HasEmpty := by
  cases hends with
  | refuted hfind =>
    rw [← isSome_findEmpty?_iff, hfind]
    rfl

/-- Where the empty clause subsumes all clauses, nothing is registered after it. -/
lemma Documented.size_eq_of_full (h : r.Documented .full given ending)
    (h' : r'.Documented .full given ending') (hempty : r.HasEmpty) (hpart : r.IsPartOf r') :
    r'.size = r.size := by
  by_contra hne
  have hlt : r.size < r'.size := Nat.lt_of_le_of_ne hpart.size_le (Ne.symm hne)
  obtain ⟨c, hc⟩ : ∃ c, r'.get? r.size = some c := ⟨_, Array.getElem?_eq_getElem hlt⟩
  obtain ⟨id, d, hfind⟩ := hempty.exists_findEmpty?
  have hd := get?_of_findEmpty? hfind
  have hsubsumes : d.subsumesIn .full c = true := by
    rw [Clause.subsumesIn, Clause.subsumes, List.isEmpty_iff.mp hd.2]
    rfl
  have hnot := (h'.derives r.size c hc h.given_le).notSubsumed id (lt_size_of_findEmpty? hfind) d
    (hpart.get?_eq hd.1)
  rw [hsubsumes] at hnot
  cases hnot

/-- Documented registries with the same clauses have the same log, if one has recorded the steps of
the other and both end with the same entries. -/
lemma Documented.log_eq (h : r.Documented mode given ending) (h' : r'.Documented mode given ending)
    (hpart : r.IsPartOf r') (hsize : r'.size = r.size) (hsteps : r.log.steps <+: r'.log.steps) :
    r'.log = r.log := by
  have hlength : r.log.steps.length = r'.log.steps.length := by
    have hr := h.length_steps
    have hr' := h'.length_steps
    omega
  have hentries : r'.log.entries.toList = r.log.entries.toList := by
    rw [h'.entries_eq, h.entries_eq, hpart.take_records h.given_le, hsteps.eq_of_length hlength]
  exact congrArg ProofLog.mk (Array.toList_inj.mp hentries)

end Registry

/-- A verdict that is not open is reached under laxer settings with the same contradiction and the
same proof, and with the same log if these settings have an early exit or full subsumption. -/
lemma Search.log_run_under {s : Search} {settings' : Settings} {given : ℕ}
    (h : s.settings.IsStricter settings') (hs : s.Documents given [])
    (hdecided : s.run.2 ≠ .undetermined) :
    (s.under settings').run.1.registry.log.contradiction? = s.run.1.registry.log.contradiction? ∧
      (s.under settings').run.1.registry.log.proofClauses? = s.run.1.registry.log.proofClauses? ∧
      (settings'.earlyExit = true ∨ settings'.subsumption = .full →
        (s.under settings').run.1.registry.log = s.run.1.registry.log) := by
  obtain ⟨hverdict, hend⟩ := run_under h hdecided
  rcases hend with hsame | ⟨hrefuted, hexit, hpart, hsteps⟩
  · rw [hsame]
    exact ⟨rfl, rfl, fun _ => rfl⟩
  · have hs' : (s.under settings').Documents given [] :=
      ⟨h.subsumption_eq ▸ hs.documented, hs.step_le⟩
    obtain ⟨ending, ⟨hdocumented, -⟩, hends⟩ := hs.run
    obtain ⟨ending', ⟨hdocumented', -⟩, hends'⟩ := hs'.run
    rw [settings_run, h.subsumption_eq] at hdocumented
    rw [settings_run] at hdocumented'
    rw [hrefuted] at hends
    rw [hverdict, hrefuted] at hends'
    obtain ⟨hcontradiction, hproof⟩ :=
      hdocumented.proofClauses?_eq hends hdocumented' hends' hpart hsteps
    refine ⟨hcontradiction, hproof, ?_⟩
    rintro (hearly | hfull)
    · rw [hexit] at hearly
      cases hearly
    · have hsize : (s.under settings').run.1.registry.size = s.run.1.registry.size := by
        rw [hfull] at hdocumented
        rw [Search.under, hfull] at hdocumented'
        exact hdocumented.size_eq_of_full hdocumented' hends.hasEmpty hpart
      rw [hends.eq_of_isPartOf hends' hpart] at hdocumented'
      exact hdocumented.log_eq hdocumented' hpart hsize hsteps

/-! ## The same formulas under other settings -/

/-- An intake takes in a text in the same way under all settings. -/
lemma Intake.add_with_settings (i : Intake) (settings : Settings) (text : String)
    (origin : Origin) :
    add { i with settings } text origin =
      ((i.add text origin).1, { (i.add text origin).2 with settings }) := by
  unfold add
  simp only
  split
  · rfl
  · rfl
  · split <;> rfl

/-- Texts are refused or taken in in the same way under all settings. -/
lemma Attempt.exists_addAll_eq (inputs : List (String × Origin)) (i : Intake) :
    (∃ e, ∀ settings, (collecting { i with settings }).addAll inputs = .error e) ∨
      ∃ j : Intake, ∀ settings, (collecting { i with settings }).addAll inputs =
        .ok (.collecting { j with settings }) := by
  induction inputs generalizing i with
  | nil => exact Or.inr ⟨i, fun _ => rfl⟩
  | cons input rest ih =>
    obtain ⟨text, origin⟩ := input
    cases hresult : (i.add text origin).1 with
    | error e =>
      refine Or.inl ⟨e, fun settings => ?_⟩
      rw [addAll, add, i.add_with_settings, hresult]
    | ok u =>
      have hnext : ∀ settings, (collecting { i with settings }).addAll ((text, origin) :: rest) =
          (collecting { (i.add text origin).2 with settings }).addAll rest := by
        intro settings
        rw [addAll, add, i.add_with_settings, hresult]
      rcases ih (i.add text origin).2 with ⟨e, he⟩ | ⟨j, hj⟩
      · exact Or.inl ⟨e, fun settings => (hnext settings).trans (he settings)⟩
      · exact Or.inr ⟨j, fun settings => (hnext settings).trans (hj settings)⟩

/-- Texts fail in the same way under all settings, or their clauses are searched from the start
under each of them.  These clauses have no parents and no literal twice. -/
lemma Attempt.exists_outcome_eq (inputs : List (String × Origin)) :
    (∃ e, ∀ settings, outcome settings inputs = .error e) ∨
      ∃ cs : List Clause, (∀ c ∈ cs, c.literals.Nodup ∧ c.provenance.parents = []) ∧
        ∀ settings, outcome settings inputs = .ok ((Search.initial settings cs).run.2,
          (Search.initial settings cs).run.1.registry.log) := by
  rcases exists_addAll_eq inputs (.new .standard) with ⟨e, he⟩ | ⟨j, hj⟩
  · refine Or.inl ⟨e, fun settings => ?_⟩
    rw [outcome, new]
    exact congrArg (· >>= run) (he settings)
  · have hrun : ∀ settings, outcome settings inputs =
        (Intake.start { j with settings }).map fun s => run.ofRun s.run := by
      intro settings
      rw [outcome, new]
      exact congrArg (· >>= run) (hj settings)
    cases hcs : Intake.clausesFrom j.pending j.supply with
    | error e =>
      refine Or.inl ⟨e, fun settings => ?_⟩
      rw [hrun, Intake.start, hcs]
      rfl
    | ok cs =>
      cases cs with
      | nil =>
        refine Or.inl ⟨.nothingToRefute, fun settings => ?_⟩
        rw [hrun, Intake.start, hcs]
        rfl
      | cons c cs =>
        refine Or.inr ⟨_, Intake.nodup_and_parents_of_mem_clausesFrom hcs, fun settings => ?_⟩
        rw [hrun, Intake.start, hcs]
        rfl

/-- Under ceilings that are at least as high, an attempt that comes to a verdict other than the open
one comes to the same verdict, with the same contradiction and the same clauses of the proof.  The
log is the same too if there is an early exit or full subsumption. -/
theorem outcome_of_ceilings_le {settings settings' : Settings}
    (hmode : settings'.subsumption = settings.subsumption)
    (hexit : settings'.earlyExit = settings.earlyExit)
    (hsteps : settings.maxSteps ≤ settings'.maxSteps)
    (hclauses : settings.maxClauses ≤ settings'.maxClauses) {inputs : List (String × Origin)}
    {verdict : Verdict} {log : ProofLog}
    (h : Attempt.outcome settings inputs = .ok (verdict, log))
    (hdecided : verdict ≠ .undetermined) :
    ∃ log', Attempt.outcome settings' inputs = .ok (verdict, log') ∧
      log'.contradiction? = log.contradiction? ∧ log'.proofClauses? = log.proofClauses? ∧
      (settings.earlyExit = true ∨ settings.subsumption = .full → log' = log) := by
  have hstricter : settings.IsStricter settings' :=
    ⟨hmode.symm, hsteps, hclauses, fun hearly => hexit.symm.trans hearly⟩
  obtain ⟨e, he⟩ | ⟨cs, hcs, houtcome⟩ := Attempt.exists_outcome_eq inputs
  · rw [he] at h
    cases h
  · rw [houtcome] at h
    obtain ⟨rfl, rfl⟩ := Prod.mk.inj (Except.ok.inj h)
    obtain ⟨hverdict, -⟩ := Search.run_under hstricter hdecided
    obtain ⟨hcontradiction, hproof, hlog⟩ :=
      Search.log_run_under hstricter (Search.documents_initial settings hcs) hdecided
    refine ⟨_, ?_, hcontradiction, hproof, ?_⟩
    · rw [houtcome, ← hverdict]
      rfl
    · rw [← hexit, ← hmode]
      exact hlog

/-- Settings with the lowest ceilings under which `∀x P(x)` and `¬P(A)` are refuted. -/
def lowestP : Settings :=
  { maxSteps := 1, maxClauses := 3, subsumption := .exact, earlyExit := false }

/-- The same settings with higher ceilings. -/
def higherP : Settings :=
  { lowestP with maxSteps := 100, maxClauses := 2000 }

set_option maxRecDepth 100000 in
/-- Under these settings the first step registers the empty clause. -/
lemma step_searchP_under : (searchP.under lowestP).step.2 = none := by
  cbv

set_option maxRecDepth 100000 in
/-- Under these settings the second step finds the empty clause, at the ceiling on clauses. -/
lemma step_step_searchP_under : (searchP.under lowestP).step.1.step.2 = some .refuted := by
  cbv

/-- The attempt at `∀x P(x)` and `¬P(A)` refutes them at its ceilings, so it does with higher ones,
with the same proof. -/
theorem outcome_allP_notPA_of_ceilings_le :
    ∃ log, Attempt.outcome lowestP [("∀x P(x)", .input), ("¬P(A)", .input)] = .ok (.refuted, log) ∧
      ∃ log', Attempt.outcome higherP [("∀x P(x)", .input), ("¬P(A)", .input)] =
          .ok (.refuted, log') ∧
        log'.contradiction? = log.contradiction? ∧ log'.proofClauses? = log.proofClauses? ∧
        (lowestP.earlyExit = true ∨ lowestP.subsumption = .full → log' = log) := by
  have hadd : (Attempt.new lowestP).addAll [("∀x P(x)", .input), ("¬P(A)", .input)] =
      .ok (.collecting { intakeP with settings := lowestP }) := by
    rw [Attempt.new, Attempt.addAll_cons_of_readFormula? _ readFormula?_allP,
      Attempt.addAll_cons_of_readFormula? _ readFormula?_notPA]
    rfl
  have hclauses : Intake.clausesFrom ({ intakeP with settings := lowestP } : Intake).pending
      ({ intakeP with settings := lowestP } : Intake).supply = .ok clausesP :=
    clausesFrom_intakeP
  have hstart : Intake.start { intakeP with settings := lowestP } = .ok (searchP.under lowestP) :=
    Intake.start_eq hclauses (List.cons_ne_nil _ _)
  have houtcome := Attempt.outcome_of_start hadd hstart
  rw [Search.run_of_step_none step_searchP_under,
    Search.run_of_step_some step_step_searchP_under] at houtcome
  have hmode : higherP.subsumption = lowestP.subsumption := rfl
  have hexit : higherP.earlyExit = lowestP.earlyExit := rfl
  exact ⟨_, houtcome,
    outcome_of_ceilings_le hmode hexit (by decide) (by decide) houtcome (by decide)⟩

end Clausal
