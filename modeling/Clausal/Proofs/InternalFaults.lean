import Clausal.Proofs.Calls
import Clausal.Proofs.Saturation

/-!
# No internal faults

Two things could go wrong inside an attempt whose formulas have been read.  A formula could turn out
to have no clause form, and a clause could be missing under a number by which it is looked up.
Neither happens: clause form succeeds for every formula, and a step that looks every clause up by
its number whenever it needs it, and takes the formulas that wait away before it puts them into
clause form, gives what a step gives.

So a step fails only for want of formulas, and taking in a text fails only for the text or because
the search has started.
-/

namespace Clausal

/-! ## Clause form -/

/-- Every formula has clauses, and each of them has a literal, whether or not the variables are
renamed and whatever symbols are left. -/
lemma Formula.exists_clauses_eq_ok (f : Formula) (index : Option ℕ) (supply : SkolemSupply) :
    ∃ cs, (f.clauses index supply).1 = .ok cs ∧ cs ≠ [] ∧ ∀ c ∈ cs, c.literals ≠ [] := by
  obtain ⟨taken, hpulled⟩ := f.exists_pulledFrom_toPrenex.{0}
  obtain ⟨skolem, hmatrix, hclauses⟩ : ∃ skolem : Formula, skolem.IsMatrix ∧
      (f.clauses index supply).1 = skolem.distribute.split.map
        (·.map fun literals => Clause.ofLiterals literals (.given .input)) := by
    cases index with
    | none => exact ⟨_, isMatrix_skolemizeFrom hpulled.isMatrix, rfl⟩
    | some number => exact ⟨_, isMatrix_skolemizeFrom (hpulled.isMatrix.mapLiterals _), rfl⟩
  rw [hmatrix.split_distribute] at hclauses
  refine ⟨_, hclauses, ?_, fun c hc => ?_⟩
  · exact fun hnil => hmatrix.productClauses_ne_nil (List.map_eq_nil_iff.mp hnil)
  · obtain ⟨literals, hliterals, rfl⟩ := List.mem_map.mp hc
    obtain ⟨l, hl⟩ := List.exists_mem_of_ne_nil _ (ne_nil_of_mem_productClauses hliterals)
    exact List.ne_nil_of_mem (Clause.mem_literals_ofLiterals.mpr hl)

/-! ## Looking clauses up -/

/-- A loop that may fail is one that does not if no pass fails while an invariant holds, and the
passes keep the invariant. -/
lemma foldlM_eq_ok {ε σ α : Type} {f : σ → α → Except ε σ} {g : σ → α → σ}
    {P : σ → Prop} {l : List α} {s : σ} (hs : P s)
    (hstep : ∀ s, P s → ∀ a ∈ l, f s a = .ok (g s a) ∧ P (g s a)) :
    l.foldlM f s = .ok (l.foldl g s) := by
  induction l generalizing s with
  | nil => rfl
  | cons a l ih =>
    obtain ⟨ha, hkeep⟩ := hstep s hs a List.mem_cons_self
    rw [List.foldlM_cons, ha, List.foldl_cons]
    exact ih hkeep fun s hs b hb => hstep s hs b (List.mem_cons_of_mem _ hb)

namespace Registry

variable {r : Registry}

/-- The clause with the given number, or that number if there is none. -/
def lookUp (r : Registry) (id : ℕ) : Except ℕ Clause :=
  match r.get? id with
  | some c => .ok c
  | none => .error id

lemma lookUp_eq_ok {id : ℕ} {c : Clause} (h : r.get? id = some c) : r.lookUp id = .ok c := by
  rw [lookUp, h]

/-- The numbers of the clauses. -/
lemma range_size (r : Registry) : List.range r.size = r.clauses.toList.zipIdx.map Prod.snd := by
  rw [List.zipIdx_map_snd, List.range_eq_range']
  rfl

/-- The clauses of a pair are registered under their numbers. -/
structure HasPair (r : Registry) (p : ParentPair) : Prop where
  left : r.get? p.leftId = some p.left
  right : r.get? p.rightId = some p.right

lemma HasPair.mono {r' : Registry} {p : ParentPair} (h : r.HasPair p) (hpart : r.IsPartOf r') :
    r'.HasPair p :=
  ⟨hpart.get?_eq h.left, hpart.get?_eq h.right⟩

/-- All clauses as the log shows them, looked up by number. -/
def lookUpRecords (r : Registry) : Except ℕ (List ClauseRecord) :=
  (List.range r.size).mapM fun id => (r.lookUp id).map (recordOf · id)

/-- No clause is missing among the records. -/
lemma lookUpRecords_eq (r : Registry) : r.lookUpRecords = .ok r.records := by
  have hfound : ∀ numbered : List (Clause × ℕ), (∀ ci ∈ numbered, r.get? ci.2 = some ci.1) →
      (numbered.map Prod.snd).mapM (fun id => (r.lookUp id).map (recordOf · id)) =
        .ok (numbered.map fun ci => recordOf ci.1 ci.2) := by
    intro numbered hget
    induction numbered with
    | nil => rfl
    | cons ci numbered ih =>
      obtain ⟨hci, hrest⟩ := List.forall_mem_cons.mp hget
      rw [List.map_cons, List.mapM_cons, lookUp_eq_ok hci, ih hrest]
      rfl
  rw [lookUpRecords, range_size, hfound]
  · rfl
  · intro ci hci
    rw [get?, ← Array.getElem?_toList]
    exact List.mem_zipIdx_iff_getElem?.mp hci

/-- The numbers of the pairs of clauses that have not been tried. -/
def untriedIds (r : Registry) (paired : ℕ) : List (ℕ × ℕ) :=
  (List.range r.size).flatMap fun i =>
    (List.range' (max (i + 1) paired) (r.size - max (i + 1) paired)).map fun j => (i, j)

/-- They are the numbers of the untried pairs. -/
lemma untriedIds_eq (r : Registry) (paired : ℕ) :
    r.untriedIds paired = (r.untriedPairs paired).map fun p => (p.leftId, p.rightId) := by
  have hsecond : ∀ (c : Clause) (i : ℕ),
      (Round.pairsOf r.clauses.toList.zipIdx paired c i).map (fun p => (p.leftId, p.rightId)) =
        (List.range' (max (i + 1) paired) (r.size - max (i + 1) paired)).map fun j => (i, j) := by
    intro c i
    have hdrop : (r.clauses.toList.zipIdx.drop (max (i + 1) paired)).map Prod.snd =
        List.range' (max (i + 1) paired) (r.size - max (i + 1) paired) := by
      rw [List.map_drop, List.zipIdx_map_snd, List.drop_range', Nat.zero_add, Nat.mul_one]
      rfl
    rw [← hdrop, Round.pairsOf, List.map_map, List.map_map]
    rfl
  rw [untriedIds, range_size, List.flatMap_map, untriedPairs, List.map_flatMap]
  simp only [hsecond]

end Registry

/-! ## Rounds -/

namespace Round

variable {settings : Settings} {step : ℕ} {round : Round} {p : ParentPair}

/-- Registers a resolvent of the clauses with two numbers unless it is redundant or the round has
stopped.  The clauses are looked up once more for their texts. -/
def offerByNumber (settings : Settings) (step i j : ℕ) (round : Round) (resolvent : Resolvent) :
    Except ℕ Round :=
  if round.stopped then .ok round
  else if (resolvent.clause.redundancy? settings.subsumption round.registry.clauses).isSome then
    .ok round
  else do
    let left ← round.registry.lookUp i
    let right ← round.registry.lookUp j
    return registered settings step round { leftId := i, left, rightId := j, right } resolvent

/-- Offers every resolvent of the clauses with two numbers. -/
def tryByNumber (settings : Settings) (step : ℕ) (round : Round) (ids : ℕ × ℕ) : Except ℕ Round :=
  if round.stopped then .ok round
  else do
    let left ← round.registry.lookUp ids.1
    let right ← round.registry.lookUp ids.2
    let parents := { leftId := ids.1, left, rightId := ids.2, right : ParentPair }
    (parents.resolvents step).foldlM (offerByNumber settings step ids.1 ids.2) round

/-- Offering a resolvent of a registered pair finds the clauses. -/
lemma offerByNumber_eq (h : round.registry.HasPair p) (resolvent : Resolvent) :
    offerByNumber settings step p.leftId p.rightId round resolvent =
      .ok (offer settings step p round resolvent) := by
  rw [offerByNumber, offer, Registry.lookUp_eq_ok h.left, Registry.lookUp_eq_ok h.right]
  split
  · rfl
  · split
    · rfl
    · rfl

/-- Trying a registered pair finds the clauses. -/
lemma tryByNumber_eq (h : round.registry.HasPair p) :
    tryByNumber settings step round (p.leftId, p.rightId) =
      .ok (tryPair settings step round p) := by
  rw [tryByNumber, tryPair, Registry.lookUp_eq_ok h.left, Registry.lookUp_eq_ok h.right]
  split
  · rfl
  · refine foldlM_eq_ok (P := fun round => round.registry.HasPair p) h fun round hround res _ => ?_
    exact ⟨offerByNumber_eq hround res, hround.mono (isPartOf_offer settings step p round res)⟩

end Round

/-- The registry after a round that looks all clauses up by number. -/
def Registry.roundByNumber (r : Registry) (settings : Settings) (step paired : ℕ) :
    Except ℕ Registry :=
  ((r.untriedIds paired).foldlM (Round.tryByNumber settings step) ⟨r, false⟩).map Round.registry

/-- A round finds all clauses that it looks up. -/
lemma Registry.roundByNumber_eq (r : Registry) (settings : Settings) (step paired : ℕ) :
    r.roundByNumber settings step paired = .ok (r.resolveRound settings step paired) := by
  have hloop : ((r.untriedPairs paired).foldlM
      (fun round p => Round.tryByNumber settings step round (p.leftId, p.rightId)) ⟨r, false⟩) =
      .ok ((r.untriedPairs paired).foldl (Round.tryPair settings step) ⟨r, false⟩) := by
    -- clauses are only ever added, so the round keeps those that it started with
    refine foldlM_eq_ok (P := fun round => r.IsPartOf round.registry) (IsPartOf.refl r)
      fun round hround p hp => ?_
    obtain ⟨-, -, hleft, hright⟩ := mem_untriedPairs.mp hp
    refine ⟨Round.tryByNumber_eq (HasPair.mono ⟨hleft, hright⟩ hround), ?_⟩
    exact hround.trans (Round.isPartOf_foldl_tryPair settings step [p] round)
  rw [roundByNumber, untriedIds_eq, List.foldlM_map, hloop, resolveRound_eq]
  rfl

/-! ## Steps -/

/-- One step of a search in which all clauses are looked up by number. -/
def Search.stepByNumber (search : Search) : Except ℕ (Search × Option Verdict) :=
  let s := search.counted
  match s.registry.findEmpty? with
  | some (id, c) => .ok (s.finish (.contradiction id c.provenance.parents), some .refuted)
  | none =>
      if s.settings.maxSteps < s.stepsMade ∨ s.settings.maxClauses ≤ s.registry.size then
        .ok (s.finish .timeout, some .undetermined)
      else do
        let registry ← s.registry.roundByNumber s.settings s.stepsMade s.paired
        let next := { s with registry, paired := s.registry.size }
        return if next.registry.size = s.registry.size then
          (next.finish .noNewClauses, some .notRefuted)
        else (next, none)

/-- A step finds all clauses that it looks up. -/
lemma Search.stepByNumber_eq (s : Search) : s.stepByNumber = .ok s.step := by
  unfold stepByNumber step
  simp only [Registry.roundByNumber_eq, counted, round, ok_bind]
  rcases s.registry.findEmpty? with _ | ⟨id, c⟩
  · by_cases hceiling :
        s.settings.maxSteps < s.stepsMade + 1 ∨ s.settings.maxClauses ≤ s.registry.size
    · simp only [if_pos hceiling]
    · simp only [if_neg hceiling]
      rfl
  · rfl

namespace Intake

/-- Puts formulas into clause form one after the other, and gives the symbols left, also if one of
the formulas has no clause form. -/
def drain : List PendingFormula → SkolemSupply → Except ProveError (List Clause) × SkolemSupply
  | [], supply => (.ok [], supply)
  | p :: rest, supply =>
      match p.formula.clauses (some p.number) supply with
      | (.error e, supply) => (.error (.noClauseForm p.number p.text e), supply)
      | (.ok clauses, supply) =>
          let (result, supply) := drain rest supply
          (result.map fun more =>
            clauses.map (fun c => Clause.ofLiterals c.literals (.given p.origin)) ++ more, supply)

/-- The clauses are those of the formulas. -/
lemma fst_drain (pending : List PendingFormula) (supply : SkolemSupply) :
    (drain pending supply).1 = clausesFrom pending supply := by
  induction pending generalizing supply with
  | nil => rfl
  | cons p pending ih =>
    rw [drain, clausesFrom]
    rcases p.formula.clauses (some p.number) supply with ⟨e | clauses, supply⟩
    · rfl
    · simp only [ih]

/-- Takes the formulas that wait away, puts them into clause form and starts the search; gives the
intake that is left, too. -/
def startByNumber (i : Intake) : Except ℕ (Except ProveError Search × Intake) :=
  let (result, supply) := drain i.pending i.supply
  let left := { i with pending := [], supply }
  match result with
  | .error e => .ok (.error e, left)
  | .ok clauses =>
      if clauses.isEmpty then .ok (.error .nothingToRefute, left)
      else do
        let registry := clauses.foldl Registry.register .empty
        let records ← registry.lookUpRecords
        let started :=
          { settings := i.settings
            registry := registry.note (.initial records)
            stepsMade := 0
            paired := 0 }
        return (.ok started, left)

/-- The search starts as if nothing were looked up, and a start that fails leaves the intake as it
was. -/
lemma exists_startByNumber_eq (i : Intake) :
    ∃ left, i.startByNumber = .ok (i.start, left) ∧ ∀ e, i.start = .error e → left = i := by
  obtain ⟨cs, hcs⟩ := exists_clausesFrom_eq i.pending i.supply
  refine ⟨{ i with pending := [], supply := (drain i.pending i.supply).2 }, ?_, fun e he => ?_⟩
  · have hdrain : drain i.pending i.supply = (.ok cs, (drain i.pending i.supply).2) :=
      Prod.ext ((fst_drain _ _).trans hcs) rfl
    rw [startByNumber, start, hcs, hdrain]
    simp only [Registry.lookUpRecords_eq, ok_bind]
    split
    · rfl
    · rfl
  · obtain ⟨-, hnil⟩ := start_eq_error_iff.mp he
    rw [hnil, drain]
    exact congrArg (fun pending => { i with pending }) hnil.symm

end Intake

namespace Attempt

/-- One step of an attempt in which all clauses are looked up by number and the formulas that wait
are taken away before the search starts. -/
def stepByNumber (a : Attempt) : Except ℕ (Except ProveError (Option Verdict) × Attempt) :=
  match a with
  | .collecting i => do
      match ← i.startByNumber with
      | (.error e, left) => return (.error e, .collecting left)
      | (.ok s, _) => return ofStep (← s.stepByNumber)
  | .searching s => return ofStep (← s.stepByNumber)
  | .finished _ verdict => return (.ok (some verdict), a)

/-- A step finds all clauses that it looks up, and brings back no formula that it has taken away. -/
lemma stepByNumber_eq (a : Attempt) : a.stepByNumber = .ok a.step := by
  cases a with
  | collecting i =>
    obtain ⟨left, hleft, hfailed⟩ := i.exists_startByNumber_eq
    rw [stepByNumber, hleft, ok_bind, step]
    cases hstart : i.start with
    | error e =>
      rw [hfailed e hstart]
      rfl
    | ok s =>
      dsimp only
      rw [s.stepByNumber_eq]
      rfl
  | searching s =>
    rw [stepByNumber, s.stepByNumber_eq]
    rfl
  | finished s verdict => rfl

/-! ## Failing calls -/

/-- A step succeeds if a text that is not blank was taken in, and otherwise fails and changes
nothing. -/
lemma step_afterCalls (settings : Settings) (calls : List Call) :
    SomeCall (TakesIn settings) calls ∧
        (∃ verdict?, (afterCalls settings calls).step.1 = .ok verdict?) ∨
      ¬ SomeCall (TakesIn settings) calls ∧
        (afterCalls settings calls).step =
          (.error .nothingToRefute, afterCalls settings calls) := by
  have hphase := phase_afterCalls settings calls
  generalize afterCalls settings calls = a at hphase ⊢
  cases hphase with
  | @collecting i _ _ htaken =>
    cases hstart : i.start with
    | error e =>
      obtain ⟨rfl, hnil⟩ := Intake.start_eq_error_iff.mp hstart
      refine Or.inr ⟨fun htakes => htaken.mp htakes hnil, ?_⟩
      rw [step, hstart]
    | ok s =>
      refine Or.inl ⟨htaken.mpr fun hnil => ?_, ?_⟩
      · rw [Intake.start_eq_error_iff.mpr ⟨rfl, hnil⟩] at hstart
        cases hstart
      · rw [step, hstart]
        exact exists_ofStep_eq_ok _
  | started hne _ htaken =>
    refine Or.inl ⟨htaken, ?_⟩
    cases a with
    | collecting i => exact absurd rfl (hne i)
    | searching s => exact exists_ofStep_eq_ok _
    | finished s verdict => exact ⟨_, rfl⟩

/-- A text is refused for coming late, with nothing changed, if a step has succeeded, and is not
otherwise. -/
lemma add_afterCalls (settings : Settings) (calls : List Call) (text : String) (origin : Origin) :
    SomeCall (StepSucceeds settings) calls ∧
        (afterCalls settings calls).add text origin =
          (.error .lateFormula, afterCalls settings calls) ∨
      ¬ SomeCall (StepSucceeds settings) calls ∧
        ((afterCalls settings calls).add text origin).1 ≠ .error .lateFormula := by
  have hphase := phase_afterCalls settings calls
  generalize afterCalls settings calls = a at hphase ⊢
  cases hphase with
  | @collecting i _ hnot _ =>
    refine Or.inr ⟨hnot, fun hlate => ?_⟩
    have hadd : (i.add text origin).1 = .error .lateFormula := hlate
    obtain ⟨-, e, he, ⟨cause, rfl⟩ | ⟨cause, rfl⟩⟩ | ⟨-, hok⟩ | ⟨f, -, hok⟩ :=
      i.add_cases text origin
    · rw [he] at hadd
      cases hadd
    · rw [he] at hadd
      cases hadd
    · rw [hok] at hadd
      cases hadd
    · rw [hok] at hadd
      cases hadd
  | started hne hstarted _ =>
    refine Or.inl ⟨hstarted, ?_⟩
    cases a with
    | collecting i => exact absurd rfl (hne i)
    | searching s => rfl
    | finished s verdict => rfl

/-- Every formula has clauses, and all clauses have literals.  The attempts that can be reached are
those after some calls.  After any calls, a step finds all clauses that it looks up.  It succeeds
exactly if a text that is not blank has been taken in, and otherwise fails for want of formulas and
changes nothing.  A text is refused for coming late exactly if a step has succeeded, and then, too,
nothing changes. -/
theorem step_eq_ok_iff_and_add_eq_lateFormula_iff :
    (∀ (f : Formula) (index : Option ℕ) (supply : SkolemSupply),
      ∃ cs, (f.clauses index supply).1 = .ok cs ∧ cs ≠ [] ∧ ∀ c ∈ cs, c.literals ≠ []) ∧
    (∀ (settings : Settings) (a : Attempt) (tried : List ParentPair), Reached settings a tried ↔
      ∃ calls, afterCalls settings calls = a ∧ (new settings).resolvedInCalls calls = tried) ∧
    ∀ (settings : Settings) (calls : List Call),
      (afterCalls settings calls).stepByNumber = .ok (afterCalls settings calls).step ∧
      ((∃ verdict?, (afterCalls settings calls).step.1 = .ok verdict?) ↔
        SomeCall (TakesIn settings) calls) ∧
      ((afterCalls settings calls).step = (.error .nothingToRefute, afterCalls settings calls) ↔
        ¬ SomeCall (TakesIn settings) calls) ∧
      ∀ (text : String) (origin : Origin),
        (((afterCalls settings calls).add text origin).1 = .error .lateFormula ↔
          SomeCall (StepSucceeds settings) calls) ∧
        ((afterCalls settings calls).add text origin =
            (.error .lateFormula, afterCalls settings calls) ↔
          SomeCall (StepSucceeds settings) calls) := by
  refine ⟨Formula.exists_clauses_eq_ok, fun settings a tried => reached_iff_exists_calls,
    fun settings calls => ⟨stepByNumber_eq _, ?_, ?_, ?_⟩⟩
  · rcases step_afterCalls settings calls with ⟨htaken, hok⟩ | ⟨hnot, herror⟩
    · exact iff_of_true hok htaken
    · refine iff_of_false ?_ hnot
      rintro ⟨verdict?, hok⟩
      rw [herror] at hok
      cases hok
  · rcases step_afterCalls settings calls with ⟨htaken, verdict?, hok⟩ | ⟨hnot, herror⟩
    · refine iff_of_false (fun herror => ?_) (not_not_intro htaken)
      rw [herror] at hok
      cases hok
    · exact iff_of_true herror hnot
  · intro text origin
    rcases add_afterCalls settings calls text origin with ⟨hstarted, hlate⟩ | ⟨hnot, hnotLate⟩
    · exact ⟨iff_of_true (congrArg Prod.fst hlate) hstarted, iff_of_true hlate hstarted⟩
    · refine ⟨iff_of_false hnotLate hnot, iff_of_false (fun hlate => ?_) hnot⟩
      exact hnotLate (congrArg Prod.fst hlate)

/-- With a blank text alone there is nothing to step through.  With `P ∨ Q` there is, and after a
step it is too late for `¬P`. -/
theorem step_and_add_orPQ :
    (afterCalls .standard [.add " " .input]).step =
        (.error .nothingToRefute, afterCalls .standard [.add " " .input]) ∧
      (∃ verdict?, (afterCalls .standard [.add "P ∨ Q" .input]).step.1 = .ok verdict?) ∧
      (afterCalls .standard [.add "P ∨ Q" .input, .step]).add "¬P" .input =
        (.error .lateFormula, afterCalls .standard [.add "P ∨ Q" .input, .step]) := by
  have hblank : ¬ SomeCall (TakesIn .standard) [.add " " .input] := by
    rw [← List.nil_append [Call.add " " .input], someCall_append_singleton, not_or]
    refine ⟨not_someCall_nil _, ?_⟩
    rintro ⟨-, c, hc, hnot⟩
    rw [List.mem_singleton.mp hc] at hnot
    cases hnot
  have htaken : SomeCall (TakesIn .standard) [.add "P ∨ Q" .input] := by
    refine ⟨[], .add "P ∨ Q" .input, [], rfl, ?_, 'P', List.mem_cons_self, rfl⟩
    obtain ⟨hread, -⟩ | ⟨-, hadd⟩ | ⟨f, -, hadd⟩ := (Intake.new .standard).add_cases "P ∨ Q" .input
    · rw [readFormula?_orPQ] at hread
      cases hread
    · exact congrArg Prod.fst hadd
    · exact congrArg Prod.fst hadd
  have hsteps :=
    ((step_eq_ok_iff_and_add_eq_lateFormula_iff.2.2 .standard [.add "P ∨ Q" .input]).2.1).mpr htaken
  have hstarted : SomeCall (StepSucceeds .standard) [.add "P ∨ Q" .input, .step] :=
    ⟨[.add "P ∨ Q" .input], .step, [], rfl, hsteps⟩
  refine ⟨?_, hsteps, ?_⟩
  · exact ((step_eq_ok_iff_and_add_eq_lateFormula_iff.2.2 .standard [.add " " .input]).2.2.1).mpr
      hblank
  · exact ((step_eq_ok_iff_and_add_eq_lateFormula_iff.2.2 .standard
      [.add "P ∨ Q" .input, .step]).2.2.2 "¬P" .input).2.mpr hstarted

end Attempt

end Clausal
