import Clausal.Proofs.Bookkeeping
import Clausal.Proofs.FactorClosure

/-!
# When formulas that are not refuted have a model

A search resolves different clauses with one another and makes no factors.  So it can end with
saturated clauses although the formulas have no model, as it does with `∀x∀y(P(x) ∨ P(y))` and
`∀x∀y(¬P(x) ∨ ¬P(y))`.

The formulas have a model if, for one of the two signs, the factors of the clauses with this sign
only are covered at the end.  If all clauses at the start have at most one literal of this sign, as
Horn clauses have for the positive sign, this is so, since then all clauses have at most one.
-/

namespace Clausal

/-! ## Clauses with at most one literal of a sign -/

/-- Of two opposite literals one has the given sign. -/
lemma Literal.positive_eq_or_of_opposes {l m : Literal} (h : l.opposes m = true) (sign : Bool) :
    l.positive = sign ∨ m.positive = sign := by
  obtain ⟨hsame, -⟩ := Bool.and_eq_true_iff.mp h
  obtain ⟨hsigns, -⟩ := Bool.and_eq_true_iff.mp hsame
  have hne : l.positive ≠ m.positive := bne_iff_ne.mp hsigns
  by_cases hl : l.positive = sign
  · exact Or.inl hl
  · rw [Bool.eq_not.mpr hl] at hne
    exact Or.inr ((Bool.eq_not.mpr hne.symm).trans (Bool.not_not sign))

/-- If two clauses have at most one literal of a sign each, then so have their resolvents. -/
lemma ParentPair.signCount_le_one_of_mem_resolvents {p : ParentPair} {sign : Bool} {step : ℕ}
    {res : Resolvent} (hleft : signCount sign p.left.literals ≤ 1)
    (hright : signCount sign p.right.literals ≤ 1) (hres : res ∈ p.resolvents step) :
    signCount sign res.clause.literals ≤ 1 := by
  obtain ⟨i, j, l, m, u, hresolves, rfl⟩ := mem_resolvents_iff.mp hres
  have hle := p.signCount_remainder_le i j u sign
  have hrename : ∀ x : Literal, (x.rename (p.right.apartRenaming p.rightId p.left)).positive =
      x.positive := fun _ => rfl
  have hapart : signCount sign p.apart.literals ≤ 1 := by
    rw [apart, Clause.renameApart, signCount_map hrename]
    exact hright
  have hleft' := signCount_eraseIdx_le sign p.left.literals i
  have hapart' := signCount_eraseIdx_le sign p.apart.literals j
  -- one of the two literals that are taken away has the sign
  change signCount sign (p.remainder i j u).eraseDups ≤ 1
  rcases Literal.positive_eq_or_of_opposes hresolves.opposes sign with rfl | rfl
  · have hlt := signCount_eraseIdx_lt hresolves.left
    omega
  · have hlt := signCount_eraseIdx_lt hresolves.right
    omega

namespace Registry

/-- Where clauses have at most one literal of a sign, those with this sign only have no factors. -/
lemma coversFactors_of_signCount_le_one {mode : SubsumptionMode} {sign : Bool} {r : Registry}
    (h : ∀ c ∈ r.clauses.toList, signCount sign c.literals ≤ 1) : r.CoversFactors mode sign := by
  intro c hc hsign f hf
  obtain ⟨l, hl, m, hm, hne, -⟩ := Clause.mem_factors.mp hf
  have hnodup : [m, l].Nodup := by simp [hne]
  have hsubset : [m, l] ⊆ c.literals := by simp [hl, hm]
  have hle := (signCount_le_of_subset hnodup hsubset sign).trans (h c hc)
  have htwo : signCount sign [m, l] = 2 := by
    simp [signCount, hsign m hm, hsign l hl]
  omega

end Registry

/-! ## The clauses at the end of a run -/

namespace Search

/-- What holds of the clauses of a search, and of each resolvent of clauses that it holds of, holds
of the clauses at the end of the run. -/
lemma forall_mem_run {P : Clause → Prop} {s : Search} (hP : ∀ c ∈ s.registry.clauses.toList, P c)
    (keep : ∀ (p : ParentPair) (step id : ℕ), P p.left → P p.right → ∀ res ∈ p.resolvents step,
      P { res.clause with id := some id }) :
    ∀ c ∈ s.run.1.registry.clauses.toList, P c := by
  have hround : ∀ s : Search, (∀ c ∈ s.registry.clauses.toList, P c) →
      ∀ c ∈ s.counted.round.registry.clauses.toList, P c := fun s hs =>
    forall_mem_round hs fun p step id hleft hright =>
      keep p step id (hs _ hleft) (hs _ hright)
  have hkeep : ∀ s t : Search, (∀ c ∈ s.registry.clauses.toList, P c) → Outcome s t none →
      ∀ c ∈ t.registry.clauses.toList, P c := by
    intro s t hs hstep
    obtain ⟨-, rfl, -⟩ := hstep.eq_round_of_none
    exact hround s hs
  obtain ⟨t, ht, hlast⟩ := exists_outcome_run hP hkeep
  generalize s.run = result at hlast ⊢
  obtain ⟨last, verdict⟩ := result
  cases hlast with
  | contradiction => exact ht
  | ceiling => exact ht
  | saturated => exact hround t ht

/-- The step that comes to the verdict that the clauses are not refuted leaves them as they are. -/
lemma Outcome.clauses_eq_of_notRefuted {s t : Search} (h : Outcome s t (some .notRefuted)) :
    t.registry.clauses = s.registry.clauses := by
  cases h with
  | saturated _ _ hsize => exact s.isPartOf_round.clauses_eq hsize

/-- Saturated clauses without repeated literals are closed as far as their factors are covered. -/
lemma Saturated.closedUpTo {s : Search} {tried : List ParentPair} (h : s.Saturated tried)
    (hnodup : ∀ c ∈ s.registry.clauses.toList, c.literals.Nodup) {sign : Bool}
    (hfactors : s.registry.CoversFactors s.settings.subsumption sign) :
    s.registry.ClosedUpTo s.settings.subsumption sign where
  noEmpty := h.noEmpty
  nodup := hnodup
  coversResolvents p hlt hleft hright :=
    (h.pairsDone p hlt (Array.getElem?_eq_some_iff.mp hright).1 hleft hright).2 0
  coversFactors := hfactors

variable {settings : Settings} {fs : List Formula} {s : Search}

/-- If a search that starts from formulas ends without refuting them, and the factors of the last
clauses with one sign only are covered, then the formulas have a model. -/
lemma StartsFrom.satisfiable_of_coversFactors (h : StartsFrom.{0} settings fs s)
    (htracks : s.Tracks []) (hverdict : s.run.2 = .notRefuted) {sign : Bool}
    (hfactors : s.run.1.registry.CoversFactors settings.subsumption sign) :
    Formula.Satisfiable.{0} fs := by
  obtain ⟨tried, hsaturated⟩ := htracks.exists_saturated_run hverdict
  have hnodup : ∀ c ∈ s.run.1.registry.clauses.toList, c.literals.Nodup :=
    forall_mem_run h.nodup fun p step id _ _ res hres => ParentPair.nodup_of_mem_resolvents hres
  rw [← h.settings_eq, ← s.settings_run] at hfactors
  obtain ⟨v, hv⟩ := (hsaturated.closedUpTo hnodup hfactors).exists_trueUnder
  have hvalid : ∀ c ∈ s.registry.clauses.toList, c.Valid (termStructure v) := by
    intro c hc ε
    obtain ⟨l, hl, htrue⟩ := hv c (List.IsPrefix.subset s.isPartOf_run hc) ε
    exact ⟨l, hl, (l.holds_termStructure_iff v ε).mpr htrue⟩
  exact ⟨Term, termStructure v, .var, fun f hf =>
    h.holds_of_valid (termStructure v) hvalid f hf .var⟩

/-- The same if the first clauses have at most one literal of one sign each. -/
lemma StartsFrom.satisfiable_of_signCount_le_one (h : StartsFrom.{0} settings fs s)
    (htracks : s.Tracks []) (hverdict : s.run.2 = .notRefuted) {sign : Bool}
    (hcount : ∀ c ∈ s.registry.clauses.toList, signCount sign c.literals ≤ 1) :
    Formula.Satisfiable.{0} fs := by
  have hlast : ∀ c ∈ s.run.1.registry.clauses.toList, signCount sign c.literals ≤ 1 :=
    forall_mem_run hcount fun p step id hleft hright res hres =>
      ParentPair.signCount_le_one_of_mem_resolvents hleft hright hres
  exact h.satisfiable_of_coversFactors htracks hverdict
    (Registry.coversFactors_of_signCount_le_one hlast)

end Search

/-! ## Attempts -/

/-- If an attempt at texts that say closed formulas comes to the verdict that they are not refuted,
then its search has started, has run to this verdict, and the formulas have a model if one of two
conditions is met for one of the two signs.  The first is that the factors of the last clauses with
this sign only are tautologies or subsumed by clauses.  The second is that the first clauses have at
most one literal of this sign each. -/
theorem satisfiable_of_notRefuted {inputs : List (String × Origin)} {fs : List Formula}
    (hread : readFormulas? (inputs.map Prod.fst) = some fs) (hclosed : ∀ f ∈ fs, f.IsClosed)
    {settings : Settings} {log : ProofLog}
    (h : Attempt.outcome settings inputs = .ok (.notRefuted, log)) :
    ∃ i s, (Attempt.new settings).addAll inputs = .ok (.collecting i) ∧ i.start = .ok s ∧
      s.run.2 = .notRefuted ∧ s.run.1.registry.log = log ∧
      ∀ sign, s.run.1.registry.CoversFactors settings.subsumption sign ∨
          (∀ c ∈ s.registry.clauses.toList, signCount sign c.literals ≤ 1) →
        Formula.Satisfiable.{0} fs := by
  have hne : fs ≠ [] := by
    rintro rfl
    rw [Attempt.outcome_of_nil hread] at h
    cases h
  obtain ⟨i, s, hadd, hstart, hs⟩ := exists_startsFrom.{0} hread hclosed hne settings
  rw [Attempt.outcome_of_start hadd hstart] at h
  obtain ⟨hverdict, hlog⟩ := Prod.mk.inj (Except.ok.inj h)
  obtain ⟨cs, hinitial⟩ := Intake.exists_eq_initial_of_start hstart
  have htracks : s.Tracks [] := hinitial ▸ Search.tracks_initial _ cs
  refine ⟨i, s, hadd, hstart, hverdict, hlog, fun sign hsign => ?_⟩
  rcases hsign with hfactors | hcount
  · exact hs.satisfiable_of_coversFactors htracks hverdict hfactors
  · exact hs.satisfiable_of_signCount_le_one htracks hverdict hcount

/-- Of any two things, one is `P`. -/
def eitherP : Formula :=
  .quantified .universal "x" <| .quantified .universal "y" <|
    .or (.atom { predicate := "P", args := [.var "x"], positive := true })
      (.atom { predicate := "P", args := [.var "y"], positive := true })

/-- Of any two things, one is not `P`. -/
def eitherNotP : Formula :=
  .quantified .universal "x" <| .quantified .universal "y" <|
    .or (.atom { predicate := "P", args := [.var "x"], positive := false })
      (.atom { predicate := "P", args := [.var "y"], positive := false })

lemma readFormula?_eitherP : readFormula? "∀x∀y(P(x) ∨ P(y))" = some (some eitherP) := by
  let st : Statement :=
    .joined false [⟨.universal, "x"⟩, ⟨.universal, "y"⟩] (some .or)
      (.atom ⟨none, false, "P", some "x"⟩) (.atom ⟨none, false, "P", some "y"⟩)
  have hlower : Formula.ofStatement st = .ok eitherP := rfl
  exact readFormula?_of_text_eq rfl hlower (by decide) (by decide) (by decide)

lemma readFormula?_eitherNotP : readFormula? "∀x∀y(¬P(x) ∨ ¬P(y))" = some (some eitherNotP) := by
  let st : Statement :=
    .joined false [⟨.universal, "x"⟩, ⟨.universal, "y"⟩] (some .or)
      (.atom ⟨none, true, "P", some "x"⟩) (.atom ⟨none, true, "P", some "y"⟩)
  have hlower : Formula.ofStatement st = .ok eitherNotP := rfl
  exact readFormula?_of_text_eq rfl hlower (by decide) (by decide) (by decide)

/-- The intake that has taken in two premises. -/
def intakeOf (text text' : String) (f g : Formula) : Intake where
  settings := .standard
  supply := (SkolemSupply.initial.reserve f).reserve g
  pending := [⟨1, text, .premise 1, f⟩, ⟨2, text', .premise 2, g⟩]
  count := 2

lemma readFormulas?_pair {text text' : String} {f g : Formula}
    (hf : readFormula? text = some (some f)) (hg : readFormula? text' = some (some g)) :
    readFormulas? ((premises [text, text']).map Prod.fst) = some [f, g] := by
  change readFormulas? [text, text'] = some [f, g]
  rw [readFormulas?, readFormulas?, hf, hg]
  rfl

lemma addAll_intakeOf {text text' : String} {f g : Formula}
    (hf : readFormula? text = some (some f)) (hg : readFormula? text' = some (some g)) :
    (Attempt.new .standard).addAll (premises [text, text']) =
      .ok (.collecting (intakeOf text text' f g)) := by
  change (Attempt.collecting _).addAll [(text, .premise 1), (text', .premise 2)] = _
  rw [Attempt.addAll_cons_of_readFormula? _ hf, Attempt.addAll_cons_of_readFormula? _ hg]
  rfl

/-- The search with which the attempt at `∀x∀y(P(x) ∨ P(y))` and `∀x P(x)` starts. -/
def searchEitherP : Search where
  settings := .standard
  registry :=
    { clauses :=
        #[⟨[⟨"P", [.var "x_1"], true⟩, ⟨"P", [.var "y_1"], true⟩], some 0, .given (.premise 1)⟩,
          ⟨[⟨"P", [.var "x_2"], true⟩], some 1, .given (.premise 2)⟩]
      log := ⟨#[.initial [⟨0, "P(x_1) ∨ P(y_1)", "premise 1"⟩, ⟨1, "P(x_2)", "premise 2"⟩]]⟩ }
  stepsMade := 0
  paired := 0

set_option maxRecDepth 100000 in
/-- The clause form of `∀x∀y(P(x) ∨ P(y))` and `∀x P(x)`. -/
lemma clausesFrom_eitherP_allP :
    Intake.clausesFrom (intakeOf "∀x∀y(P(x) ∨ P(y))" "∀x P(x)" eitherP allP).pending
        (intakeOf "∀x∀y(P(x) ∨ P(y))" "∀x P(x)" eitherP allP).supply =
      .ok [.ofLiterals [⟨"P", [.var "x_1"], true⟩, ⟨"P", [.var "y_1"], true⟩] (.given (.premise 1)),
        .ofLiterals [⟨"P", [.var "x_2"], true⟩] (.given (.premise 2))] := by
  cbv

lemma start_eitherP_allP :
    (intakeOf "∀x∀y(P(x) ∨ P(y))" "∀x P(x)" eitherP allP).start = .ok searchEitherP :=
  Intake.start_eq clausesFrom_eitherP_allP (List.cons_ne_nil _ _)

open scoped Evaluation in
/-- The first step of this search adds nothing. -/
lemma step_searchEitherP : searchEitherP.step.2 = some .notRefuted := by
  simp [searchEitherP]

open scoped Evaluation in
/-- The factors of the clauses of this search are all subsumed by its second clause. -/
lemma subsumes_factors_searchEitherP : (searchEitherP.registry.clauses.toList.all fun c =>
    c.factors.all fun f => searchEitherP.registry.clauses.toList.any fun e =>
      e.subsumesIn .full f) = true := by
  simp [searchEitherP, Clause.factors, Clause.factorOn?, Substitution.applyClause]

/-- So these clauses cover their factors. -/
lemma coversFactors_eitherP_allP {r : Registry} (h : r.clauses = searchEitherP.registry.clauses)
    (sign : Bool) : r.CoversFactors .full sign := by
  have hall := subsumes_factors_searchEitherP
  rw [← h] at hall
  intro c hc _ f hf
  have hany := List.all_eq_true.mp (List.all_eq_true.mp hall c hc) f hf
  exact Or.inr (List.any_eq_true.mp hany)

/-- The formulas `∀x∀y(P(x) ∨ P(y))` and `∀x P(x)` are not refuted, and they have a model: each
factor of the clause `P(x_1) ∨ P(y_1)` is subsumed by the clause `P(x_2)`. -/
theorem satisfiable_eitherP_allP :
    (∃ log, prove .standard ["∀x∀y(P(x) ∨ P(y))", "∀x P(x)"] = .ok (.notRefuted, log)) ∧
      Formula.Satisfiable.{0} [eitherP, allP] := by
  have hadd := addAll_intakeOf readFormula?_eitherP readFormula?_allP
  have houtcome := Attempt.outcome_of_start hadd start_eitherP_allP
  rw [Search.run_of_step_some step_searchEitherP] at houtcome
  refine ⟨⟨_, houtcome⟩, ?_⟩
  obtain ⟨i, s, hadd', hstart, -, -, hsatisfiable⟩ := satisfiable_of_notRefuted
    (readFormulas?_pair readFormula?_eitherP readFormula?_allP) (by decide) houtcome
  obtain rfl := Attempt.collecting.inj (Except.ok.inj (hadd.symm.trans hadd'))
  obtain rfl := Except.ok.inj (start_eitherP_allP.symm.trans hstart)
  have hlast : searchEitherP.run.1.registry.clauses = searchEitherP.registry.clauses := by
    rw [Search.run_of_step_some step_searchEitherP]
    have hstep := searchEitherP.outcome_step
    rw [step_searchEitherP] at hstep
    exact hstep.clauses_eq_of_notRefuted
  exact hsatisfiable true (Or.inl (coversFactors_eitherP_allP hlast true))

/-- The search with which the attempt at `∀x∀y(P(x) ∨ P(y))` and `∀x∀y(¬P(x) ∨ ¬P(y))` starts. -/
def searchEither : Search where
  settings := .standard
  registry :=
    { clauses :=
        #[⟨[⟨"P", [.var "x_1"], true⟩, ⟨"P", [.var "y_1"], true⟩], some 0, .given (.premise 1)⟩,
          ⟨[⟨"P", [.var "x_2"], false⟩, ⟨"P", [.var "y_2"], false⟩], some 1, .given (.premise 2)⟩]
      log := ⟨#[.initial
        [⟨0, "P(x_1) ∨ P(y_1)", "premise 1"⟩, ⟨1, "¬P(x_2) ∨ ¬P(y_2)", "premise 2"⟩]]⟩ }
  stepsMade := 0
  paired := 0

set_option maxRecDepth 100000 in
/-- The clause form of `∀x∀y(P(x) ∨ P(y))` and `∀x∀y(¬P(x) ∨ ¬P(y))`. -/
lemma clausesFrom_eitherP_eitherNotP :
    Intake.clausesFrom
        (intakeOf "∀x∀y(P(x) ∨ P(y))" "∀x∀y(¬P(x) ∨ ¬P(y))" eitherP eitherNotP).pending
        (intakeOf "∀x∀y(P(x) ∨ P(y))" "∀x∀y(¬P(x) ∨ ¬P(y))" eitherP eitherNotP).supply =
      .ok [.ofLiterals [⟨"P", [.var "x_1"], true⟩, ⟨"P", [.var "y_1"], true⟩] (.given (.premise 1)),
        .ofLiterals [⟨"P", [.var "x_2"], false⟩, ⟨"P", [.var "y_2"], false⟩]
          (.given (.premise 2))] := by
  cbv

lemma start_eitherP_eitherNotP :
    (intakeOf "∀x∀y(P(x) ∨ P(y))" "∀x∀y(¬P(x) ∨ ¬P(y))" eitherP eitherNotP).start =
      .ok searchEither :=
  Intake.start_eq clausesFrom_eitherP_eitherNotP (List.cons_ne_nil _ _)

open scoped Evaluation in
/-- The first step of this search is a round that adds `P(y_1) ∨ ¬P(y_2)`. -/
lemma step_searchEither : searchEither.step.2 = none := by
  simp [searchEither]

open scoped Evaluation in
/-- The second step of this search adds nothing. -/
lemma step_step_searchEither : searchEither.step.1.step.2 = some .notRefuted := by
  -- variables that the clauses share are renamed by the number of the second clause
  have hnumber : Nat.repr 2 = "2" := rfl
  simp [searchEither, hnumber]

/-- No structure makes `∀x∀y(P(x) ∨ P(y))` and `∀x∀y(¬P(x) ∨ ¬P(y))` true. -/
lemma not_satisfiable_eitherP_eitherNotP : ¬ Formula.Satisfiable.{0} [eitherP, eitherNotP] := by
  rintro ⟨D, M, ε, hholds⟩
  -- both say something of an element taken twice
  have hsome : M.pred "P" [ε ""] ∨ M.pred "P" [ε ""] :=
    hholds eitherP List.mem_cons_self (ε "") (ε "")
  have hnot : ¬ M.pred "P" [ε ""] ∨ ¬ M.pred "P" [ε ""] :=
    hholds eitherNotP (List.mem_cons_of_mem _ List.mem_cons_self) (ε "") (ε "")
  rw [or_self] at hsome hnot
  exact hnot hsome

/-- Without a condition formulas that are not refuted need not have a model: the closed formulas
`∀x∀y(P(x) ∨ P(y))` and `∀x∀y(¬P(x) ∨ ¬P(y))` are not refuted and have none. -/
theorem notRefuted_eitherP_eitherNotP :
    readFormulas? ["∀x∀y(P(x) ∨ P(y))", "∀x∀y(¬P(x) ∨ ¬P(y))"] = some [eitherP, eitherNotP] ∧
      (∀ f ∈ [eitherP, eitherNotP], f.IsClosed) ∧
      (∃ log, prove .standard ["∀x∀y(P(x) ∨ P(y))", "∀x∀y(¬P(x) ∨ ¬P(y))"] =
        .ok (.notRefuted, log)) ∧
      ¬ Formula.Satisfiable.{0} [eitherP, eitherNotP] := by
  have hadd := addAll_intakeOf readFormula?_eitherP readFormula?_eitherNotP
  have houtcome := Attempt.outcome_of_start hadd start_eitherP_eitherNotP
  rw [Search.run_of_step_none step_searchEither, Search.run_of_step_some step_step_searchEither]
    at houtcome
  exact ⟨readFormulas?_pair readFormula?_eitherP readFormula?_eitherNotP, by decide,
    ⟨_, houtcome⟩, not_satisfiable_eitherP_eitherNotP⟩

end Clausal
