import Clausal.Proofs.Clausification
import Clausal.Proofs.SearchSteps
import Mathlib.Data.List.Permutation

/-!
# Refutations are right

A structure that makes the clauses true with which a search starts makes all clauses true that the
search registers.  It cannot make the empty clause true, so a search that ends with a refutation
started from clauses without a model, and the formulas that the clauses came from have none either.
-/

namespace Clausal

universe u

variable {D : Type u}

/-- Every search that starts from clauses which a structure makes true, and comes to the verdict
that they are refuted, speaks of a structure without elements. -/
lemma Search.isEmpty_of_run_refuted {M : Structure D} {s : Search}
    (hvalid : ∀ c ∈ s.registry.clauses.toList, c.Valid M) (h : s.run.2 = .refuted) : IsEmpty D := by
  have keep : ∀ s t : Search, (∀ c ∈ s.registry.clauses.toList, c.Valid M) → Outcome s t none →
      ∀ c ∈ t.registry.clauses.toList, c.Valid M := by
    intro s t hs hstep
    cases hstep with
    | progress =>
      exact forall_mem_round (P := fun c => c.Valid M) hs fun p step id hleft hright res hres =>
        p.valid_of_mem_resolvents (hs _ hleft) (hs _ hright) hres
  obtain ⟨t, hvalid, hlast⟩ := exists_outcome_run hvalid keep
  rw [h] at hlast
  generalize s.run.1 = last at hlast
  cases hlast with
  | contradiction _ hempty =>
    obtain ⟨c, hc, hempty⟩ := hempty
    exact ⟨fun d => Clause.not_valid_of_isEmpty M d hempty (hvalid c hc)⟩

/-- If an attempt at texts that say closed formulas comes to the verdict that they are refuted, then
no structure with an element makes all of the formulas true. -/
theorem not_satisfiable_of_refuted {inputs : List (String × Origin)} {fs : List Formula}
    (hread : readFormulas? (inputs.map Prod.fst) = some fs) (hclosed : ∀ f ∈ fs, f.IsClosed)
    {settings : Settings} {log : ProofLog}
    (h : Attempt.outcome settings inputs = .ok (.refuted, log)) : ¬ Formula.Satisfiable.{u} fs := by
  rintro ⟨D, M, ε, hholds⟩
  have hne : fs ≠ [] := by
    rintro rfl
    rw [Attempt.outcome_of_nil hread] at h
    cases h
  obtain ⟨i, s, hadd, hstart, hs⟩ := exists_startsFrom.{u} hread hclosed hne settings
  obtain ⟨N, hvalid⟩ := hs.exists_valid M fun f hf δ =>
    ((hclosed f hf).holds_iff ε δ).mp (hholds f hf)
  rw [Attempt.outcome_of_start hadd hstart] at h
  have hrefuted : s.run.2 = .refuted := congrArg Prod.fst (Except.ok.inj h)
  exact (Search.isEmpty_of_run_refuted hvalid hrefuted).false (ε "")

/-- Everything is `P`. -/
def allP : Formula :=
  .quantified .universal "x" (.atom { predicate := "P", args := [.var "x"], positive := true })

/-- `A` is not `P`. -/
def notPA : Formula :=
  .atom { predicate := "P", args := [.const "A"], positive := false }

lemma readFormula?_allP : readFormula? "∀x P(x)" = some (some allP) := by
  have hatom : Statement.readSpan ⟨3, "P(x)".toList⟩ 1 =
      .ok (.atom ⟨none, false, "P", some "x"⟩) := by
    rw [Statement.readSpan]
    rfl
  have hparse : Statement.parse "∀x P(x)" = (Statement.readSpan ⟨0, "∀x P(x)".toList⟩ 0).map some :=
    rfl
  have hquantified : Statement.readSpan ⟨0, "∀x P(x)".toList⟩ 0 =
      (Statement.readSpan ⟨3, "P(x)".toList⟩ 1).map
        (Statement.bind ⟨.universal, "x"⟩ [] false) := by
    rw [Statement.readSpan]
    rfl
  rw [readFormula?, hparse, hquantified, hatom]
  rfl

lemma readFormula?_notPA : readFormula? "¬P(A)" = some (some notPA) := by
  let st : Statement := .atom ⟨none, true, "P", some "A"⟩
  have hlower : Formula.ofStatement st = .ok notPA := rfl
  exact readFormula?_of_text_eq rfl hlower (by decide) (by decide) (by decide)

/-- The intake that has taken in `∀x P(x)` and `¬P(A)`. -/
def intakeP : Intake where
  settings := .standard
  supply := (SkolemSupply.initial.reserve allP).reserve notPA
  pending := [⟨1, "∀x P(x)", .input, allP⟩, ⟨2, "¬P(A)", .input, notPA⟩]
  count := 2

/-- The clauses of `∀x P(x)` and `¬P(A)`. -/
def clausesP : List Clause :=
  [.ofLiterals [⟨"P", [.var "x_1"], true⟩] (.given .input),
    .ofLiterals [⟨"P", [.const "A"], false⟩] (.given .input)]

set_option maxRecDepth 100000 in
/-- The clause form of `∀x P(x)` and `¬P(A)`. -/
lemma clausesFrom_intakeP : Intake.clausesFrom intakeP.pending intakeP.supply = .ok clausesP := by
  cbv

/-- The search with which the attempt at `∀x P(x)` and `¬P(A)` starts. -/
def searchP : Search where
  settings := .standard
  registry :=
    { clauses := #[⟨[⟨"P", [.var "x_1"], true⟩], some 0, .given .input⟩,
        ⟨[⟨"P", [.const "A"], false⟩], some 1, .given .input⟩]
      log := ⟨#[.initial [⟨0, "P(x_1)", "input"⟩, ⟨1, "¬P(A)", "input"⟩]]⟩ }
  stepsMade := 0
  paired := 0

set_option maxRecDepth 100000 in
/-- The first step of this search is a round that adds the empty clause. -/
lemma step_searchP : searchP.step.2 = none := by
  cbv

set_option maxRecDepth 100000 in
/-- The second step of this search finds the empty clause. -/
lemma step_step_searchP : searchP.step.1.step.2 = some .refuted := by
  cbv

/-- The attempt at `∀x P(x)` and `¬P(A)` refutes them, so they have no model. -/
theorem not_satisfiable_allP_notPA :
    (∃ log, Attempt.outcome .standard [("∀x P(x)", .input), ("¬P(A)", .input)] =
        .ok (.refuted, log)) ∧
      ¬ Formula.Satisfiable.{0} [allP, notPA] := by
  have hread : readFormulas? ([("∀x P(x)", Origin.input), ("¬P(A)", .input)].map Prod.fst) =
      some [allP, notPA] := by
    rw [List.map_cons, readFormulas?, List.map_singleton, readFormulas?, readFormula?_allP,
      readFormula?_notPA]
    rfl
  have hadd : (Attempt.new .standard).addAll [("∀x P(x)", .input), ("¬P(A)", .input)] =
      .ok (.collecting intakeP) := by
    rw [Attempt.new, Attempt.addAll_cons_of_readFormula? _ readFormula?_allP,
      Attempt.addAll_cons_of_readFormula? _ readFormula?_notPA]
    rfl
  have hstart : intakeP.start = .ok searchP :=
    Intake.start_eq clausesFrom_intakeP (List.cons_ne_nil _ _)
  have houtcome := Attempt.outcome_of_start hadd hstart
  rw [Search.run_of_step_none step_searchP, Search.run_of_step_some step_step_searchP] at houtcome
  exact ⟨⟨_, houtcome⟩, not_satisfiable_of_refuted hread (by decide) houtcome⟩

end Clausal
