import Clausal.Pipeline
import Clausal.Proofs.Respacing

/-!
# Pipelines and direct attempts

A pipeline drops the blanks around a goal before it negates it, and a direct attempt at the goal
keeps them.  The negations are read alike, so the attempts hold the same formulas under the same
numbers.  The texts of formulas are kept for messages only.  Hence a pipeline comes to the same
verdict with the same log as the direct attempt, or fails at the same formula for the same reason.
-/

namespace Clausal

open Statement

/-! ## Failures -/

/-- Both failures have the same reason and occur at the formula with the same number.  What may
differ is how the text of this formula is quoted, and the position in it. -/
inductive ProveError.SameCause : ProveError → ProveError → Prop
  | badFormula (number : ℕ) (text text' : String) {e e' : ParseError} (h : e.fault = e'.fault) :
      SameCause (.badFormula number text e) (.badFormula number text' e')
  | noClauseForm (number : ℕ) (text text' : String) (e : NormalFormError) :
      SameCause (.noClauseForm number text e) (.noClauseForm number text' e)
  | nothingToRefute : SameCause .nothingToRefute .nothingToRefute
  | lateFormula : SameCause .lateFormula .lateFormula

lemma ProveError.SameCause.refl (e : ProveError) : e.SameCause e := by
  cases e with
  | badFormula number text e => exact .badFormula number text text rfl
  | noClauseForm number text e => exact .noClauseForm number text text e
  | nothingToRefute => exact .nothingToRefute
  | lateFormula => exact .lateFormula

lemma ProveError.SameCause.trans {e e' e'' : ProveError} (h : e.SameCause e')
    (h' : e'.SameCause e'') : e.SameCause e'' := by
  cases h with
  | badFormula number text text' h =>
    cases h' with
    | badFormula _ _ text'' h' => exact .badFormula number text text'' (h.trans h')
  | noClauseForm number text text' e =>
    cases h' with
    | noClauseForm _ _ text'' _ => exact .noClauseForm number text text'' e
  | nothingToRefute => exact h'
  | lateFormula => exact h'

/-! ## Attempts at texts that are read alike -/

/-- The formula without its text. -/
def PendingFormula.withoutText (p : PendingFormula) : PendingFormula :=
  { p with text := "" }

namespace Intake

/-- The intake without the texts of its formulas. -/
def withoutTexts (i : Intake) : Intake :=
  { i with pending := i.pending.map PendingFormula.withoutText }

variable {i j : Intake} {text text' : String}

lemma clausesFrom_map_withoutText (pending : List PendingFormula) (supply : SkolemSupply) :
    clausesFrom (pending.map PendingFormula.withoutText) supply = clausesFrom pending supply := by
  induction pending generalizing supply with
  | nil => rfl
  | cons p pending ih =>
    rw [List.map_cons, clausesFrom_cons, clausesFrom_cons, ih]
    rfl

/-- The search that starts does not depend on the texts. -/
lemma start_withoutTexts (i : Intake) : i.withoutTexts.start = i.start := by
  unfold start
  rw [withoutTexts, clausesFrom_map_withoutText]

/-- Texts that are read alike are both refused for the same reason, or both accepted. -/
lemma add_of_readAlike (hij : i.withoutTexts = j.withoutTexts) (h : ReadAlike text text')
    (origin : Origin) :
    (∃ e e', (i.add text origin).1 = .error e ∧ (j.add text' origin).1 = .error e' ∧
      e.SameCause e') ∨
      (i.add text origin).1 = .ok () ∧ (j.add text' origin).1 = .ok () ∧
        (i.add text origin).2.withoutTexts = (j.add text' origin).2.withoutTexts := by
  obtain ⟨settings, supply, pending, count⟩ := i
  obtain ⟨settings', supply', pending', count'⟩ := j
  obtain ⟨rfl, rfl, hpending, rfl⟩ := Intake.mk.inj hij
  unfold add
  rcases h.exists_parse_eq with ⟨e, e', hparse, hparse', hfault⟩ | ⟨o, hparse, hparse'⟩
  · rw [hparse, hparse']
    exact Or.inl ⟨_, _, rfl, rfl, .badFormula _ _ _ hfault⟩
  · rw [hparse, hparse']
    cases o with
    | none => exact Or.inr ⟨rfl, rfl, congrArg (Intake.mk _ _ · _) hpending⟩
    | some st =>
      dsimp only
      cases Formula.ofStatement st with
      | error e => exact Or.inl ⟨_, _, rfl, rfl, .noClauseForm _ _ _ e⟩
      | ok f =>
        refine Or.inr ⟨rfl, rfl, ?_⟩
        unfold withoutTexts
        simp only [List.map_append, hpending]
        rfl

end Intake

namespace Attempt

/-- The texts are read alike and come from the same place. -/
def InputsAlike (input input' : String × Origin) : Prop :=
  ReadAlike input.1 input'.1 ∧ input.2 = input'.2

variable {inputs inputs' : List (String × Origin)}

lemma addAll_of_inputsAlike (h : List.Forall₂ InputsAlike inputs inputs') {i j : Intake}
    (hij : i.withoutTexts = j.withoutTexts) :
    (∃ e e', (collecting i).addAll inputs = .error e ∧ (collecting j).addAll inputs' = .error e' ∧
        e.SameCause e') ∨
      ∃ i' j', (collecting i).addAll inputs = .ok (.collecting i') ∧
        (collecting j).addAll inputs' = .ok (.collecting j') ∧
          i'.withoutTexts = j'.withoutTexts := by
  induction h generalizing i j with
  | nil => exact Or.inr ⟨i, j, rfl, rfl, hij⟩
  | @cons input input' rest rest' hinput hrest ih =>
    obtain ⟨text, origin⟩ := input
    obtain ⟨text', origin'⟩ := input'
    obtain ⟨hread, horigin⟩ := hinput
    dsimp only at hread horigin
    subst horigin
    have hadd := Intake.add_of_readAlike hij hread origin
    rw [addAll, add, addAll, add]
    cases hi : i.add text origin with
    | mk result i' =>
      cases hj : j.add text' origin with
      | mk result' j' =>
        rw [hi, hj] at hadd
        dsimp only at hadd ⊢
        rcases hadd with ⟨e, e', rfl, rfl, hcause⟩ | ⟨rfl, rfl, hnext⟩
        · exact Or.inl ⟨e, e', rfl, rfl, hcause⟩
        · exact ih hnext

/-- Attempts at texts that are read alike come to the same, or fail at the same text for the same
reason. -/
theorem outcome_of_inputsAlike (settings : Settings) (h : List.Forall₂ InputsAlike inputs inputs') :
    outcome settings inputs = outcome settings inputs' ∨
      ∃ e e', outcome settings inputs = .error e ∧ outcome settings inputs' = .error e' ∧
        e.SameCause e' := by
  rcases addAll_of_inputsAlike (i := .new settings) h rfl with
    ⟨e, e', hadd, hadd', hcause⟩ | ⟨i, j, hadd, hadd', hij⟩
  · refine Or.inr ⟨e, e', ?_, ?_, hcause⟩
    · rw [outcome, new, hadd]
      rfl
    · rw [outcome, new, hadd']
      rfl
  · refine Or.inl ?_
    have hstart : i.start = j.start := by
      rw [← i.start_withoutTexts, hij, j.start_withoutTexts]
    rw [outcome, outcome, new, hadd, hadd']
    change i.start.map _ = j.start.map _
    rw [hstart]

/-- Blanks around a goal make no difference to an attempt at its negation. -/
lemma inputsAlike_negatedGoal (rest : List (String × Origin)) (goal : String) :
    List.Forall₂ InputsAlike (rest ++ [(negatedGoalText (Text.trim goal), .negatedGoal)])
      (rest ++ [(negatedGoalText goal, .negatedGoal)]) := by
  induction rest with
  | nil => exact .cons ⟨readAlike_negatedGoalText_trim goal, rfl⟩ .nil
  | cons input rest ih => exact .cons ⟨rfl, rfl⟩ ih

end Attempt

/-! ## Pipelines -/

/-- A goal among formulas is the last of them, without the blanks around it. -/
lemma exists_of_splitGoal?_eq_some {formulas rest : List String} {goal : String}
    (h : splitGoal? formulas = some (rest, goal)) :
    ∃ last, formulas = rest ++ [last] ∧ goal = Text.trim last := by
  unfold splitGoal? at h
  dsimp only at h
  split at h
  · cases h
  · split at h
    · cases h
    · rename_i last hlast
      obtain ⟨_, h⟩ := Option.ite_none_left_eq_some.mp h
      obtain ⟨rfl, rfl⟩ := Prod.mk.inj (Option.some.inj h)
      obtain ⟨before, rfl⟩ := List.getLast?_eq_some_iff.mp hlast
      exact ⟨last, by rw [List.dropLast_concat], rfl⟩

namespace Pipeline

/-- A pipeline makes of a text what a direct attempt comes to: both come to the same verdict with
the same log, or both fail at the same formula for the same reason. -/
structure RunsAs (p : Pipeline) (text : String) (direct : Except ProveError (Verdict × ProofLog)) :
    Prop where
  ok_iff (verdict : Verdict) (log : ProofLog) : direct = .ok (verdict, log) ↔
    ∃ outcome, p.run text = .ok outcome ∧ outcome.verdict = verdict ∧ outcome.log = log
  error (e : ProveError) (h : direct = .error e) :
    ∃ e', p.run text = .error (.proof e') ∧ e'.SameCause e

variable {p : Pipeline} {text : String} {formulas : List String}
  {direct direct' : Except ProveError (Verdict × ProofLog)}

lemma runsAs_error {e e' : ProveError} (hrun : p.run text = .error (.proof e'))
    (hcause : e'.SameCause e) : p.RunsAs text (.error e) where
  ok_iff verdict log := by
    refine ⟨fun hok => ?_, ?_⟩
    · cases hok
    · rintro ⟨outcome, hok, -⟩
      rw [hrun] at hok
      cases hok
  error e'' h := by
    obtain rfl := Except.error.inj h
    exact ⟨e', hrun, hcause⟩

lemma RunsAs.congr (h : p.RunsAs text direct)
    (hdirect : direct = direct' ∨ ∃ e e', direct = .error e ∧ direct' = .error e' ∧
      e.SameCause e') :
    p.RunsAs text direct' := by
  rcases hdirect with rfl | ⟨e, e', rfl, rfl, hcause⟩
  · exact h
  · obtain ⟨cause, hrun, hsame⟩ := h.error e rfl
    exact runsAs_error hrun (hsame.trans hcause)

lemma run_of_outcome_eq_error {e : ProveError} (hformalize : p.formalize text = .ok formulas)
    (h : Attempt.outcome p.settings (inputs formulas) = .error e) :
    p.run text = .error (.proof e) := by
  unfold Attempt.outcome at h
  unfold run
  rw [hformalize]
  change (((Attempt.new p.settings).addAll (inputs formulas)).mapError
    PipelineError.proof >>= _) = _
  cases hadd : (Attempt.new p.settings).addAll (inputs formulas) with
  | error e' =>
    rw [hadd] at h
    cases h
    rfl
  | ok attempt =>
    rw [hadd] at h
    change attempt.run = .error e at h
    change (attempt.run.mapError PipelineError.proof >>= _) = _
    rw [h]
    rfl

lemma run_of_outcome_eq_ok {verdict : Verdict} {log : ProofLog} {explanation : String}
    (hformalize : p.formalize text = .ok formulas)
    (h : Attempt.outcome p.settings (inputs formulas) = .ok (verdict, log))
    (hexplain : p.explain log verdict = .ok explanation) :
    p.run text = .ok { formulas := (inputs formulas).map (·.1), verdict, log, explanation } := by
  obtain ⟨attempt, hadd, hrun⟩ := bind_eq_ok h
  unfold run
  rw [hformalize]
  change (((Attempt.new p.settings).addAll (inputs formulas)).mapError
    PipelineError.proof >>= _) = _
  rw [hadd]
  change (attempt.run.mapError PipelineError.proof >>= _) = _
  rw [hrun]
  change ((p.explain log verdict).mapError PipelineError.explanation >>= _) = _
  rw [hexplain]
  rfl

/-- A pipeline whose outside parts succeed runs as the attempt at its inputs. -/
lemma runsAs_outcome (hformalize : p.formalize text = .ok formulas)
    (hexplain : ∀ log verdict, ∃ explanation, p.explain log verdict = .ok explanation) :
    p.RunsAs text (Attempt.outcome p.settings (inputs formulas)) := by
  cases houtcome : Attempt.outcome p.settings (inputs formulas) with
  | error e =>
    exact runsAs_error (run_of_outcome_eq_error hformalize houtcome) (.refl e)
  | ok result =>
    obtain ⟨explanation, hexplanation⟩ := hexplain result.2 result.1
    have hrun := run_of_outcome_eq_ok hformalize houtcome hexplanation
    refine ⟨fun verdict log => ⟨fun hok => ?_, ?_⟩, fun e he => ?_⟩
    · obtain ⟨rfl, rfl⟩ := Prod.mk.inj (Except.ok.inj hok)
      exact ⟨_, hrun, rfl, rfl⟩
    · rintro ⟨outcome, hok, rfl, rfl⟩
      obtain rfl := Except.ok.inj (hrun.symm.trans hok)
      rfl
    · cases he

/-- A pipeline whose outside parts succeed runs as the direct attempt: at the last formula as the
goal, with the blanks around it, if the formulas have a goal, and otherwise at all formulas. -/
theorem runsAs_proveGoal_and_prove (p : Pipeline) (text : String) {formulas : List String}
    (hformalize : p.formalize text = .ok formulas)
    (hexplain : ∀ log verdict, ∃ explanation, p.explain log verdict = .ok explanation) :
    (∀ rest goal, splitGoal? formulas = some (rest, goal) →
      ∃ last, formulas = rest ++ [last] ∧ p.RunsAs text (proveGoal p.settings rest last)) ∧
    (splitGoal? formulas = none → p.RunsAs text (prove p.settings formulas)) := by
  have hruns := runsAs_outcome hformalize hexplain
  refine ⟨fun rest goal hgoal => ?_, fun hnone => ?_⟩
  · obtain ⟨last, rfl, rfl⟩ := exists_of_splitGoal?_eq_some hgoal
    refine ⟨last, rfl, ?_⟩
    rw [inputs, hgoal] at hruns
    exact hruns.congr (Attempt.outcome_of_inputsAlike _ (Attempt.inputsAlike_negatedGoal _ last))
  · rw [inputs, hnone] at hruns
    exact hruns

/-- A pipeline that is handed its formulas and explains nothing. -/
def ofFormulas (formulas : List String) : Pipeline where
  formalize _ := .ok formulas
  explain _ _ := .ok ""
  settings := .standard

/-- The goal has blanks around it and closes the parenthesis that is put before it; in the other
case the last formula is negated already. -/
theorem runsAs_unbalanced_goal_and_negated :
    splitGoal? ["∀x P(x)", " P(A)) ∧ (P(A) "] = some (["∀x P(x)"], "P(A)) ∧ (P(A)") ∧
      (ofFormulas ["∀x P(x)", " P(A)) ∧ (P(A) "]).RunsAs ""
        (proveGoal .standard ["∀x P(x)"] " P(A)) ∧ (P(A) ") ∧
      splitGoal? ["∀x P(x)", "¬P(A)"] = none ∧
      (ofFormulas ["∀x P(x)", "¬P(A)"]).RunsAs "" (prove .standard ["∀x P(x)", "¬P(A)"]) := by
  have hexplain : ∀ (log : ProofLog) (verdict : Verdict), ∃ explanation,
      (Except.ok "" : Except String String) = .ok explanation := fun _ _ => ⟨"", rfl⟩
  have hgoal : splitGoal? ["∀x P(x)", " P(A)) ∧ (P(A) "] =
      some (["∀x P(x)"], "P(A)) ∧ (P(A)") := rfl
  have hnone : splitGoal? ["∀x P(x)", "¬P(A)"] = none := rfl
  obtain ⟨last, hlast, hruns⟩ :=
    (runsAs_proveGoal_and_prove (ofFormulas ["∀x P(x)", " P(A)) ∧ (P(A) "]) "" rfl hexplain).1
      _ _ hgoal
  obtain rfl : " P(A)) ∧ (P(A) " = last := (List.cons.inj (List.cons.inj hlast).2).1
  have hruns' :=
    (runsAs_proveGoal_and_prove (ofFormulas ["∀x P(x)", "¬P(A)"]) "" rfl hexplain).2 hnone
  exact ⟨hgoal, hruns, hnone, hruns'⟩

end Pipeline

end Clausal
