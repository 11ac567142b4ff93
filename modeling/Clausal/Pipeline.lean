import Clausal.Search.Attempt

/-!
# From problem text to explanation

A pipeline turns the text of a problem into formulas, tries to refute them, and explains the
result.  How the text becomes formulas and how a result is explained is given from outside.

If no formula is negated, the last one may be meant as the goal.  It is taken for one if it has an
argument list and is not a universal statement, and its negation takes its place.
-/

namespace Clausal

/-- Why a pipeline fails. -/
inductive PipelineError where
  | formalization (reason : String)
  | explanation (reason : String)
  | proof (e : ProveError)
deriving DecidableEq, Repr

/-- The message for each cause. -/
def PipelineError.message : PipelineError → String
  | .formalization reason => "formalization failed: " ++ reason
  | .explanation reason => "explanation failed: " ++ reason
  | .proof e => e.message

/-- What a pipeline gives. -/
structure PipelineOutcome where
  /-- The formulas handed to the search; a goal stands last, negated. -/
  formulas : List String
  verdict : Verdict
  log : ProofLog
  explanation : String
deriving DecidableEq, Repr

/-- The premises and the goal among formulas, if the last one is a goal. -/
def splitGoal? (formulas : List String) : Option (List String × String) :=
  let startsWith (cs : List Char) (c : Char) : Bool := cs.head? == some c
  if formulas.length < 2 || formulas.any (fun f => startsWith (Text.trimStart f.toList) '¬') then
    none
  else
    match formulas.getLast? with
    | none => none
    | some last =>
        let goal := (Text.trim last).toList
        if !goal.contains '(' || startsWith goal '∀' then none
        else some (formulas.dropLast, Text.trim last)

/-- The outside parts of a pipeline, and the settings of the search. -/
structure Pipeline where
  formalize : String → Except String (List String)
  explain : ProofLog → Verdict → Except String String
  settings : Settings

namespace Pipeline

/-- The formula texts of an attempt with their origins. -/
def inputs (formulas : List String) : List (String × Origin) :=
  match splitGoal? formulas with
  | none => premises formulas
  | some (rest, goal) => premises rest ++ [(negatedGoalText goal, .negatedGoal)]

/-- Runs a pipeline on the text of a problem. -/
def run (p : Pipeline) (text : String) : Except PipelineError PipelineOutcome := do
  let formulas ← (p.formalize text).mapError .formalization
  let inputs := inputs formulas
  let attempt ← ((Attempt.new p.settings).addAll inputs).mapError .proof
  let (verdict, log) ← attempt.run.mapError .proof
  let explanation ← (p.explain log verdict).mapError .explanation
  return { formulas := inputs.map (·.1), verdict, log, explanation }

end Pipeline

end Clausal
