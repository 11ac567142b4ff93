import Clausal.Search.Round

/-!
# Saturation search

A search repeats rounds of resolution.  Before each round it looks for the empty clause, which
refutes the input, and at its ceilings, which leave the input undetermined.  A round that adds
nothing shows that the clauses are saturated and the input is not refuted.
-/

namespace Clausal

/-- How a search ended. -/
inductive Verdict where
  /-- The empty clause was derived. -/
  | refuted
  /-- The clauses are saturated without a contradiction. -/
  | notRefuted
  /-- A ceiling was reached first. -/
  | undetermined
deriving DecidableEq, Inhabited, Repr

/-- The text of a verdict. -/
def Verdict.text : Verdict → String
  | .refuted => "refuted"
  | .notRefuted => "not refuted"
  | .undetermined => "undetermined"

/-- A search between two steps. -/
structure Search where
  settings : Settings
  registry : Registry
  /-- The number of steps made. -/
  stepsMade : Nat
  /-- Every pair of clauses below this number has been tried. -/
  paired : Nat
deriving DecidableEq, Repr

namespace Search

/-- Ends a search with an entry in the log. -/
def finish (s : Search) (e : LogEntry) : Search :=
  { s with registry := s.registry.note e }

/-- Runs a round of resolution. -/
def round (s : Search) : Search :=
  { s with
    registry := s.registry.resolveRound s.settings s.stepsMade s.paired
    paired := s.registry.size }

/-- Makes one step, and gives the verdict if the search is over with it. -/
def step (search : Search) : Search × Option Verdict :=
  let s := { search with stepsMade := search.stepsMade + 1 }
  match s.registry.findEmpty? with
  | some (id, c) => (s.finish (.contradiction id c.provenance.parents), some .refuted)
  | none =>
      if s.settings.maxSteps < s.stepsMade ∨ s.settings.maxClauses ≤ s.registry.size then
        (s.finish .timeout, some .undetermined)
      else
        let next := s.round
        if next.registry.size = s.registry.size then
          (next.finish .noNewClauses, some .notRefuted)
        else (next, none)

/-- A step without a verdict is counted and stays within the ceiling on steps. -/
theorem step_none {s t : Search} (h : s.step = (t, none)) :
    t.settings = s.settings ∧ t.stepsMade = s.stepsMade + 1 ∧
      s.stepsMade < s.settings.maxSteps := by
  unfold step at h
  simp only at h
  split at h
  · simp at h
  · split at h
    · simp at h
    case isFalse hlimits =>
      split at h
      · simp at h
      · obtain rfl := (Prod.mk.inj h).1
        refine ⟨rfl, rfl, ?_⟩
        simp only [not_or, Nat.not_lt] at hlimits
        omega

/-- Steps until there is a verdict. -/
def run (s : Search) : Search × Verdict :=
  match _hstep : s.step with
  | (t, some verdict) => (t, verdict)
  | (t, none) => t.run
termination_by s.settings.maxSteps - s.stepsMade
decreasing_by
  obtain ⟨hsettings, hsteps, hlt⟩ := step_none _hstep
  rw [hsettings, hsteps]
  omega

end Search

end Clausal
