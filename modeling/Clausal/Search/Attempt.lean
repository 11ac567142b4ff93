import Clausal.Formula.ClauseForm
import Clausal.Search.Run
import Clausal.Statement.Reading

/-!
# Proof attempts

A proof attempt first collects formulas and then searches.  Formulas are read and lowered as they
come, but put into clause form only when the search starts, when the symbols of all of them are
known and no Skolem symbol can collide with one.
-/

namespace Clausal

/-- Why a proof attempt fails. -/
inductive ProveError where
  /-- A formula text cannot be read. -/
  | badFormula (number : Nat) (text : String) (e : ParseError)
  /-- A formula has no clause form. -/
  | noClauseForm (number : Nat) (text : String) (e : NormalFormError)
  /-- There are no formulas. -/
  | nothingToRefute
  /-- A formula comes after the search has started. -/
  | lateFormula
deriving DecidableEq, Repr

/-- The message for each cause. -/
def ProveError.message : ProveError → String
  | .badFormula number text e => located number text e.message
  | .noClauseForm number text e => located number text e.message
  | .nothingToRefute => "no clauses to refute"
  | .lateFormula => "internal invariant violated: formula added after the search started"
where
  located (number : Nat) (text cause : String) : String :=
    "formula " ++ toString number ++ " `" ++ text ++ "`: " ++ cause

/-! ### Collecting formulas -/

/-- A formula that waits for the search to start. -/
structure PendingFormula where
  /-- Its place among all formulas, counted from one. -/
  number : Nat
  text : String
  origin : Origin
  formula : Formula
deriving DecidableEq, Repr

/-- The formulas collected so far. -/
structure Intake where
  settings : Settings
  /-- The supply of Skolem symbols, from which those of the formulas are kept out. -/
  supply : SkolemSupply
  /-- The formulas that are not blank, in order. -/
  pending : List PendingFormula
  /-- The number of formulas offered, blank and faulty ones included. -/
  count : Nat
deriving DecidableEq, Repr

namespace Intake

/-- The intake without formulas. -/
def new (settings : Settings) : Intake :=
  { settings, supply := .initial, pending := [], count := 0 }

/-- Takes in a formula.  It is counted even if it is blank or faulty. -/
def add (i : Intake) (text : String) (origin : Origin) : Except ProveError Unit × Intake :=
  let number := i.count + 1
  let counted := { i with count := number }
  match Statement.parse text with
  | .error e => (.error (.badFormula number text e), counted)
  | .ok none => (.ok (), counted)
  | .ok (some statement) =>
      match Formula.ofStatement statement with
      | .error e => (.error (.noClauseForm number text e), counted)
      | .ok formula =>
          (.ok (),
            { counted with
              supply := i.supply.reserve formula
              pending := i.pending ++ [{ number, text, origin, formula }] })

/-- The clauses of formulas, which share one supply of Skolem symbols. -/
def clausesFrom : List PendingFormula → SkolemSupply → Except ProveError (List Clause)
  | [], _ => .ok []
  | p :: rest, supply =>
      match p.formula.clauses (some p.number) supply with
      | (.error e, _) => .error (.noClauseForm p.number p.text e)
      | (.ok clauses, supply) =>
          (clausesFrom rest supply).map fun more =>
            clauses.map (fun c => Clause.ofLiterals c.literals (.given p.origin)) ++ more

/-- Puts the formulas into clause form and starts the search. -/
def start (i : Intake) : Except ProveError Search :=
  match clausesFrom i.pending i.supply with
  | .error e => .error e
  | .ok clauses =>
      if clauses.isEmpty then .error .nothingToRefute
      else
        let registry := clauses.foldl Registry.register .empty
        .ok
          { settings := i.settings
            registry := registry.note (.initial registry.records)
            stepsMade := 0
            paired := 0 }

end Intake

/-! ### Attempts -/

/-- A proof attempt in one of its three phases. -/
inductive Attempt where
  | collecting (i : Intake)
  | searching (s : Search)
  | finished (s : Search) (verdict : Verdict)
deriving DecidableEq, Repr

namespace Attempt

/-- The attempt without formulas. -/
def new (settings : Settings) : Attempt :=
  .collecting (.new settings)

/-- The clauses and the log; before the search starts there are none. -/
def registry : Attempt → Registry
  | .collecting _ => .empty
  | .searching s => s.registry
  | .finished s _ => s.registry

/-- The verdict, once there is one. -/
def verdict? : Attempt → Option Verdict
  | .finished _ verdict => some verdict
  | _ => none

/-- Takes in a formula, which is refused once the search has started. -/
def add (a : Attempt) (text : String) (origin : Origin) : Except ProveError Unit × Attempt :=
  match a with
  | .collecting i =>
      let (result, i) := i.add text origin
      (result, .collecting i)
  | a => (.error .lateFormula, a)

/-- What a step of a search gives, and the attempt after it. -/
def ofStep : Search × Option Verdict → Except ProveError (Option Verdict) × Attempt
  | (s, some verdict) => (.ok (some verdict), .finished s verdict)
  | (s, none) => (.ok none, .searching s)

/-- Makes one step, starting the search first if need be; gives the verdict if there is one. -/
def step (a : Attempt) : Except ProveError (Option Verdict) × Attempt :=
  match a with
  | .collecting i =>
      match i.start with
      | .error e => (.error e, a)
      | .ok s => ofStep s.step
  | .searching s => ofStep s.step
  | .finished _ verdict => (.ok (some verdict), a)

/-- Steps until there is a verdict, and gives it with the log. -/
def run (a : Attempt) : Except ProveError (Verdict × ProofLog) :=
  match a with
  | .collecting i => i.start.map (ofRun ·.run)
  | .searching s => .ok (ofRun s.run)
  | .finished s verdict => .ok (ofRun (s, verdict))
where
  ofRun : Search × Verdict → Verdict × ProofLog
    | (s, verdict) => (verdict, s.registry.log)

/-- Takes in formulas until one is refused. -/
def addAll (a : Attempt) : List (String × Origin) → Except ProveError Attempt
  | [] => .ok a
  | (text, origin) :: rest =>
      match a.add text origin with
      | (.error e, _) => .error e
      | (.ok (), a) => a.addAll rest

end Attempt

/-! ### Proving -/

/-- The text of the negation of a goal. -/
def negatedGoalText (goal : String) : String :=
  "¬(" ++ goal ++ ")"

/-- Premises with their numbers as origins, counted from one. -/
def premises (formulas : List String) : List (String × Origin) :=
  formulas.zipIdx.map fun (text, i) => (text, .premise (i + 1))

/-- Tries to refute formulas. -/
def prove (settings : Settings) (formulas : List String) :
    Except ProveError (Verdict × ProofLog) := do
  let attempt ← (Attempt.new settings).addAll (premises formulas)
  attempt.run

/-- Tries to prove a goal from premises by refuting them together with its negation. -/
def proveGoal (settings : Settings) (formulas : List String) (goal : String) :
    Except ProveError (Verdict × ProofLog) := do
  let negated := (negatedGoalText goal, .negatedGoal)
  let attempt ← (Attempt.new settings).addAll (premises formulas ++ [negated])
  attempt.run

end Clausal
