/-!
# The proof log

A proof log records one search: the clauses it started with, each resolvent that was kept, and how
it ended.  It holds texts rather than clauses, so it can be stored and read back.
-/

namespace Clausal

/-- A registered clause as the log shows it. -/
structure ClauseRecord where
  id : Nat
  text : String
  source : String
deriving DecidableEq, Inhabited, Repr

/-- The derivation of a clause from two others. -/
structure ResolutionStep where
  /-- The round of the search. -/
  step : Nat
  parentIds : Nat × Nat
  parentTexts : String × String
  resolventId : Nat
  resolventText : String
  /-- Variables with the texts of their terms, in the order in which they were bound. -/
  substitution : List (String × String)
  /-- The texts of the two literals resolved on. -/
  cut : String × String
deriving DecidableEq, Inhabited, Repr

/-- An entry of a proof log. -/
inductive LogEntry where
  | initial (clauses : List ClauseRecord)
  | resolution (r : ResolutionStep)
  /-- The empty clause was found. -/
  | contradiction (clauseId : Nat) (parentIds : List Nat)
  | noNewClauses
  | timeout
deriving DecidableEq, Inhabited, Repr

/-- The entries of a proof attempt in order. -/
structure ProofLog where
  entries : Array LogEntry
deriving DecidableEq, Inhabited, Repr

/-! ### Text -/

/-- The text of a clause number. -/
def idText (id : Nat) : String :=
  "[" ++ toString id ++ "]"

/-- The text of a clause record. -/
def ClauseRecord.line (r : ClauseRecord) : String :=
  idText r.id ++ " " ++ r.text ++ " (" ++ r.source ++ ")"

/-- The text of a resolution step. -/
def ResolutionStep.line (r : ResolutionStep) : String :=
  "step " ++ toString r.step ++ ": " ++ idText r.resolventId ++ " " ++ r.resolventText ++
    " from " ++ idText r.parentIds.1 ++ " and " ++ idText r.parentIds.2 ++
    " on " ++ r.cut.1 ++ " / " ++ r.cut.2 ++
    (if r.substitution.isEmpty then ""
    else
      " with \x7b" ++ ", ".intercalate (r.substitution.map fun (v, t) => v ++ " ↦ " ++ t) ++
        "\x7d")

/-- The text of an entry. -/
def LogEntry.text : LogEntry → String
  | .initial clauses =>
      "initial clauses:" ++
        (if clauses.isEmpty then ""
        else " " ++ "; ".intercalate (clauses.map ClauseRecord.line))
  | .resolution r => r.line
  | .contradiction clauseId parentIds =>
      "contradiction: " ++ idText clauseId ++ " □" ++
        (if parentIds.isEmpty then ""
        else " from " ++ " and ".intercalate (parentIds.map idText))
  | .noNewClauses => "no new clauses"
  | .timeout => "timeout: search ceiling reached"

namespace ProofLog

/-- The log without entries. -/
def empty : ProofLog :=
  { entries := #[] }

/-- Adds an entry at the end. -/
def push (log : ProofLog) (e : LogEntry) : ProofLog :=
  { entries := log.entries.push e }

/-- The text of a log, one line for each entry. -/
def text (log : ProofLog) : String :=
  String.join (log.entries.toList.map fun e => e.text ++ "\n")

/-! ### What a log tells -/

/-- The resolution steps of a log in order. -/
def steps (log : ProofLog) : List ResolutionStep :=
  log.entries.toList.filterMap fun
    | .resolution r => some r
    | _ => none

/-- The number of the empty clause that was found first. -/
def contradiction? (log : ProofLog) : Option Nat :=
  log.entries.toList.findSome? fun
    | .contradiction clauseId _ => some clauseId
    | _ => none

end ProofLog

end Clausal
