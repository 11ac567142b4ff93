import Clausal.Clause
import Clausal.ProofLog.Basic
import Clausal.Resolvent

/-!
# The clause registry

A search numbers its clauses in the order in which it finds them, starting from zero, and keeps
them together with its log.  Clauses and log entries are only ever added.
-/

namespace Clausal

/-- The clauses of a search, each at the index that is its number, and the log. -/
structure Registry where
  clauses : Array Clause
  log : ProofLog
deriving DecidableEq, Inhabited, Repr

namespace Registry

/-- The registry without clauses and without log entries. -/
def empty : Registry :=
  { clauses := #[], log := .empty }

/-- The number of registered clauses. -/
def size (r : Registry) : Nat :=
  r.clauses.size

/-- Adds a clause under the next number. -/
def register (r : Registry) (c : Clause) : Registry :=
  { r with clauses := r.clauses.push { c with id := some r.clauses.size } }

/-- Adds an entry to the log. -/
def note (r : Registry) (e : LogEntry) : Registry :=
  { r with log := r.log.push e }

/-- The clause with the given number. -/
def get? (r : Registry) (id : Nat) : Option Clause :=
  r.clauses[id]?

/-- The first empty clause, with its number. -/
def findEmpty? (r : Registry) : Option (Nat × Clause) :=
  (r.clauses.toList.zipIdx.find? (·.1.isEmpty)).map fun (c, id) => (id, c)

/-- A clause with its number as the log shows it. -/
def recordOf (c : Clause) (id : Nat) : ClauseRecord :=
  { id, text := c.text, source := c.provenance.origin.text }

/-- The clause with the given number as the log shows it. -/
def record? (r : Registry) (id : Nat) : Option ClauseRecord :=
  (r.get? id).map (recordOf · id)

/-- All clauses as the log shows them. -/
def records (r : Registry) : List ClauseRecord :=
  r.clauses.toList.zipIdx.map fun (c, id) => recordOf c id

/-- Adds a resolvent and the log entry that tells how it was obtained. -/
def addResolvent (r : Registry) (step : Nat) (parents : ParentPair) (resolvent : Resolvent) :
    Registry :=
  (r.register resolvent.clause).note <| .resolution
    { step
      parentIds := (parents.leftId, parents.rightId)
      parentTexts := (parents.left.text, parents.right.text)
      resolventId := r.size
      resolventText := resolvent.clause.text
      substitution := resolvent.unifier.texts
      cut := (resolvent.cut.1.text, resolvent.cut.2.text) }

end Registry

end Clausal
