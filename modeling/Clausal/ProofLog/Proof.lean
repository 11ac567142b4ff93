import Clausal.ProofLog.Basic

/-!
# The clauses of a proof

The proof behind a contradiction consists of the empty clause, its parents, their parents, and so
on.  The parents of a clause are those of the last step that is recorded for it.  The clauses are
collected from a list of those still to be looked at.  A clause is looked into once only, so this
ends also on a log whose steps go in a circle: each clause with a step uses up that step, and every
other move shortens the list.
-/

namespace Clausal

namespace ResolutionStep

/-- The parents of a clause according to the last step recorded for it. -/
def parentsOf? (steps : List ResolutionStep) (id : Nat) : Option (Nat × Nat) :=
  (steps.reverse.find? (·.resolventId = id)).map (·.parentIds)

/-- The steps that do not derive one of the clauses visited. -/
def unused (steps : List ResolutionStep) (visited : List Nat) : List ResolutionStep :=
  steps.filter (·.resolventId ∉ visited)

/-- Visiting a clause uses up the steps that derive it. -/
theorem unused_cons (steps : List ResolutionStep) (visited : List Nat) (id : Nat) :
    unused steps (id :: visited) = (unused steps visited).filter (·.resolventId ≠ id) := by
  simp [unused, List.filter_filter]

/-- Visiting a clause leaves no more steps than before. -/
theorem length_unused_cons_le (steps : List ResolutionStep) (visited : List Nat) (id : Nat) :
    (unused steps (id :: visited)).length ≤ (unused steps visited).length := by
  rw [unused_cons]
  exact List.length_filter_le _ _

/-- Visiting a new clause with parents leaves fewer steps than before. -/
theorem length_unused_cons_lt {steps : List ResolutionStep} {visited : List Nat} {id : Nat}
    {parents : Nat × Nat} (hid : id ∉ visited) (hparents : parentsOf? steps id = some parents) :
    (unused steps (id :: visited)).length < (unused steps visited).length := by
  obtain ⟨r, hfind, -⟩ := Option.map_eq_some_iff.mp hparents
  have hmem : r ∈ steps := List.mem_reverse.mp (List.mem_of_find?_eq_some hfind)
  have hr : r.resolventId = id := by simpa using List.find?_some hfind
  rw [unused_cons, List.length_filter_lt_length_iff_exists]
  exact ⟨r, by simp [unused, hmem, hr, hid], by simp [hr]⟩

/-- The clauses visited when those in `agenda`, and all that they derive from, are added to the
ones visited already. -/
def ancestors (steps : List ResolutionStep) (visited agenda : List Nat) : List Nat :=
  match agenda with
  | [] => visited
  | id :: agenda =>
      if id ∈ visited then ancestors steps visited agenda
      else
        match _hparents : parentsOf? steps id with
        | none => ancestors steps (id :: visited) agenda
        | some (a, b) => ancestors steps (id :: visited) (a :: b :: agenda)
termination_by ((unused steps visited).length, agenda.length)
decreasing_by
  · exact Prod.Lex.right _ (Nat.lt_succ_self _)
  · rcases Nat.lt_or_eq_of_le (length_unused_cons_le steps visited id) with hlt | heq
    · exact Prod.Lex.left _ _ hlt
    · rw [heq]
      exact Prod.Lex.right _ (Nat.lt_succ_self _)
  · exact Prod.Lex.left _ _ (length_unused_cons_lt (by assumption) _hparents)

end ResolutionStep

/-- The numbers of the clauses of the proof in ascending order, if there is a contradiction. -/
def ProofLog.proofClauses? (log : ProofLog) : Option (List Nat) :=
  log.contradiction?.map fun id => (ResolutionStep.ancestors log.steps [] [id]).mergeSort

end Clausal
