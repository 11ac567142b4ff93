import Clausal.Proofs.FactorClosure

/-!
# Tautologies

A clause that has an atom with both signs is true in every structure.  No other clause is: among the
structures of terms there is one in which the atoms are true that the clause has with the negative
sign, and no others.  Under the assignment that gives each variable itself all literals of the
clause are false there.

Terms are in the lowest universe.  `Structure.lift` takes a structure to a higher one, so that truth
in the structures of any one universe is enough for a clause to be a tautology.
-/

namespace Clausal

universe u v

/-! ## Structures in higher universes -/

section Lift

variable {D : Type u} (M : Structure D) (ε : String → ULift.{v} D)

/-- The same structure over a copy of its domain in a higher universe. -/
def Structure.lift : Structure (ULift.{v} D) where
  const c := ⟨M.const c⟩
  fn f args := ⟨M.fn f (args.map ULift.down)⟩
  pred p args := M.pred p (args.map ULift.down)

/-- The value of a term in the copy is the copy of its value. -/
lemma Term.down_eval_lift (t : Term) :
    (t.eval M.lift ε).down = t.eval M (fun x => (ε x).down) := by
  induction t with
  | var x => rfl
  | const c => rfl
  | app f args ih =>
    simp only [eval_app, Structure.lift, List.map_map]
    congr 1
    exact List.map_congr_left ih

/-- A literal is true in the copy exactly when it is true. -/
lemma Literal.holds_lift (l : Literal) : l.Holds M.lift ε ↔ l.Holds M (fun x => (ε x).down) := by
  have hargs : (l.args.map (Term.eval M.lift ε)).map ULift.down =
      l.args.map (Term.eval M (fun x => (ε x).down)) := by
    rw [List.map_map]
    exact List.map_congr_left fun t _ => Term.down_eval_lift M ε t
  unfold Holds
  change (if l.positive then M.pred l.predicate ((l.args.map (Term.eval M.lift ε)).map ULift.down)
    else ¬ M.pred l.predicate ((l.args.map (Term.eval M.lift ε)).map ULift.down)) ↔ _
  rw [hargs]

end Lift

namespace Clause

variable {c : Clause}

/-! ## Clauses that are true everywhere -/

/-- A tautology is true in every structure. -/
lemma valid_of_isTautology {D : Type u} (M : Structure D) (h : c.isTautology = true) :
    c.Valid M := by
  intro ε
  obtain ⟨l, hl, hcomplement⟩ := isTautology_iff.mp h
  by_cases htrue : l.Holds M ε
  · exact ⟨l, hl, htrue⟩
  · exact ⟨l.complement, hcomplement, (l.holds_complement M ε).mpr htrue⟩

/-- If a clause is no tautology, then all its literals are false under some truth assignment. -/
lemma exists_forall_not_trueUnder (h : c.isTautology = false) :
    ∃ w : Atom → Bool, ∀ l ∈ c.literals, ¬ l.TrueUnder w := by
  -- the atoms of the negative literals are true, and they are not those of positive literals
  obtain ⟨w, hw⟩ :=
    Registry.exists_trueUnder_iff {a | ∃ m ∈ c.literals, m.positive = false ∧ m.atom = a} true
  refine ⟨w, fun l hl htrue => ?_⟩
  rw [hw] at htrue
  cases hsign : l.positive with
  | false =>
    have hpositive := htrue.mp ⟨l, hl, hsign, rfl⟩
    rw [hsign] at hpositive
    cases hpositive
  | true =>
    obtain ⟨m, hm, hnegative, hatom⟩ := htrue.mpr hsign
    have hcomplement : m = l.complement :=
      Literal.eq_of_atom_eq hatom (by rw [hnegative, Literal.complement, hsign]; rfl)
    have htautology : c.isTautology = true := isTautology_iff.mpr ⟨l, hl, hcomplement ▸ hm⟩
    rw [h] at htautology
    cases htautology

/-- If a clause is no tautology, then in some structure it is not true. -/
lemma exists_not_valid (h : c.isTautology = false) :
    ∃ M : Structure (ULift.{u} Term), ¬ c.Valid M := by
  obtain ⟨w, hw⟩ := exists_forall_not_trueUnder h
  refine ⟨(termStructure w).lift, fun hvalid => ?_⟩
  obtain ⟨l, hl, htrue⟩ := hvalid fun x => ⟨.var x⟩
  have hself : l.subst .var = l := Literal.subst_eq_self fun _ _ => rfl
  rw [Literal.holds_lift, Literal.holds_termStructure_iff, hself] at htrue
  exact hw l hl htrue

/-- A clause is reported as a tautology exactly if it is one, whatever clauses are known. -/
lemma redundancy?_eq_tautology_iff (mode : SubsumptionMode) (known : Array Clause) :
    c.redundancy? mode known = some .tautology ↔ c.isTautology = true := by
  unfold redundancy?
  split
  · rename_i h
    exact iff_of_true rfl h
  · rename_i h
    refine iff_of_false (fun hsubsumed => ?_) h
    obtain ⟨id, -, hid⟩ := Option.map_eq_some_iff.mp hsubsumed
    cases hid

/-- A clause is a tautology exactly if in every structure with an element one of its literals is
true under each assignment.  These are the clauses that are reported as tautologies, whatever
clauses are known. -/
theorem isTautology_iff_forall_valid (c : Clause) :
    (c.isTautology = true ↔ ∀ (D : Type u) (M : Structure D), Nonempty D → c.Valid M) ∧
      ∀ mode known, c.redundancy? mode known = some .tautology ↔
        ∀ (D : Type u) (M : Structure D), Nonempty D → c.Valid M := by
  have hiff : c.isTautology = true ↔ ∀ (D : Type u) (M : Structure D), Nonempty D → c.Valid M := by
    constructor
    · intro h D M _
      exact valid_of_isTautology M h
    · intro hvalid
      by_contra hnot
      obtain ⟨M, hM⟩ := exists_not_valid (Bool.not_eq_true _ ▸ hnot)
      exact hM (hvalid _ M ⟨⟨.var ""⟩⟩)
  exact ⟨hiff, fun mode known => (redundancy?_eq_tautology_iff mode known).trans hiff⟩

end Clause

end Clausal
