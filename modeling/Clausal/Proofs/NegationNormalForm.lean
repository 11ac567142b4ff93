import Clausal.Proofs.Truth

/-!
# Negation normal form

Eliminating implications and pushing negations inwards keep the truth value of a formula under every
assignment, its free variables, its symbols and the names its quantifiers bind.  What results has
neither a negation nor an implication, and implications need not be eliminated first.

All facts about `negationNormal` are proved for both values of its flag at once, as each of the two
directions calls the other.
-/

namespace Clausal

universe u

variable {D : Type u}

namespace Formula

/-- A formula without negations and implications. -/
def IsNegationNormal : Formula → Prop
  | .atom _ => True
  | .and f g | .or f g => f.IsNegationNormal ∧ g.IsNegationNormal
  | .quantified _ _ f => f.IsNegationNormal
  | .not _ | .implies _ _ => False

/-- Replacing a variable keeps negation normal form. -/
lemma IsNegationNormal.replace {f : Formula} (h : f.IsNegationNormal) (v : String) (r : Term) :
    (f.replace v r).IsNegationNormal := by
  induction f with
  | atom l => trivial
  | not f ih => exact h.elim
  | and f g ihf ihg => exact ⟨ihf h.1, ihg h.2⟩
  | or f g ihf ihg => exact ⟨ihf h.1, ihg h.2⟩
  | implies f g ihf ihg => exact h.elim
  | quantified q w f ih =>
    rw [Formula.replace]
    by_cases hwv : w = v
    · rw [if_pos hwv]
      exact h
    · rw [if_neg hwv]
      exact ih h

/-! ## Eliminating implications -/

/-- Writing implications as disjunctions keeps the truth value. -/
lemma holds_eliminateImplications (M : Structure D) (ε : String → D) (f : Formula) :
    f.eliminateImplications.Holds M ε ↔ f.Holds M ε := by
  induction f generalizing ε with
  | atom l => exact Iff.rfl
  | not f ih => exact not_congr (ih ε)
  | and f g ihf ihg => exact and_congr (ihf ε) (ihg ε)
  | or f g ihf ihg => exact or_congr (ihf ε) (ihg ε)
  | implies f g ihf ihg =>
    have h : (f.implies g).eliminateImplications.Holds M ε ↔ (¬ f.Holds M ε ∨ g.Holds M ε) :=
      or_congr (not_congr (ihf ε)) (ihg ε)
    rw [h]
    exact imp_iff_not_or.symm
  | quantified q v f ih => exact q.says_congr (fun d => ih (update ε v d))

@[simp] lemma freeVars_eliminateImplications (f : Formula) :
    f.eliminateImplications.freeVars = f.freeVars := by
  induction f with
  | atom l => rfl
  | not f ih => exact ih
  | and f g ihf ihg | or f g ihf ihg | implies f g ihf ihg =>
    simp only [eliminateImplications, freeVars, ihf, ihg]
  | quantified q v f ih => simp only [eliminateImplications, freeVars, ih]

@[simp] lemma boundVars_eliminateImplications (f : Formula) :
    f.eliminateImplications.boundVars = f.boundVars := by
  induction f with
  | atom l => rfl
  | not f ih => exact ih
  | and f g ihf ihg | or f g ihf ihg | implies f g ihf ihg =>
    simp only [eliminateImplications, boundVars, ihf, ihg]
  | quantified q v f ih => simp only [eliminateImplications, boundVars, ih]

@[simp] lemma symbols_eliminateImplications (f : Formula) :
    f.eliminateImplications.symbols = f.symbols := by
  induction f with
  | atom l => rfl
  | not f ih => exact ih
  | and f g ihf ihg | or f g ihf ihg | implies f g ihf ihg =>
    simp only [eliminateImplications, symbols, ihf, ihg]
  | quantified q v f ih => simp only [eliminateImplications, symbols, ih]

/-! ## Pushing negations -/

/-- The negation normal form is true when the formula is, or when it is not if the flag is set. -/
lemma holds_negationNormal (M : Structure D) (ε : String → D) (f : Formula) (negate : Bool) :
    (f.negationNormal negate).Holds M ε ↔ (if negate then ¬ f.Holds M ε else f.Holds M ε) := by
  induction f generalizing ε negate with
  | atom l =>
    cases negate with
    | false => exact Iff.rfl
    | true => exact l.holds_complement M ε
  | not f ih =>
    rw [negationNormal, ih]
    cases negate with
    | false => exact Iff.rfl
    | true => exact not_not.symm
  | and f g ihf ihg =>
    cases negate with
    | false => exact and_congr (ihf ε false) (ihg ε false)
    | true => exact (or_congr (ihf ε true) (ihg ε true)).trans not_and_or.symm
  | or f g ihf ihg =>
    cases negate with
    | false => exact or_congr (ihf ε false) (ihg ε false)
    | true => exact (and_congr (ihf ε true) (ihg ε true)).trans not_or.symm
  | implies f g ihf ihg =>
    cases negate with
    | false => exact (or_congr (ihf ε true) (ihg ε false)).trans imp_iff_not_or.symm
    | true => exact (and_congr (ihf ε false) (ihg ε true)).trans Classical.not_imp.symm
  | quantified q v f ih =>
    cases negate with
    | false => exact q.says_congr (fun d => ih (update ε v d) false)
    | true =>
      have h := q.dual.says_congr (fun d => ih (update ε v d) true)
      exact h.trans (q.says_dual_not _)

@[simp] lemma freeVars_negationNormal (f : Formula) (negate : Bool) :
    (f.negationNormal negate).freeVars = f.freeVars := by
  induction f generalizing negate with
  | atom l => cases negate <;> rfl
  | not f ih => exact ih _
  | and f g ihf ihg | or f g ihf ihg | implies f g ihf ihg =>
    cases negate <;> simp only [negationNormal, freeVars, ihf, ihg]
  | quantified q v f ih => simp only [negationNormal, freeVars, ih]

@[simp] lemma boundVars_negationNormal (f : Formula) (negate : Bool) :
    (f.negationNormal negate).boundVars = f.boundVars := by
  induction f generalizing negate with
  | atom l => rfl
  | not f ih => exact ih _
  | and f g ihf ihg | or f g ihf ihg | implies f g ihf ihg =>
    cases negate <;> simp only [negationNormal, boundVars, ihf, ihg]
  | quantified q v f ih => simp only [negationNormal, boundVars, ih]

@[simp] lemma symbols_negationNormal (f : Formula) (negate : Bool) :
    (f.negationNormal negate).symbols = f.symbols := by
  induction f generalizing negate with
  | atom l => cases negate <;> rfl
  | not f ih => exact ih _
  | and f g ihf ihg | or f g ihf ihg | implies f g ihf ihg =>
    cases negate <;> simp only [negationNormal, symbols, ihf, ihg]
  | quantified q v f ih => simp only [negationNormal, symbols, ih]

/-- What `negationNormal` gives has no negation and no implication. -/
lemma isNegationNormal_negationNormal (f : Formula) (negate : Bool) :
    (f.negationNormal negate).IsNegationNormal := by
  induction f generalizing negate with
  | atom l => trivial
  | not f ih => exact ih _
  | and f g ihf ihg | or f g ihf ihg | implies f g ihf ihg =>
    cases negate <;> exact ⟨ihf _, ihg _⟩
  | quantified q v f ih => exact ih negate

/-! ## Two treatments of implications -/

/-- It makes no difference whether implications are written as disjunctions first or treated on the
way, under either sign. -/
lemma negationNormal_eliminateImplications (f : Formula) (negate : Bool) :
    f.eliminateImplications.negationNormal negate = f.negationNormal negate := by
  induction f generalizing negate with
  | atom l => rfl
  | not f ih => exact ih (!negate)
  | and f g ihf ihg | or f g ihf ihg =>
    cases negate <;> simp only [eliminateImplications, negationNormal, ihf, ihg]
  | implies f g ihf ihg =>
    -- the negation in front of the first part changes the sign under which it is treated
    cases negate <;>
      simp only [eliminateImplications, negationNormal, Bool.not_true, Bool.not_false, ihf, ihg]
  | quantified q v f ih => simp only [eliminateImplications, negationNormal, ih]

/-- A formula in negation normal form is its own. -/
lemma IsNegationNormal.negationNormal_eq {f : Formula} (h : f.IsNegationNormal) :
    f.negationNormal false = f := by
  induction f with
  | atom l => rfl
  | not f ih => exact h.elim
  | and f g ihf ihg => rw [negationNormal, ihf h.1, ihg h.2]
  | or f g ihf ihg => rw [negationNormal, ihf h.1, ihg h.2]
  | implies f g ihf ihg => exact h.elim
  | quantified q v f ih =>
    rw [negationNormal, ih h]
    rfl

/-- Pushing negations leaves neither a negation nor an implication.  It gives what it gives after
the implications are eliminated, a second time it changes nothing, and the truth value stays the
same in every structure under every assignment. -/
theorem isNegationNormal_pushNegations_and_holds_iff (f : Formula) :
    f.pushNegations.IsNegationNormal ∧
      f.pushNegations = f.eliminateImplications.pushNegations ∧
      f.pushNegations.pushNegations = f.pushNegations ∧
      ∀ {D : Type u} (M : Structure D) (ε : String → D),
        f.pushNegations.Holds M ε ↔ f.Holds M ε := by
  have hnormal : f.pushNegations.IsNegationNormal := f.isNegationNormal_negationNormal false
  refine ⟨hnormal, ?_, hnormal.negationNormal_eq, ?_⟩
  · exact (f.negationNormal_eliminateImplications false).symm
  · intro D M ε
    exact f.holds_negationNormal M ε false

end Formula

end Clausal
