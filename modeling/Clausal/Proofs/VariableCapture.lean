import Clausal.Proofs.NegationNormalForm
import Clausal.Proofs.Unification

/-!
# Capture of variables

Replacing a variable by another one does not rename bound variables, so a free occurrence of the old
variable may come under a quantifier that binds the new one.  `Captures` says that there is such an
occurrence.  Where there is none, replacing the variable amounts to giving it the value of the new
one.

A bound variable is renamed by putting a number after its name.  The formulas with plain scopes are
those in which no such name captures anything: no bound variable occurs under a quantifier inside
its scope whose variable is the same name followed by a number.  Renaming without capture keeps
scopes plain, and so does the way to negation normal form.
-/

namespace Clausal

universe u

variable {D : Type u}

namespace Formula

/-! ## Occurrences under a quantifier -/

/-- Some free occurrence of `v` stands under a quantifier that binds `w`. -/
def Captures (v w : String) : Formula → Prop
  | .atom _ => False
  | .not f => f.Captures v w
  | .and f g | .or f g | .implies f g => f.Captures v w ∨ g.Captures v w
  | .quantified _ x f => x ≠ v ∧ (x = w ∧ v ∈ f.freeVars ∨ f.Captures v w)

/-- No bound variable occurs under a quantifier inside its scope whose variable is its name followed
by a number. -/
def HasPlainScopes : Formula → Prop
  | .atom _ => True
  | .not f => f.HasPlainScopes
  | .and f g | .or f g | .implies f g => f.HasPlainScopes ∧ g.HasPlainScopes
  | .quantified _ v f => (∀ k : ℕ, ¬ f.Captures v (v ++ toString (k + 1))) ∧ f.HasPlainScopes

/-- A variable that captures another one is bound. -/
lemma Captures.mem_boundVars {f : Formula} {v w : String} (h : f.Captures v w) :
    w ∈ f.boundVars := by
  induction f with
  | atom l => exact h.elim
  | not f ih => exact ih h
  | and f g ihf ihg | or f g ihf ihg | implies f g ihf ihg =>
    exact List.mem_append.mpr (h.imp ihf ihg)
  | quantified q x f ih =>
    rcases h.2 with ⟨rfl, -⟩ | h
    · exact List.mem_cons_self
    · exact List.mem_cons_of_mem _ (ih h)

/-- Replacing a variable that is not free changes nothing. -/
lemma replace_of_notMem {f : Formula} {v : String} (h : v ∉ f.freeVars) (r : Term) :
    f.replace v r = f := by
  induction f with
  | atom l =>
    have hself : l.replace v r = l := by
      refine Literal.subst_eq_self fun w hw => if_neg ?_
      rintro rfl
      exact h hw
    rw [replace, hself]
  | not f ih => rw [replace, ih h]
  | and f g ihf ihg | or f g ihf ihg | implies f g ihf ihg =>
    rw [freeVars, List.mem_append, not_or] at h
    rw [replace, ihf h.1, ihg h.2]
  | quantified q x f ih =>
    rw [replace]
    by_cases hx : x = v
    · rw [if_pos hx]
    · rw [if_neg hx, ih fun hmem => h (List.mem_filter.mpr ⟨hmem, decide_eq_true (Ne.symm hx)⟩)]

/-- Replacing a variable by another one, without capture, amounts to giving it the value of the
other. -/
lemma holds_replace_var {M : Structure D} {f : Formula} {v w : String} (h : ¬ f.Captures v w)
    (ε : String → D) : (f.replace v (.var w)).Holds M ε ↔ f.Holds M (update ε v (ε w)) := by
  induction f generalizing ε with
  | atom l => exact Literal.holds_replace M ε l v (.var w)
  | not f ih => exact not_congr (ih h ε)
  | and f g ihf ihg =>
    exact and_congr (ihf (fun hf => h (Or.inl hf)) ε) (ihg (fun hg => h (Or.inr hg)) ε)
  | or f g ihf ihg =>
    exact or_congr (ihf (fun hf => h (Or.inl hf)) ε) (ihg (fun hg => h (Or.inr hg)) ε)
  | implies f g ihf ihg =>
    exact imp_congr (ihf (fun hf => h (Or.inl hf)) ε) (ihg (fun hg => h (Or.inr hg)) ε)
  | quantified q x f ih =>
    refine q.says_congr fun d => ?_
    by_cases hxv : x = v
    · rw [if_pos hxv, hxv, update_update]
    · rw [if_neg hxv]
      by_cases hv : v ∈ f.freeVars
      · -- the quantifier binds another variable than `w`, so the value of `w` is the same below it
        have hxw : w ≠ x := fun hwx => h ⟨hxv, Or.inl ⟨hwx.symm, hv⟩⟩
        rw [ih (fun hf => h ⟨hxv, Or.inr hf⟩), update_of_ne _ _ hxw, update_comm hxv]
      · rw [replace_of_notMem hv, update_comm (Ne.symm hxv), holds_update_of_notMem hv]

/-! ## Renaming keeps scopes plain -/

/-- Replacing a variable by another one keeps where any third variable is free. -/
lemma mem_freeVars_replace_var_iff {f : Formula} {v w x : String} (hxv : x ≠ v) (hxw : x ≠ w) :
    x ∈ (f.replace v (.var w)).freeVars ↔ x ∈ f.freeVars := by
  induction f with
  | atom l =>
    have hterm : ∀ t : Term, x ∈ (t.replace v (.var w)).vars ↔ x ∈ t.vars := by
      intro t
      rw [Term.replace, Term.mem_vars_subst]
      constructor
      · rintro ⟨y, hy, hx⟩
        unfold Term.binding at hx
        split at hx
        · exact absurd (List.mem_singleton.mp hx) hxw
        · rwa [List.mem_singleton.mp hx]
      · intro hx
        exact ⟨x, hx, by rw [Term.binding, if_neg hxv]; exact List.mem_singleton_self x⟩
    simp only [replace, freeVars, Literal.vars, Literal.replace, Literal.subst, List.mem_flatMap,
      List.mem_map, exists_exists_and_eq_and]
    exact exists_congr fun t => and_congr_right fun _ => hterm t
  | not f ih => exact ih
  | and f g ihf ihg | or f g ihf ihg | implies f g ihf ihg =>
    simp only [replace, freeVars, List.mem_append, ihf, ihg]
  | quantified q y f ih =>
    simp only [replace, freeVars, List.mem_filter]
    by_cases hy : y = v
    · rw [if_pos hy]
    · rw [if_neg hy, ih]

/-- Replacing a variable by another one keeps what captures any third variable. -/
lemma captures_replace_var_iff {f : Formula} {v w x y : String} (hxv : x ≠ v) (hxw : x ≠ w) :
    (f.replace v (.var w)).Captures x y ↔ f.Captures x y := by
  induction f with
  | atom l => exact Iff.rfl
  | not f ih => exact ih
  | and f g ihf ihg | or f g ihf ihg | implies f g ihf ihg => exact or_congr ihf ihg
  | quantified q z f ih =>
    rw [replace]
    by_cases hz : z = v
    · rw [if_pos hz]
    · rw [if_neg hz, Captures, Captures, ih, mem_freeVars_replace_var_iff hxv hxw]

/-- Replacing a variable by another one, without capture, keeps scopes plain. -/
lemma HasPlainScopes.replace_var {f : Formula} (h : f.HasPlainScopes) {v w : String}
    (hcapture : ¬ f.Captures v w) : (f.replace v (.var w)).HasPlainScopes := by
  induction f with
  | atom l => trivial
  | not f ih => exact ih h hcapture
  | and f g ihf ihg | or f g ihf ihg | implies f g ihf ihg =>
    exact ⟨ihf h.1 fun hf => hcapture (Or.inl hf), ihg h.2 fun hg => hcapture (Or.inr hg)⟩
  | quantified q x f ih =>
    rw [replace]
    by_cases hxv : x = v
    · rw [if_pos hxv]
      exact h
    · rw [if_neg hxv]
      by_cases hv : v ∈ f.freeVars
      · -- `v` is replaced under the quantifier, so this does not bind `w`
        have hxw : x ≠ w := fun hxw => hcapture ⟨hxv, Or.inl ⟨hxw, hv⟩⟩
        refine ⟨fun k hk => h.1 k ((captures_replace_var_iff hxv hxw).mp hk), ?_⟩
        exact ih h.2 fun hf => hcapture ⟨hxv, Or.inr hf⟩
      · rw [replace_of_notMem hv]
        exact h

/-! ## Negation normal form keeps scopes plain -/

lemma captures_eliminateImplications_iff {f : Formula} {v w : String} :
    f.eliminateImplications.Captures v w ↔ f.Captures v w := by
  induction f with
  | atom l => exact Iff.rfl
  | not f ih => exact ih
  | and f g ihf ihg | or f g ihf ihg | implies f g ihf ihg => exact or_congr ihf ihg
  | quantified q x f ih =>
    rw [eliminateImplications, Captures, Captures, ih, freeVars_eliminateImplications]

lemma captures_negationNormal_iff {f : Formula} {v w : String} (negate : Bool) :
    (f.negationNormal negate).Captures v w ↔ f.Captures v w := by
  induction f generalizing negate with
  | atom l => exact Iff.rfl
  | not f ih => exact ih _
  | and f g ihf ihg | or f g ihf ihg | implies f g ihf ihg =>
    cases negate <;> exact or_congr (ihf _) (ihg _)
  | quantified q x f ih =>
    rw [negationNormal, Captures, Captures, ih, freeVars_negationNormal]

lemma HasPlainScopes.eliminateImplications {f : Formula} (h : f.HasPlainScopes) :
    f.eliminateImplications.HasPlainScopes := by
  induction f with
  | atom l => trivial
  | not f ih => exact ih h
  | and f g ihf ihg | or f g ihf ihg | implies f g ihf ihg => exact ⟨ihf h.1, ihg h.2⟩
  | quantified q x f ih =>
    exact ⟨fun k hk => h.1 k (captures_eliminateImplications_iff.mp hk), ih h.2⟩

lemma HasPlainScopes.negationNormal {f : Formula} (h : f.HasPlainScopes) (negate : Bool) :
    (f.negationNormal negate).HasPlainScopes := by
  induction f generalizing negate with
  | atom l => trivial
  | not f ih => exact ih h _
  | and f g ihf ihg | or f g ihf ihg | implies f g ihf ihg =>
    cases negate <;> exact ⟨ihf h.1 _, ihg h.2 _⟩
  | quantified q x f ih =>
    exact ⟨fun k hk => h.1 k ((captures_negationNormal_iff negate).mp hk), ih h.2 negate⟩

end Formula

end Clausal
