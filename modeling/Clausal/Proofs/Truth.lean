import Mathlib.Data.List.Basic
import Mathlib.Tactic.Common
import Clausal.Semantics

/-!
# What the truth of a formula depends on

The truth of a formula in a structure under an assignment depends only on the values of its free
variables and on the interpretation of the symbols that occur in it.  Replacing a variable by a term
amounts to assigning the value of the term to it, as long as no quantifier of the formula binds a
variable of the term.

`boundVars` lists the names that the quantifiers of a formula bind.
-/

namespace Clausal

universe u

variable {D : Type u}

/-! ## Assignments -/

/-- Of two updates of one variable the later one counts. -/
@[simp] lemma update_update (ε : String → D) (v : String) (c d : D) :
    update (update ε v c) v d = update ε v d := by
  funext w
  by_cases hw : w = v
  · rw [hw, update_self, update_self]
  · rw [update_of_ne _ _ hw, update_of_ne _ _ hw, update_of_ne _ _ hw]

/-- Giving a variable the value that it has changes nothing. -/
@[simp] lemma update_eq_self (ε : String → D) (v : String) : update ε v (ε v) = ε := by
  funext w
  by_cases hw : w = v
  · rw [hw, update_self]
  · rw [update_of_ne _ _ hw]

/-- Updates of different variables can be exchanged. -/
lemma update_comm {v w : String} (h : v ≠ w) (ε : String → D) (c d : D) :
    update (update ε v c) w d = update (update ε w d) v c := by
  funext x
  by_cases hx : x = v
  · rw [hx, update_of_ne _ _ h, update_self, update_self]
  · rw [update_of_ne _ _ hx]
    by_cases hw : x = w
    · rw [hw, update_self, update_self]
    · rw [update_of_ne _ _ hw, update_of_ne _ _ hw, update_of_ne _ _ hx]

/-- An injective renaming of the variables carries updates over. -/
lemma update_comp_of_injective {ρ : String → String} (hρ : Function.Injective ρ) (ε : String → D)
    (v : String) (d : D) : update ε (ρ v) d ∘ ρ = update (ε ∘ ρ) v d := by
  funext w
  by_cases hw : w = v
  · rw [hw, Function.comp_apply, update_self, update_self]
  · have hρw : ρ w ≠ ρ v := fun h => hw (hρ h)
    rw [Function.comp_apply, update_of_ne _ _ hρw, update_of_ne _ _ hw, Function.comp_apply]

/-- The value of a term does not change with a variable that is not in it. -/
lemma Term.eval_update_of_notMem {M : Structure D} {ε : String → D} {v : String} {t : Term}
    (h : v ∉ t.vars) (d : D) : t.eval M (update ε v d) = t.eval M ε := by
  refine eval_congr (fun w hw => update_of_ne _ _ ?_)
  rintro rfl
  exact h hw

/-- Evaluating the terms that a single binding puts in gives an update. -/
lemma eval_binding (M : Structure D) (ε : String → D) (v : String) (r : Term) :
    (fun w => (Term.binding v r w).eval M ε) = update ε v (r.eval M ε) := by
  funext w
  unfold Term.binding update
  split <;> rfl

namespace Quantifier

/-- A quantifier says the same of properties that hold of the same elements. -/
lemma says_congr (q : Quantifier) {p r : D → Prop} (h : ∀ d, p d ↔ r d) : q.Says p ↔ q.Says r := by
  cases q with
  | universal => exact forall_congr' h
  | existential => exact exists_congr h

/-- The dual quantifier says of the negation what the quantifier does not say. -/
lemma says_dual_not (q : Quantifier) (p : D → Prop) :
    q.dual.Says (fun d => ¬ p d) ↔ ¬ q.Says p := by
  cases q with
  | universal => exact not_forall.symm
  | existential => exact not_exists.symm

end Quantifier

/-! ## Agreement of structures -/

/-- Two structures give the listed names the same meaning as constants and as functions, and all
predicates the same meaning. -/
structure Structure.AgreesOn (names : List String) (M N : Structure D) : Prop where
  const : ∀ c ∈ names, M.const c = N.const c
  fn : ∀ f ∈ names, M.fn f = N.fn f
  pred : M.pred = N.pred

namespace Structure.AgreesOn

variable {names more : List String} {M N K : Structure D}

/-- Every structure agrees with itself. -/
lemma refl (names : List String) (M : Structure D) : M.AgreesOn names M :=
  ⟨fun _ _ => rfl, fun _ _ => rfl, rfl⟩

/-- Agreement passes from the first structure over the second to the third. -/
lemma trans (h : M.AgreesOn names N) (h' : N.AgreesOn names K) : M.AgreesOn names K :=
  ⟨fun c hc => (h.const c hc).trans (h'.const c hc), fun f hf => (h.fn f hf).trans (h'.fn f hf),
    h.pred.trans h'.pred⟩

/-- Structures that agree on names agree on any of them. -/
lemma mono (hsub : more ⊆ names) (h : M.AgreesOn names N) : M.AgreesOn more N :=
  ⟨fun c hc => h.const c (hsub hc), fun f hf => h.fn f (hsub hf), h.pred⟩

/-- A term whose symbols are agreed on has the same value in both structures. -/
lemma eval_eq (h : M.AgreesOn names N) {t : Term} (ht : t.symbols ⊆ names) (ε : String → D) :
    t.eval M ε = t.eval N ε := by
  induction t with
  | var v => rfl
  | const c => exact h.const c (ht (by simp))
  | app f args ih =>
    rw [Term.symbols_app] at ht
    have hargs : args.map (Term.eval M ε) = args.map (Term.eval N ε) := by
      refine List.map_congr_left (fun t hmem => ih t hmem (fun s hs => ht ?_))
      exact List.mem_cons_of_mem _ (List.mem_flatMap.mpr ⟨t, hmem, hs⟩)
    rw [Term.eval_app, Term.eval_app, hargs, h.fn f (ht List.mem_cons_self)]

/-- A literal whose symbols are agreed on is true in both structures or in none. -/
lemma literal_holds_iff (h : M.AgreesOn names N) {l : Literal} (hl : l.symbols ⊆ names)
    (ε : String → D) : l.Holds M ε ↔ l.Holds N ε := by
  have hargs : l.args.map (Term.eval M ε) = l.args.map (Term.eval N ε) := by
    refine List.map_congr_left (fun t ht => h.eval_eq (fun s hs => hl ?_) ε)
    exact List.mem_flatMap.mpr ⟨t, ht, hs⟩
  unfold Literal.Holds
  rw [hargs, h.pred]

/-- A formula whose symbols are agreed on is true in both structures or in none. -/
lemma holds_iff (h : M.AgreesOn names N) {f : Formula} (hf : f.symbols ⊆ names)
    (ε : String → D) : f.Holds M ε ↔ f.Holds N ε := by
  induction f generalizing ε with
  | atom l => exact h.literal_holds_iff hf ε
  | not f ih => exact not_congr (ih hf ε)
  | and f g ihf ihg =>
    exact and_congr (ihf (List.append_subset.mp hf).1 ε)
      (ihg (List.append_subset.mp hf).2 ε)
  | or f g ihf ihg =>
    exact or_congr (ihf (List.append_subset.mp hf).1 ε)
      (ihg (List.append_subset.mp hf).2 ε)
  | implies f g ihf ihg =>
    exact imp_congr (ihf (List.append_subset.mp hf).1 ε)
      (ihg (List.append_subset.mp hf).2 ε)
  | quantified q v f ih => exact q.says_congr (fun d => ih hf (update ε v d))

end Structure.AgreesOn

/-! ## Free and bound variables -/

/-- The truth of a literal depends only on its variables. -/
lemma Literal.holds_congr {M : Structure D} {ε δ : String → D} {l : Literal}
    (h : ∀ v ∈ l.vars, ε v = δ v) : l.Holds M ε ↔ l.Holds M δ := by
  have hargs : l.args.map (Term.eval M ε) = l.args.map (Term.eval M δ) := by
    refine List.map_congr_left (fun t ht => Term.eval_congr (fun v hv => h v ?_))
    exact List.mem_flatMap.mpr ⟨t, ht, hv⟩
  unfold Literal.Holds
  rw [hargs]

/-- Replacing a variable of a literal by a term gives it the value of the term. -/
lemma Literal.holds_replace (M : Structure D) (ε : String → D) (l : Literal) (v : String)
    (r : Term) : (l.replace v r).Holds M ε ↔ l.Holds M (update ε v (r.eval M ε)) := by
  rw [Literal.replace, holds_subst, eval_binding]

namespace Formula

/-- The names that the quantifiers of a formula bind, from left to right. -/
def boundVars : Formula → List String
  | .atom _ => []
  | .not f => f.boundVars
  | .and f g | .or f g | .implies f g => f.boundVars ++ g.boundVars
  | .quantified _ v f => v :: f.boundVars

/-- The truth of a formula depends only on its free variables. -/
lemma holds_congr {M : Structure D} {ε δ : String → D} {f : Formula}
    (h : ∀ v ∈ f.freeVars, ε v = δ v) : f.Holds M ε ↔ f.Holds M δ := by
  induction f generalizing ε δ with
  | atom l => exact Literal.holds_congr h
  | not f ih => exact not_congr (ih h)
  | and f g ihf ihg =>
    exact and_congr (ihf fun v hv => h v (List.mem_append_left _ hv))
      (ihg fun v hv => h v (List.mem_append_right _ hv))
  | or f g ihf ihg =>
    exact or_congr (ihf fun v hv => h v (List.mem_append_left _ hv))
      (ihg fun v hv => h v (List.mem_append_right _ hv))
  | implies f g ihf ihg =>
    exact imp_congr (ihf fun v hv => h v (List.mem_append_left _ hv))
      (ihg fun v hv => h v (List.mem_append_right _ hv))
  | quantified q v f ih =>
    refine q.says_congr (fun d => ih (fun w hw => ?_))
    by_cases hwv : w = v
    · rw [hwv, update_self, update_self]
    · rw [update_of_ne _ _ hwv, update_of_ne _ _ hwv]
      exact h w (List.mem_filter.mpr ⟨hw, decide_eq_true hwv⟩)

/-- The truth of a formula does not change with a variable that is not free in it. -/
lemma holds_update_of_notMem {M : Structure D} {f : Formula} {v : String} (h : v ∉ f.freeVars)
    (ε : String → D) (d : D) : f.Holds M (update ε v d) ↔ f.Holds M ε := by
  refine holds_congr (fun w hw => update_of_ne _ _ ?_)
  rintro rfl
  exact h hw

/-- Whether a formula is closed can be decided. -/
instance (f : Formula) : Decidable f.IsClosed :=
  inferInstanceAs (Decidable (f.freeVars = []))

/-- A closed formula is true under all assignments or under none. -/
lemma IsClosed.holds_iff {M : Structure D} {f : Formula} (h : f.IsClosed) (ε δ : String → D) :
    f.Holds M ε ↔ f.Holds M δ := by
  refine holds_congr (fun v hv => ?_)
  rw [h] at hv
  exact absurd hv List.not_mem_nil

/-! ## Replacement -/

/-- Replacing a variable by a term amounts to giving it the value of the term, if no variable of the
term is bound in the formula. -/
lemma holds_replace {M : Structure D} {f : Formula} {v : String} {r : Term}
    (h : ∀ w ∈ f.boundVars, w ∉ r.vars) (ε : String → D) :
    (f.replace v r).Holds M ε ↔ f.Holds M (update ε v (r.eval M ε)) := by
  induction f generalizing ε with
  | atom l => exact Literal.holds_replace M ε l v r
  | not f ih => exact not_congr (ih h ε)
  | and f g ihf ihg =>
    exact and_congr (ihf (fun w hw => h w (List.mem_append_left _ hw)) ε)
      (ihg (fun w hw => h w (List.mem_append_right _ hw)) ε)
  | or f g ihf ihg =>
    exact or_congr (ihf (fun w hw => h w (List.mem_append_left _ hw)) ε)
      (ihg (fun w hw => h w (List.mem_append_right _ hw)) ε)
  | implies f g ihf ihg =>
    exact imp_congr (ihf (fun w hw => h w (List.mem_append_left _ hw)) ε)
      (ihg (fun w hw => h w (List.mem_append_right _ hw)) ε)
  | quantified q w f ih =>
    refine q.says_congr (fun d => ?_)
    by_cases hwv : w = v
    · rw [if_pos hwv, hwv, update_update]
    · have hw : w ∉ r.vars := h w List.mem_cons_self
      have hbody := ih (fun x hx => h x (List.mem_cons_of_mem _ hx)) (update ε w d)
      rw [if_neg hwv, hbody, Term.eval_update_of_notMem hw, update_comm hwv]

/-- Replacing a variable keeps the bound names. -/
@[simp] lemma boundVars_replace (f : Formula) (v : String) (r : Term) :
    (f.replace v r).boundVars = f.boundVars := by
  induction f with
  | atom l => rfl
  | not f ih => exact ih
  | and f g ihf ihg => rw [replace, boundVars, boundVars, ihf, ihg]
  | or f g ihf ihg => rw [replace, boundVars, boundVars, ihf, ihg]
  | implies f g ihf ihg => rw [replace, boundVars, boundVars, ihf, ihg]
  | quantified q w f ih =>
    rw [replace, boundVars, boundVars]
    by_cases hwv : w = v
    · rw [if_pos hwv]
    · rw [if_neg hwv, ih]

end Formula

/-- The variables of a term after a replacement are old ones or come from the new term. -/
lemma Term.mem_vars_replace {t r : Term} {v w : String} (h : w ∈ (t.replace v r).vars) :
    (w ∈ t.vars ∧ w ≠ v) ∨ w ∈ r.vars := by
  obtain ⟨x, hx, hw⟩ := Term.mem_vars_subst.mp h
  unfold Term.binding at hw
  by_cases hxv : x = v
  · rw [if_pos hxv] at hw
    exact Or.inr hw
  · rw [if_neg hxv, Term.vars_var, List.mem_singleton] at hw
    rw [hw]
    exact Or.inl ⟨hx, hxv⟩

/-- The symbols of a term after a replacement are old ones or come from the new term. -/
lemma Term.mem_symbols_replace {t r : Term} {v s : String} (h : s ∈ (t.replace v r).symbols) :
    s ∈ t.symbols ∨ s ∈ r.symbols := by
  induction t with
  | var w =>
    rw [Term.replace, Term.subst_var, Term.binding] at h
    by_cases hwv : w = v
    · rw [if_pos hwv] at h
      exact Or.inr h
    · rw [if_neg hwv] at h
      exact Or.inl h
  | const c => exact Or.inl h
  | app f args ih =>
    rw [Term.replace, Term.subst_app, Term.symbols_app, List.mem_cons] at h
    rw [Term.symbols_app, List.mem_cons]
    rcases h with rfl | h
    · exact Or.inl (Or.inl rfl)
    · obtain ⟨t', ht', hs⟩ := List.mem_flatMap.mp h
      obtain ⟨t, ht, rfl⟩ := List.mem_map.mp ht'
      rcases ih t ht hs with hs | hs
      · exact Or.inl (Or.inr (List.mem_flatMap.mpr ⟨t, ht, hs⟩))
      · exact Or.inr hs

namespace Formula

/-- The free variables after a replacement are old ones or come from the new term. -/
lemma mem_freeVars_replace {f : Formula} {v w : String} {r : Term}
    (h : w ∈ (f.replace v r).freeVars) : (w ∈ f.freeVars ∧ w ≠ v) ∨ w ∈ r.vars := by
  induction f with
  | atom l =>
    obtain ⟨t', ht', hw⟩ := List.mem_flatMap.mp h
    obtain ⟨t, ht, rfl⟩ := List.mem_map.mp ht'
    rcases Term.mem_vars_replace hw with hw | hw
    · exact Or.inl ⟨List.mem_flatMap.mpr ⟨t, ht, hw.1⟩, hw.2⟩
    · exact Or.inr hw
  | not f ih => exact ih h
  | and f g ihf ihg | or f g ihf ihg | implies f g ihf ihg =>
    simp only [replace, freeVars, List.mem_append] at h ⊢
    rcases h with h | h
    · exact (ihf h).imp_left fun h => ⟨Or.inl h.1, h.2⟩
    · exact (ihg h).imp_left fun h => ⟨Or.inr h.1, h.2⟩
  | quantified q x f ih =>
    simp only [replace, freeVars, List.mem_filter, decide_eq_true_eq] at h ⊢
    by_cases hxv : x = v
    · rw [if_pos hxv] at h
      exact Or.inl ⟨h, hxv ▸ h.2⟩
    · rw [if_neg hxv] at h
      exact (ih h.1).imp_left fun hw => ⟨⟨hw.1, h.2⟩, hw.2⟩

/-- The symbols after a replacement are old ones or come from the new term. -/
lemma mem_symbols_replace {f : Formula} {v s : String} {r : Term}
    (h : s ∈ (f.replace v r).symbols) : s ∈ f.symbols ∨ s ∈ r.symbols := by
  induction f with
  | atom l =>
    obtain ⟨t', ht', hs⟩ := List.mem_flatMap.mp h
    obtain ⟨t, ht, rfl⟩ := List.mem_map.mp ht'
    exact (Term.mem_symbols_replace hs).imp_left fun hs => List.mem_flatMap.mpr ⟨t, ht, hs⟩
  | not f ih => exact ih h
  | and f g ihf ihg | or f g ihf ihg | implies f g ihf ihg =>
    simp only [replace, symbols, List.mem_append] at h ⊢
    rcases h with h | h
    · exact (ihf h).imp_left Or.inl
    · exact (ihg h).imp_left Or.inr
  | quantified q x f ih =>
    simp only [replace, symbols] at h ⊢
    by_cases hxv : x = v
    · rw [if_pos hxv] at h
      exact Or.inl h
    · rw [if_neg hxv] at h
      exact ih h

end Formula

/-! ## Clauses and their literals -/

/-- Dropping repeated literals keeps the literals that there are. -/
lemma Clause.mem_literals_ofLiterals {ls : List Literal} {provenance : Provenance} {l : Literal} :
    l ∈ (Clause.ofLiterals ls provenance).literals ↔ l ∈ ls :=
  List.mem_eraseDups

/-- The truth of clauses depends only on their literals. -/
lemma Clause.forall_valid_iff_of_literals {cs ds : List Clause}
    (h : cs.map Clause.literals = ds.map Clause.literals) (M : Structure D) :
    (∀ c ∈ cs, c.Valid M) ↔ ∀ d ∈ ds, d.Valid M := by
  have key : ∀ es : List Clause, (∀ e ∈ es, e.Valid M) ↔
      ∀ ls ∈ es.map Clause.literals, ∀ ε : String → D, ∃ l ∈ ls, l.Holds M ε := by
    intro es
    rw [List.forall_mem_map]
    exact Iff.rfl
  rw [key cs, key ds, h]

end Clausal
