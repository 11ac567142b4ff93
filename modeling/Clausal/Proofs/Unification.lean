import Clausal.Unifier
import Mathlib.Data.List.Basic
import Mathlib.Tactic.Common

/-!
# Unifiers

The bindings that solving equations makes are triangular: the variable of a binding occurs neither
in its own term nor in any binding made later.  The value of a variable under such bindings is found
by replacing the bound variables one after the other, oldest first.  With that reading, the bindings
that solving adds make the two sides of every equation equal, and so a unifier of two lists of terms
makes them equal.
-/

namespace Clausal

/-- To replace variables twice is to replace them once by the terms of the second replacement. -/
lemma Term.subst_subst (σ τ : String → Term) (t : Term) :
    (t.subst σ).subst τ = t.subst fun v => (σ v).subst τ := by
  induction t with
  | var v => rfl
  | const c => rfl
  | app f args ih =>
    rw [subst_app, subst_app, subst_app, List.map_map]
    exact congrArg (Term.app f) (List.map_congr_left ih)

/-- Replacing each variable that occurs by itself changes nothing. -/
lemma Term.subst_eq_self {σ : String → Term} {t : Term} (h : ∀ v ∈ t.vars, σ v = .var v) :
    t.subst σ = t := by
  induction t with
  | var v => exact h v List.mem_cons_self
  | const c => rfl
  | app f args ih =>
    have hargs : args.map (subst σ) = args.map id := by
      refine List.map_congr_left fun t ht => ih t ht fun v hv => h v ?_
      rw [vars_app]
      exact List.mem_flatMap.mpr ⟨t, ht, hv⟩
    rw [subst_app, hargs, List.map_id]

/-- Replacing a variable that does not occur changes nothing. -/
lemma Term.replace_of_notMem {t : Term} {v : String} (r : Term) (h : v ∉ t.vars) :
    t.replace v r = t := by
  refine subst_eq_self fun w hw => if_neg ?_
  rintro rfl
  exact h hw

/-- Replacing each variable of a literal by itself changes nothing. -/
lemma Literal.subst_eq_self {σ : String → Term} {l : Literal} (h : ∀ v ∈ l.vars, σ v = .var v) :
    l.subst σ = l := by
  have hargs : l.args.map (Term.subst σ) = l.args.map id :=
    List.map_congr_left fun t ht => Term.subst_eq_self fun v hv =>
      h v (List.mem_flatMap.mpr ⟨t, ht, hv⟩)
  rw [subst, hargs, List.map_id]

namespace Substitution

/-! ## Triangular bindings -/

/-- The variable of each binding occurs neither in its own term nor in a later binding. -/
def IsTriangular : List (String × Term) → Prop
  | [] => True
  | (v, t) :: rest => v ∉ t.vars ∧ (∀ b ∈ rest, b.1 ≠ v ∧ v ∉ b.2.vars) ∧ IsTriangular rest

/-- The value of a variable when bound variables are replaced one after the other, oldest first. -/
def compose : List (String × Term) → String → Term
  | [], w => .var w
  | (v, t) :: rest, w => (Term.binding v t w).subst (compose rest)

/-- Replacing bound variables one after the other begins with the oldest. -/
lemma subst_compose_cons (v : String) (t : Term) (rest : List (String × Term)) (u : Term) :
    u.subst (compose ((v, t) :: rest)) = (u.replace v t).subst (compose rest) :=
  (Term.subst_subst _ _ u).symm

/-- A binding that nothing refers to has no part in the value of another variable. -/
lemma valueFrom_cons_of_unused {v w : String} {t : Term} {available : List (String × Term)}
    (hunused : ∀ b ∈ available, v ∉ b.2.vars) (hw : w ≠ v) (n : ℕ) :
    valueFrom n ((v, t) :: available) w = valueFrom n available w := by
  induction n generalizing available w with
  | zero => rfl
  | succ n ih =>
    have hlookup : List.lookup w ((v, t) :: available) = available.lookup w := by
      rw [List.lookup_cons, beq_false_of_ne hw]
    rw [valueFrom, valueFrom, hlookup]
    cases hu : available.lookup w with
    | none => rfl
    | some u =>
      have hmem : (w, u) ∈ available := by
        obtain ⟨before, after, rfl, -⟩ := List.lookup_eq_some_iff.mp hu
        exact List.mem_append_right _ List.mem_cons_self
      have hfilter : ((v, t) :: available).filter (·.1 ≠ w) =
          (v, t) :: available.filter (·.1 ≠ w) :=
        List.filter_cons_of_pos (decide_eq_true hw.symm)
      simp only [hfilter]
      refine Term.subst_congr fun x hx => ih (fun b hb => ?_) ?_
      · exact hunused b (List.mem_of_mem_filter hb)
      · rintro rfl
        exact hunused _ hmem hx

/-- Following triangular bindings to their ends replaces the bound variables one after the other. -/
lemma valueFrom_eq_compose {bindings : List (String × Term)} (h : IsTriangular bindings) {n : ℕ}
    (hn : bindings.length ≤ n) (w : String) : valueFrom n bindings w = compose bindings w := by
  induction bindings generalizing n w with
  | nil => cases n <;> rfl
  | cons b rest ih =>
    obtain ⟨v, t⟩ := b
    obtain ⟨-, hlater, hrest⟩ := h
    by_cases hw : w = v
    · subst hw
      obtain ⟨m, rfl⟩ := Nat.exists_eq_add_one_of_ne_zero (Nat.ne_of_gt (Nat.lt_of_lt_of_le
        (Nat.succ_pos _) hn))
      have hfilter : ((w, t) :: rest).filter (·.1 ≠ w) = rest := by
        rw [List.filter_cons_of_neg (by simp), List.filter_eq_self]
        exact fun b hb => decide_eq_true (hlater b hb).1
      rw [valueFrom, List.lookup_cons_self]
      simp only [hfilter]
      rw [compose, Term.binding, if_pos rfl]
      exact Term.subst_congr fun x _ => ih hrest (Nat.le_of_succ_le_succ hn) x
    · rw [valueFrom_cons_of_unused (fun b hb => (hlater b hb).2) hw,
        ih hrest (Nat.le_of_succ_le hn), compose, Term.binding, if_neg hw, Term.subst_var]

/-- A variable stands for what replacing the bound variables one after the other gives. -/
lemma IsTriangular.value_eq_compose {s : Substitution} (h : IsTriangular s.bindings) :
    s.value = compose s.bindings := by
  funext w
  exact valueFrom_eq_compose h (Nat.le_refl _) w

/-- A variable that is not bound yet is bound after all others. -/
lemma bindings_bind_of_notMem {s : Substitution} {v : String} (t : Term)
    (h : ∀ b ∈ s.bindings, b.1 ≠ v) : (s.bind v t).bindings = s.bindings ++ [(v, t)] := by
  have key : ∀ bindings : List (String × Term), (∀ b ∈ bindings, b.1 ≠ v) →
      insertBinding v t bindings = bindings ++ [(v, t)] := by
    intro bindings hne
    induction bindings with
    | nil => rfl
    | cons b rest ih =>
      rw [insertBinding, if_neg (hne b List.mem_cons_self),
        ih fun c hc => hne c (List.mem_cons_of_mem _ hc), List.cons_append]
  exact key s.bindings h

end Substitution

/-! ## Solving -/

namespace Equations

open Substitution

/-- Replacement makes the two sides of every equation equal. -/
def Unifies (σ : String → Term) (eqs : Equations) : Prop :=
  ∀ e ∈ eqs, e.1.subst σ = e.2.subst σ

lemma unifies_cons {σ : String → Term} {a b : Term} {eqs : Equations} :
    Unifies σ ((a, b) :: eqs) ↔ a.subst σ = b.subst σ ∧ Unifies σ eqs :=
  List.forall_mem_cons

/-- Equations between arguments say that the lists of arguments become equal. -/
lemma unifies_zip {σ : String → Term} {ss ts : List Term} (hlength : ss.length = ts.length) :
    Unifies σ (ss.zip ts) ↔ ss.map (Term.subst σ) = ts.map (Term.subst σ) := by
  induction ss generalizing ts with
  | nil =>
    obtain rfl := List.eq_nil_of_length_eq_zero hlength.symm
    exact ⟨fun _ => rfl, fun _ e he => absurd he List.not_mem_nil⟩
  | cons s ss ih =>
    cases ts with
    | nil => cases hlength
    | cons t ts =>
      rw [List.zip_cons_cons, unifies_cons, ih (Nat.succ.inj hlength), List.map_cons, List.map_cons,
        List.cons.injEq]

/-- What solving adds to bindings: the variables bound are taken from the equations, the bindings
are triangular, and they make the two sides of each equation equal. -/
structure SolvedBy (eqs : Equations) (added : List (String × Term)) : Prop where
  vars_subset : ∀ b ∈ added, b.1 ∈ vars eqs ∧ b.2.vars ⊆ vars eqs
  isTriangular : IsTriangular added
  unifies : Unifies (compose added) eqs

/-- Bindings that solve equations solve them still when they stand behind an equation, or in place
of equations, that any replacement making the new ones true makes true. -/
lemma SolvedBy.of_imp {eqs eqs' : Equations} {added : List (String × Term)} (h : SolvedBy eqs added)
    (hvars : vars eqs ⊆ vars eqs') (himp : ∀ σ, Unifies σ eqs → Unifies σ eqs') :
    SolvedBy eqs' added where
  vars_subset b hb :=
    ⟨hvars (h.vars_subset b hb).1, List.Subset.trans (h.vars_subset b hb).2 hvars⟩
  isTriangular := h.isTriangular
  unifies := himp _ h.unifies

/-- Replacing a variable by a term without it removes the variable. -/
lemma notMem_vars_replace {v : String} {t : Term} {rest : Equations} (hv : v ∉ t.vars) :
    v ∉ vars (replace rest v t) := by
  intro hmem
  rcases mem_vars_replace hmem with hmem | hmem
  · exact hmem.2 rfl
  · exact hv hmem

/-- Replacing a variable brings in no variable that the eliminated equation does not have. -/
lemma vars_replace_subset {v : String} {t : Term} {rest : Equations} :
    vars (replace rest v t) ⊆ vars ((.var v, t) :: rest) := by
  intro w hw
  rw [vars, List.flatMap_cons]
  rcases mem_vars_replace hw with hw | hw
  · exact List.mem_append_right _ hw.1
  · exact List.mem_append_left _ (List.mem_append_right _ hw)

/-- Turning an equation around keeps the variables. -/
lemma vars_swap_subset {a b : Term} {rest : Equations} :
    vars ((a, b) :: rest) ⊆ vars ((b, a) :: rest) := by
  intro w hw
  simp only [vars, List.flatMap_cons, List.mem_append] at hw ⊢
  rwa [or_comm (a := w ∈ b.vars)]

/-- Eliminating a variable solves the equation that it is taken from. -/
lemma SolvedBy.eliminate {v : String} {t : Term} {rest : Equations} {added : List (String × Term)}
    (hv : v ∉ t.vars) (h : SolvedBy (replace rest v t) added) :
    SolvedBy ((.var v, t) :: rest) ((v, t) :: added) := by
  refine ⟨?_, ⟨hv, fun b hb => ⟨?_, ?_⟩, h.isTriangular⟩, unifies_cons.mpr ⟨?_, fun e he => ?_⟩⟩
  · intro b hb
    rcases List.mem_cons.mp hb with rfl | hb
    · exact ⟨mem_vars.mpr ⟨_, List.mem_cons_self, Or.inl List.mem_cons_self⟩,
        fun w hw => mem_vars.mpr ⟨_, List.mem_cons_self, Or.inr hw⟩⟩
    · obtain ⟨hvar, hterm⟩ := h.vars_subset b hb
      exact ⟨vars_replace_subset hvar, List.Subset.trans hterm vars_replace_subset⟩
  · rintro rfl
    exact notMem_vars_replace hv (h.vars_subset b hb).1
  · exact fun hmem => notMem_vars_replace hv ((h.vars_subset b hb).2 hmem)
  · rw [subst_compose_cons, subst_compose_cons, Term.replace_of_notMem t hv, Term.replace,
      Term.subst_var, Term.binding, if_pos rfl]
  · rw [subst_compose_cons, subst_compose_cons]
    exact h.unifies _ (List.mem_map_of_mem he)

/-- Solving what is left after a variable is eliminated solves the equations with the eliminated
one. -/
lemma exists_solvedBy_of_eliminate {v : String} {t : Term} {rest : Equations} {s r : Substitution}
    (hv : v ∉ t.vars) (hfresh : ∀ b ∈ s.bindings, b.1 ∉ vars ((.var v, t) :: rest))
    (ih : (∀ b ∈ (s.bind v t).bindings, b.1 ∉ vars (replace rest v t)) →
      ∃ added, r.bindings = (s.bind v t).bindings ++ added ∧ SolvedBy (replace rest v t) added) :
    ∃ added, r.bindings = s.bindings ++ added ∧ SolvedBy ((.var v, t) :: rest) added := by
  have hhead : v ∈ vars ((.var v, t) :: rest) :=
    mem_vars.mpr ⟨_, List.mem_cons_self, Or.inl List.mem_cons_self⟩
  have hbindings : (s.bind v t).bindings = s.bindings ++ [(v, t)] :=
    bindings_bind_of_notMem t fun b hb hbv => hfresh b hb (hbv ▸ hhead)
  rw [hbindings] at ih
  obtain ⟨added, hr, hsolved⟩ := ih fun b hb => by
    rcases List.mem_append.mp hb with hb | hb
    · exact fun hmem => hfresh b hb (vars_replace_subset hmem)
    · obtain rfl := List.mem_singleton.mp hb
      exact notMem_vars_replace hv
  refine ⟨(v, t) :: added, ?_, hsolved.eliminate hv⟩
  rw [hr, List.append_assoc, List.singleton_append]

/-- Solving adds bindings that solve the equations. -/
lemma exists_solvedBy_of_solve {eqs : Equations} {s r : Substitution}
    (hfresh : ∀ b ∈ s.bindings, b.1 ∉ vars eqs) (h : solve eqs s = .ok r) :
    ∃ added, r.bindings = s.bindings ++ added ∧ SolvedBy eqs added := by
  -- the cases are the moves of the solver; a move that fails leaves nothing to prove
  fun_induction solve eqs s with
  | case1 s =>
    cases h
    exact ⟨[], (List.append_nil _).symm, fun b hb => absurd hb List.not_mem_nil, trivial,
      fun e he => absurd he List.not_mem_nil⟩
  | case2 b rest s ih =>
    have hsubset : vars rest ⊆ vars ((b, b) :: rest) := List.subset_append_right _ _
    obtain ⟨added, hr, hsolved⟩ := ih (fun b hb hmem => hfresh b hb (hsubset hmem)) h
    exact ⟨added, hr, hsolved.of_imp hsubset fun σ hσ => unifies_cons.mpr ⟨rfl, hσ⟩⟩
  | case4 rest s v t hv _ ih =>
    exact exists_solvedBy_of_eliminate hv hfresh fun hfresh' => ih hfresh' h
  | case6 rest s t v _ hv _ ih =>
    have hfresh' : ∀ b ∈ s.bindings, b.1 ∉ vars ((.var v, t) :: rest) :=
      fun b hb hmem => hfresh b hb (vars_swap_subset hmem)
    obtain ⟨added, hr, hsolved⟩ :=
      exists_solvedBy_of_eliminate hv hfresh' fun hfresh'' => ih hfresh'' h
    refine ⟨added, hr, hsolved.of_imp vars_swap_subset fun σ hσ => ?_⟩
    exact unifies_cons.mpr ⟨(unifies_cons.mp hσ).1.symm, (unifies_cons.mp hσ).2⟩
  | case10 rest s f ss g ts hfg hlength _ ih =>
    obtain rfl := Decidable.not_not.mp hfg
    have hsubset : vars (ss.zip ts ++ rest) ⊆ vars ((.app f ss, .app f ts) :: rest) := by
      rw [vars, vars, List.flatMap_append, List.flatMap_cons, Term.vars_app, Term.vars_app]
      have hzip := List.Subset.trans (vars_zip_subset ss ts) (List.subset_append_left _ (vars rest))
      exact List.append_subset.mpr ⟨hzip, List.subset_append_right _ _⟩
    obtain ⟨added, hr, hsolved⟩ := ih (fun b hb hmem => hfresh b hb (hsubset hmem)) h
    refine ⟨added, hr, hsolved.of_imp hsubset fun σ hσ => ?_⟩
    rw [Unifies, List.forall_mem_append] at hσ
    refine unifies_cons.mpr ⟨?_, hσ.2⟩
    rw [Term.subst_app, Term.subst_app, (unifies_zip (Decidable.not_not.mp hlength)).mp hσ.1]
  | case3 | case5 | case7 | case8 | case9 | case11 | case12 => cases h

/-- Solving equations between equal terms makes no binding. -/
lemma solve_of_forall_eq {eqs : Equations} (h : ∀ e ∈ eqs, e.1 = e.2) (s : Substitution) :
    solve eqs s = .ok s := by
  induction eqs with
  | nil => rw [solve]
  | cons e rest ih =>
    obtain ⟨a, b⟩ := e
    obtain rfl : a = b := h (a, b) List.mem_cons_self
    unfold solve
    rw [if_pos rfl]
    exact ih fun e he => h e (List.mem_cons_of_mem _ he)

end Equations

/-- The bindings of a unifier of two lists of terms solve the equations between the terms. -/
lemma solvedBy_of_unify {left right : List Term} {s : Substitution} (h : unify left right = .ok s) :
    left.length = right.length ∧ Equations.SolvedBy (left.zip right) s.bindings := by
  unfold unify at h
  split at h
  · cases h
  · rename_i hlength
    obtain ⟨added, hadded, hsolved⟩ := Equations.exists_solvedBy_of_solve
      (fun b hb => absurd hb List.not_mem_nil) h
    have hbindings : s.bindings = added := hadded
    rw [hbindings]
    exact ⟨Decidable.not_not.mp hlength, hsolved⟩

/-- A unifier of two lists of terms makes them equal. -/
lemma map_subst_value_of_unify {left right : List Term} {s : Substitution}
    (h : unify left right = .ok s) :
    left.map (Term.subst s.value) = right.map (Term.subst s.value) := by
  obtain ⟨hlength, hsolved⟩ := solvedBy_of_unify h
  rw [hsolved.isTriangular.value_eq_compose]
  exact (Equations.unifies_zip hlength).mp hsolved.unifies

end Clausal
