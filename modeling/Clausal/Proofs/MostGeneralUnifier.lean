import Clausal.Proofs.TriangularUnification
import Mathlib.Data.List.Permutation
import Mathlib.Logic.Relation

/-!
# Unifiers are most general

Whenever some replacement makes two lists of terms equal, unification succeeds, and the replacement
is absorbed by the unifier that it finds: to apply the unifier first and the replacement then is to
apply the replacement alone.

A replacement that makes equations true respects each binding that solving them makes, as the
variable and the term of a binding are the two sides of an equation.  The occurs check never fails
on such equations, because a term is larger than any variable in it, whatever is put in for the
variables.

The bindings of a unifier refer to each other, but never in a circle: a variable occurs in no
binding that is made after its own.  A unifier makes the two lists equal, so it absorbs itself, and
to apply it twice is to apply it once.
-/

namespace Clausal

/-! ## The occurs check -/

/-- A summand is at most the sum. -/
lemma le_total_of_mem {n : ℕ} {ns : List ℕ} (h : n ∈ ns) : n ≤ total ns := by
  induction ns with
  | nil => cases h
  | cons m ns ih =>
    rw [total_cons]
    rcases List.mem_cons.mp h with rfl | h
    · exact Nat.le_add_right _ _
    · exact Nat.le_trans (ih h) (Nat.le_add_left _ _)

namespace Term

/-- An argument stays smaller than the application, whatever is put in for variables. -/
lemma size_subst_lt_of_mem {a : Term} {args : List Term} (h : a ∈ args) (f : String)
    (τ : String → Term) : (a.subst τ).size < ((app f args).subst τ).size := by
  have hmem : (a.subst τ).size ∈ (args.map (subst τ)).map size :=
    List.mem_map_of_mem (List.mem_map_of_mem h)
  rw [subst_app, size_app]
  exact Nat.lt_succ_of_le (le_total_of_mem hmem)

/-- What is put in for a variable of a term is at most as large as the whole. -/
lemma size_le_size_subst {t : Term} {v : String} (h : v ∈ t.vars) (τ : String → Term) :
    (τ v).size ≤ (t.subst τ).size := by
  induction t with
  | var w =>
    rw [List.mem_singleton.mp h]
    exact Nat.le_refl _
  | const c => cases h
  | app f args ih =>
    rw [vars_app] at h
    obtain ⟨a, ha, hv⟩ := List.mem_flatMap.mp h
    exact Nat.le_trans (ih a ha hv) (Nat.le_of_lt (size_subst_lt_of_mem ha f τ))

/-- No replacement makes a variable equal to another term in which it occurs. -/
lemma subst_ne_of_mem_vars {t : Term} {v : String} (h : v ∈ t.vars) (hne : t ≠ .var v)
    (τ : String → Term) : τ v ≠ t.subst τ := by
  intro heq
  cases t with
  | var w => exact hne (by rw [List.mem_singleton.mp h])
  | const c => cases h
  | app f args =>
    rw [vars_app] at h
    obtain ⟨a, ha, hv⟩ := List.mem_flatMap.mp h
    have hlt := Nat.lt_of_le_of_lt (size_le_size_subst hv τ) (size_subst_lt_of_mem ha f τ)
    rw [← heq] at hlt
    exact Nat.lt_irrefl _ hlt

/-- Replacing a variable by a term first makes no difference to a replacement that makes the two
equal. -/
lemma subst_replace {τ : String → Term} {v : String} {t : Term} (h : τ v = t.subst τ) (u : Term) :
    (u.replace v t).subst τ = u.subst τ := by
  rw [replace, subst_subst]
  refine subst_congr fun w _ => ?_
  rw [binding]
  split
  · rename_i hw
    rw [hw, h]
  · rfl

end Term

/-! ## Bindings that a replacement respects -/

/-- What is looked up in a list of pairs is in the list. -/
lemma mem_of_lookup_eq_some {α : Type} {l : List (String × α)} {v : String} {a : α}
    (h : l.lookup v = some a) : (v, a) ∈ l := by
  obtain ⟨before, after, rfl, -⟩ := List.lookup_eq_some_iff.mp h
  exact List.mem_append_right _ List.mem_cons_self

namespace Substitution

/-- A replacement makes the two sides of every binding equal. -/
def Respects (τ : String → Term) (bindings : List (String × Term)) : Prop :=
  ∀ b ∈ bindings, τ b.1 = b.2.subst τ

/-- A binding in a list into which one is put is this one or was there. -/
lemma eq_or_mem_of_mem_insertBinding {v : String} {t : Term} {bindings : List (String × Term)}
    {b : String × Term} (h : b ∈ insertBinding v t bindings) : b = (v, t) ∨ b ∈ bindings := by
  induction bindings with
  | nil => exact Or.inl (List.mem_singleton.mp h)
  | cons c rest ih =>
    obtain ⟨w, u⟩ := c
    rw [insertBinding] at h
    split at h
    · rcases List.mem_cons.mp h with h | h
      · exact Or.inl h
      · exact Or.inr (List.mem_cons_of_mem _ h)
    · rcases List.mem_cons.mp h with h | h
      · exact Or.inr (h ▸ List.mem_cons_self)
      · exact (ih h).imp_right (List.mem_cons_of_mem _)

/-- A replacement that makes a variable and a term equal respects their binding. -/
lemma Respects.bind {τ : String → Term} {s : Substitution} (hs : Respects τ s.bindings) {v : String}
    {t : Term} (h : τ v = t.subst τ) : Respects τ (s.bind v t).bindings := by
  intro b hb
  rcases eq_or_mem_of_mem_insertBinding hb with rfl | hb
  · exact h
  · exact hs b hb

/-- A replacement that respects bindings gives a variable what it gives the term that the variable
stands for. -/
lemma Respects.subst_valueFrom {τ : String → Term} {available : List (String × Term)}
    (h : Respects τ available) (n : ℕ) (w : String) : (valueFrom n available w).subst τ = τ w := by
  induction n generalizing available w with
  | zero => rfl
  | succ n ih =>
    rw [valueFrom]
    cases ht : available.lookup w with
    | none => rfl
    | some t =>
      have hrest : Respects τ (available.filter (·.1 ≠ w)) :=
        fun b hb => h b (List.mem_of_mem_filter hb)
      calc (t.subst (valueFrom n (available.filter (·.1 ≠ w)))).subst τ
          = t.subst fun x => (valueFrom n (available.filter (·.1 ≠ w)) x).subst τ :=
            Term.subst_subst _ _ t
        _ = t.subst τ := Term.subst_congr fun x _ => ih hrest x
        _ = τ w := (h _ (mem_of_lookup_eq_some ht)).symm

end Substitution

/-! ## Solving equations that have a solution -/

namespace Equations

open Substitution

/-- A replacement that makes a variable and a term equal makes equations true exactly if it makes
them true with the variable replaced. -/
lemma Unifies.replace {τ : String → Term} {eqs : Equations} (h : Unifies τ eqs) {v : String}
    {t : Term} (hv : τ v = t.subst τ) : Unifies τ (replace eqs v t) := by
  intro e' he'
  obtain ⟨e, he, rfl⟩ := List.mem_map.mp he'
  rw [Term.subst_replace hv, Term.subst_replace hv]
  exact h e he

/-- Solving succeeds on equations that a replacement makes true, and the replacement respects the
bindings made. -/
lemma exists_solve_eq_ok {τ : String → Term} {eqs : Equations} {s : Substitution}
    (h : Unifies τ eqs) (hs : Respects τ s.bindings) :
    ∃ r, solve eqs s = .ok r ∧ Respects τ r.bindings := by
  -- the cases are the moves of the solver; those that fail cannot be made on these equations
  fun_induction solve eqs s with
  | case1 s => exact ⟨s, rfl, hs⟩
  | case2 b rest s ih => exact ih (unifies_cons.mp h).2 hs
  | case3 rest s v t hv hne =>
    exact absurd (unifies_cons.mp h).1 (Term.subst_ne_of_mem_vars hv (Ne.symm hne) τ)
  | case4 rest s v t hv hne ih =>
    obtain ⟨hhead, hrest⟩ := unifies_cons.mp h
    exact ih (hrest.replace hhead) (hs.bind hhead)
  | case5 rest s t v _ hv hne =>
    exact absurd (unifies_cons.mp h).1.symm (Term.subst_ne_of_mem_vars hv hne τ)
  | case6 rest s t v _ hv _ ih =>
    obtain ⟨hhead, hrest⟩ := unifies_cons.mp h
    exact ih (hrest.replace hhead.symm) (hs.bind hhead.symm)
  | case7 rest s c d hne => exact absurd (unifies_cons.mp h).1 hne
  | case8 rest s f ss g ts hfg _ =>
    have hhead := (unifies_cons.mp h).1
    rw [Term.subst_app, Term.subst_app] at hhead
    exact absurd (Term.app.inj hhead).1 hfg
  | case9 rest s f ss g ts _ hlength _ =>
    have hhead := (unifies_cons.mp h).1
    rw [Term.subst_app, Term.subst_app] at hhead
    have hmap := congrArg List.length (Term.app.inj hhead).2
    rw [List.length_map, List.length_map] at hmap
    exact absurd hmap hlength
  | case10 rest s f ss g ts _ hlength _ ih =>
    obtain ⟨hhead, hrest⟩ := unifies_cons.mp h
    rw [Term.subst_app, Term.subst_app] at hhead
    have hargs := (unifies_zip (Decidable.not_not.mp hlength)).mpr (Term.app.inj hhead).2
    exact ih (List.forall_mem_append.mpr ⟨hargs, hrest⟩) hs
  | case11 rest s f ss c _ =>
    have hhead := (unifies_cons.mp h).1
    rw [Term.subst_app] at hhead
    cases hhead
  | case12 rest s c f ts _ =>
    have hhead := (unifies_cons.mp h).1
    rw [Term.subst_app] at hhead
    cases hhead

end Equations

/-- Unification succeeds on lists of terms that a replacement makes equal, and the unifier absorbs
the replacement. -/
lemma exists_unify_eq_ok {τ : String → Term} {left right : List Term}
    (h : left.map (Term.subst τ) = right.map (Term.subst τ)) :
    ∃ u, unify left right = .ok u ∧ ∀ v, (u.value v).subst τ = τ v := by
  have hlength : left.length = right.length := by
    have hmap := congrArg List.length h
    rwa [List.length_map, List.length_map] at hmap
  have hempty : Substitution.Respects τ Substitution.empty.bindings :=
    fun b hb => absurd hb List.not_mem_nil
  obtain ⟨u, hsolve, hrespects⟩ :=
    Equations.exists_solve_eq_ok ((Equations.unifies_zip hlength).mpr h) hempty
  refine ⟨u, ?_, hrespects.subst_valueFrom u.size⟩
  rw [unify, if_neg (Decidable.not_not.mpr hlength)]
  exact hsolve

/-! ## Bindings without circles -/

namespace Substitution

/-- A variable refers to the variables of the term bound to it. -/
def RefersTo (s : Substitution) (v w : String) : Prop :=
  ∃ t, s.get? v = some t ∧ w ∈ t.vars

/-- No variable refers to itself, be it directly or through others. -/
def IsAcyclic (s : Substitution) : Prop :=
  ∀ v, ¬ Relation.TransGen s.RefersTo v v

/-- References that lead to ever higher ranks make no circle. -/
lemma isAcyclic_of_rank_lt {s : Substitution} (rank : String → ℕ)
    (h : ∀ v w, s.RefersTo v w → rank v < rank w) : s.IsAcyclic := by
  have hgrows : ∀ v w, Relation.TransGen s.RefersTo v w → rank v < rank w := by
    intro v w hpath
    induction hpath with
    | single hrefers => exact h _ _ hrefers
    | tail _ hrefers ih => exact Nat.lt_trans ih (h _ _ hrefers)
  intro v hcircle
  exact Nat.lt_irrefl _ (hgrows v v hcircle)

/-- The place of a variable among those that are bound, and behind all of them if it is not
bound. -/
def rank (bindings : List (String × Term)) (v : String) : ℕ :=
  (bindings.map Prod.fst).idxOf v

variable {v w : String} {t : Term}

lemma rank_cons_self (v : String) (t : Term) (rest : List (String × Term)) :
    rank ((v, t) :: rest) v = 0 := by
  simp [rank]

lemma rank_cons_of_ne (h : w ≠ v) (t : Term) (rest : List (String × Term)) :
    rank ((v, t) :: rest) w = rank rest w + 1 := by
  simp [rank, List.idxOf_cons_ne _ (Ne.symm h)]

/-- Triangular bindings refer only to variables that are bound later or not at all. -/
lemma IsTriangular.rank_lt {bindings : List (String × Term)} (h : IsTriangular bindings)
    (ht : bindings.lookup v = some t) (hw : w ∈ t.vars) : rank bindings v < rank bindings w := by
  induction bindings with
  | nil => cases ht
  | cons b rest ih =>
    obtain ⟨x, u⟩ := b
    obtain ⟨hx, hlater, hrest⟩ := h
    by_cases hv : v = x
    · subst hv
      rw [List.lookup_cons_self] at ht
      obtain rfl := Option.some.inj ht
      have hne : w ≠ v := fun heq => hx (heq ▸ hw)
      rw [rank_cons_self, rank_cons_of_ne hne]
      exact Nat.succ_pos _
    · rw [List.lookup_cons, beq_false_of_ne hv] at ht
      have hne : w ≠ x := fun heq => (hlater _ (mem_of_lookup_eq_some ht)).2 (heq ▸ hw)
      rw [rank_cons_of_ne hv, rank_cons_of_ne hne]
      exact Nat.succ_lt_succ (ih hrest ht)

/-- Triangular bindings never refer to each other in a circle. -/
lemma IsTriangular.isAcyclic {s : Substitution} (h : IsTriangular s.bindings) : s.IsAcyclic := by
  apply isAcyclic_of_rank_lt (rank s.bindings)
  rintro v w ⟨t, ht, hw⟩
  exact h.rank_lt ht hw

end Substitution

/-! ## What unification finds -/

/-- What makes a substitution a most general unifier of two lists of terms. -/
structure Substitution.IsMostGeneralUnifier (s : Substitution) (left right : List Term) : Prop where
  isAcyclic : s.IsAcyclic
  /-- It speaks of no variable that the terms do not have. -/
  vars_subset : ∀ b ∈ s.bindings, b.1 :: b.2.vars ⊆ (left ++ right).flatMap Term.vars
  unifies : left.map s.apply = right.map s.apply
  apply_apply : ∀ t, s.apply (s.apply t) = s.apply t
  /-- Every replacement that makes the lists equal does the same after the unifier is applied. -/
  absorbed : ∀ τ, left.map (Term.subst τ) = right.map (Term.subst τ) →
    ∀ t, (s.apply t).subst τ = t.subst τ

/-- A unifier that is found absorbs every replacement that makes the two lists equal. -/
lemma subst_apply_of_unify {left right : List Term} {s : Substitution}
    (h : unify left right = .ok s) {τ : String → Term}
    (hτ : left.map (Term.subst τ) = right.map (Term.subst τ)) (t : Term) :
    (s.apply t).subst τ = t.subst τ := by
  obtain ⟨u, hu, habsorbs⟩ := exists_unify_eq_ok hτ
  obtain rfl : u = s := Except.ok.inj (hu.symm.trans h)
  rw [Substitution.apply, Term.subst_subst]
  exact Term.subst_congr fun v _ => habsorbs v

/-- Unification succeeds exactly on lists of terms that some replacement makes equal, and what it
finds is a most general unifier.  Its result is the one that comes of applying the bindings made so
far whenever two terms are compared. -/
theorem unify_isMostGeneralUnifier (left right : List Term) :
    ((∃ s, unify left right = .ok s) ↔
        ∃ τ, left.map (Term.subst τ) = right.map (Term.subst τ)) ∧
      (∀ s, unify left right = .ok s → s.IsMostGeneralUnifier left right) ∧
      ∀ r, UnifiesTo left right r ↔ unify left right = r := by
  refine ⟨⟨?_, ?_⟩, fun s h => ?_, fun r => unifiesTo_iff_unify_eq⟩
  · rintro ⟨s, h⟩
    exact ⟨s.value, map_subst_value_of_unify h⟩
  · rintro ⟨τ, hτ⟩
    obtain ⟨s, h, -⟩ := exists_unify_eq_ok hτ
    exact ⟨s, h⟩
  · obtain ⟨-, hsolved⟩ := solvedBy_of_unify h
    have hunifies := map_subst_value_of_unify h
    refine ⟨hsolved.isTriangular.isAcyclic, fun b hb => ?_, hunifies,
      subst_apply_of_unify h hunifies, fun τ hτ => subst_apply_of_unify h hτ⟩
    obtain ⟨hvar, hterm⟩ := hsolved.vars_subset b hb
    rw [List.flatMap_append]
    exact List.Subset.trans (List.cons_subset.mpr ⟨hvar, hterm⟩)
      (Equations.vars_zip_subset left right)

/-- The terms `x, y` and `f(y), A` have a unifier in which `x` refers to `y`. -/
theorem isMostGeneralUnifier_xy_fyA :
    unify [.var "x", .var "y"] [.app "f" [.var "y"], .const "A"] =
        .ok ⟨[("x", .app "f" [.var "y"]), ("y", .const "A")]⟩ ∧
      Substitution.IsMostGeneralUnifier ⟨[("x", .app "f" [.var "y"]), ("y", .const "A")]⟩
        [.var "x", .var "y"] [.app "f" [.var "y"], .const "A"] := by
  have h : unify [.var "x", .var "y"] [.app "f" [.var "y"], .const "A"] =
      .ok ⟨[("x", .app "f" [.var "y"]), ("y", .const "A")]⟩ := by
    cbv
  exact ⟨h, (unify_isMostGeneralUnifier _ _).2.1 _ h⟩

end Clausal
