import Clausal.Proofs.MostGeneralUnifier

/-!
# Chains of bindings

A term bound to a variable may have bound variables of its own, so that applying a substitution
follows bindings rather than subterms.  It ends on every substitution: a variable is left as it is
while its own binding is being followed, so that on each path fewer and fewer bindings remain to be
followed.  Walking a term ends because the hops are counted.  Both are given here as evaluation
relations, which speak neither of a number of bindings to follow nor of a list of those that are
left, and each relates every term to one result.

On a substitution without circles the guard and the count never show.  The variables that a variable
refers to, directly or through others, are never met again, so there is an induction along the
references, which also counts that they end within as many hops as there are bindings.  By it the
value of a bound variable is the value of the term bound to it.  Hence applying the substitution
leaves no bound variable, does nothing the second time, and is the replacement, all at once, of the
bound variables by the terms of the resolved substitution; and walking a term comes to an end of the
chain.
-/

namespace Clausal

/-- Looking up a key among the pairs whose keys have a property. -/
lemma lookup_filter_fst {α : Type} (p : String → Bool) (l : List (String × α)) (v : String) :
    (l.filter fun b => p b.1).lookup v = if p v = true then l.lookup v else none := by
  induction l with
  | nil => simp
  | cons b rest ih =>
    obtain ⟨w, a⟩ := b
    rw [List.filter_cons, List.lookup_cons]
    by_cases hvw : v = w
    · subst hvw
      rw [beq_self_eq_true]
      split
      · exact List.lookup_cons_self
      · rename_i hp
        rw [ih, if_neg hp]
    · rw [beq_false_of_ne hvw, ← ih]
      split
      · rw [List.lookup_cons, beq_false_of_ne hvw]
      · rfl

namespace Substitution

variable {s : Substitution} {resolving : List String} {v w : String} {t r : Term} {n : ℕ}

/-! ## The bindings that remain -/

/-- The bindings of the variables that are not being resolved. -/
def remaining (s : Substitution) (resolving : List String) : List (String × Term) :=
  s.bindings.filter (·.1 ∉ resolving)

lemma remaining_nil (s : Substitution) : s.remaining [] = s.bindings := by
  simp [remaining]

lemma length_remaining_nil (s : Substitution) : (s.remaining []).length = s.size := by
  rw [remaining_nil]
  rfl

lemma remaining_cons (s : Substitution) (v : String) (resolving : List String) :
    s.remaining (v :: resolving) = (s.remaining resolving).filter (·.1 ≠ v) := by
  simp [remaining, List.filter_filter]

lemma lookup_remaining (s : Substitution) (resolving : List String) (v : String) :
    (s.remaining resolving).lookup v = if v ∉ resolving then s.get? v else none := by
  rw [remaining, lookup_filter_fst fun w => decide (w ∉ resolving)]
  simp [get?]

lemma lookup_remaining_of_notMem (hv : v ∉ resolving) :
    (s.remaining resolving).lookup v = s.get? v := by
  rw [lookup_remaining, if_pos hv]

/-- Resolving a bound variable uses up its binding. -/
lemma length_remaining_cons_lt (hv : v ∉ resolving) (ht : s.get? v = some t) :
    (s.remaining (v :: resolving)).length < (s.remaining resolving).length := by
  have hmem : (v, t) ∈ s.remaining resolving :=
    mem_of_lookup_eq_some ((lookup_remaining_of_notMem hv).trans ht)
  rw [remaining_cons, List.length_filter_lt_length_iff_exists]
  exact ⟨(v, t), hmem, by simp⟩

/-- Where a bound variable is not being resolved, there is a binding to follow, and one less remains
when it is. -/
lemma exists_eq_succ_of_bound (hv : v ∉ resolving) (ht : s.get? v = some t)
    (hn : (s.remaining resolving).length ≤ n) :
    ∃ m, n = m + 1 ∧ (s.remaining (v :: resolving)).length ≤ m := by
  have hlt := Nat.lt_of_lt_of_le (length_remaining_cons_lt hv ht) hn
  exact ⟨n - 1, by omega, by omega⟩

/-- A variable that is being resolved, or is not bound, stands for itself. -/
lemma valueFrom_remaining_eq_var (h : v ∈ resolving ∨ s.get? v = none) (n : ℕ) :
    valueFrom n (s.remaining resolving) v = .var v := by
  have hlookup : (s.remaining resolving).lookup v = none := by
    rw [lookup_remaining]
    rcases h with hv | hv
    · rw [if_neg (not_not_intro hv)]
    · rw [hv, ite_self]
  cases n with
  | zero => rfl
  | succ n => rw [valueFrom, hlookup]

/-- Another bound variable stands for what its term becomes while the variable is being resolved. -/
lemma valueFrom_remaining_succ (hv : v ∉ resolving) (ht : s.get? v = some t) (n : ℕ) :
    valueFrom (n + 1) (s.remaining resolving) v =
      t.subst (valueFrom n (s.remaining (v :: resolving))) := by
  rw [valueFrom, lookup_remaining_of_notMem hv, ht, remaining_cons]

lemma value_eq_valueFrom_remaining (s : Substitution) :
    s.value = valueFrom s.size (s.remaining []) := by
  rw [remaining_nil]
  rfl

lemma value_eq_var (h : s.get? v = none) : s.value v = .var v := by
  rw [value_eq_valueFrom_remaining]
  exact valueFrom_remaining_eq_var (Or.inr h) _

/-! ## Applying ends -/

/-- The term that another one resolves to while some variables are being resolved.  These are left
as they are, and so are variables that are not bound.  Any other variable joins them while the term
bound to it is resolved. -/
inductive ResolvesTo (s : Substitution) : List String → Term → Term → Prop where
  | guarded {resolving : List String} {v : String} (hv : v ∈ resolving) :
      ResolvesTo s resolving (.var v) (.var v)
  | unbound {resolving : List String} {v : String} (hv : v ∉ resolving) (hget : s.get? v = none) :
      ResolvesTo s resolving (.var v) (.var v)
  | bound {resolving : List String} {v : String} {t r : Term} (hv : v ∉ resolving)
      (hget : s.get? v = some t) (hterm : ResolvesTo s (v :: resolving) t r) :
      ResolvesTo s resolving (.var v) r
  | const {resolving : List String} (c : String) : ResolvesTo s resolving (.const c) (.const c)
  | app {resolving : List String} (f : String) {args results : List Term}
      (hlength : args.length = results.length)
      (hargs : ∀ (i : ℕ) (h : i < args.length) (h' : i < results.length),
        ResolvesTo s resolving args[i] results[i]) :
      ResolvesTo s resolving (.app f args) (.app f results)

/-- A term resolves to one term at most. -/
lemma ResolvesTo.unique {r' : Term} (h : s.ResolvesTo resolving t r)
    (h' : s.ResolvesTo resolving t r') : r = r' := by
  induction h generalizing r' with
  | guarded hv =>
    cases h' with
    | guarded | unbound => rfl
    | bound hv' => exact absurd hv hv'
  | unbound hv hget =>
    cases h' with
    | guarded | unbound => rfl
    | bound _ hget' => cases hget.symm.trans hget'
  | bound hv hget _ ih =>
    cases h' with
    | guarded hv' => exact absurd hv' hv
    | unbound _ hget' => cases hget.symm.trans hget'
    | bound _ hget' hterm' =>
      obtain rfl := Option.some.inj (hget.symm.trans hget')
      exact ih hterm'
  | const c => cases h' with | const => rfl
  | app f hlength _ ih =>
    cases h' with
    | app _ hlength' hargs' =>
      refine congrArg (Term.app f)
        (List.ext_getElem (hlength.symm.trans hlength') fun i hi hi' => ?_)
      exact ih i (hlength ▸ hi) hi (hargs' i (hlength ▸ hi) hi')

/-- A term resolves if each variable does. -/
lemma resolvesTo_subst {σ : String → Term}
    (h : ∀ v, s.ResolvesTo resolving (.var v) (σ v)) (t : Term) :
    s.ResolvesTo resolving t (t.subst σ) := by
  induction t with
  | var v => exact h v
  | const c => exact .const c
  | app f args ih =>
    rw [Term.subst_app]
    refine .app f (List.length_map _).symm fun i hi hi' => ?_
    rw [List.getElem_map]
    exact ih _ (List.getElem_mem hi)

/-- Following as many bindings as remain resolves a variable. -/
lemma resolvesTo_valueFrom (hn : (s.remaining resolving).length ≤ n) (v : String) :
    s.ResolvesTo resolving (.var v) (valueFrom n (s.remaining resolving) v) := by
  induction n using Nat.strong_induction_on generalizing resolving v with
  | _ n ih =>
    by_cases hv : v ∈ resolving
    · rw [valueFrom_remaining_eq_var (Or.inl hv)]
      exact .guarded hv
    · cases hget : s.get? v with
      | none =>
        rw [valueFrom_remaining_eq_var (Or.inr hget)]
        exact .unbound hv hget
      | some t =>
        obtain ⟨m, rfl, hm⟩ := exists_eq_succ_of_bound hv hget hn
        rw [valueFrom_remaining_succ hv hget]
        exact .bound hv hget (resolvesTo_subst (ih m (Nat.lt_succ_self m) hm) t)

/-- A term resolves to what applying the substitution gives, and to nothing else. -/
lemma resolvesTo_iff : s.ResolvesTo [] t r ↔ r = s.apply t := by
  have hresolves : s.ResolvesTo [] t (s.apply t) := by
    rw [apply, value_eq_valueFrom_remaining]
    exact resolvesTo_subst (resolvesTo_valueFrom (Nat.le_of_eq s.length_remaining_nil)) t
  constructor
  · intro h
    exact h.unique hresolves
  · rintro rfl
    exact hresolves

/-! ## Walking ends -/

/-- The term to which a walk leads from another one after some hops.  A bound variable is left for
the term bound to it unless there were more hops than there are bindings. -/
inductive WalksTo (s : Substitution) : ℕ → Term → Term → Prop where
  | hop {hops : ℕ} {v : String} {t r : Term} (hhops : hops ≤ s.size) (hget : s.get? v = some t)
      (hrest : WalksTo s (hops + 1) t r) : WalksTo s hops (.var v) r
  | outOfHops {hops : ℕ} {v : String} (hhops : s.size < hops) : WalksTo s hops (.var v) (.var v)
  | unbound {hops : ℕ} {v : String} (hget : s.get? v = none) : WalksTo s hops (.var v) (.var v)
  | other {hops : ℕ} {t : Term} (ht : ∀ v, t ≠ .var v) : WalksTo s hops t t

lemma walkFrom_of_ne_var (ht : ∀ v, t ≠ .var v) (n : ℕ) : s.walkFrom n t = t := by
  cases t with
  | var v => exact absurd rfl (ht v)
  | const | app => cases n <;> rfl

lemma walkFrom_of_unbound (hget : s.get? v = none) (n : ℕ) : s.walkFrom n (.var v) = .var v := by
  cases n with
  | zero => rfl
  | succ n => rw [walkFrom, hget]

lemma walkFrom_succ_of_bound (hget : s.get? v = some t) (n : ℕ) :
    s.walkFrom (n + 1) (.var v) = s.walkFrom n t := by
  rw [walkFrom, hget]

/-- A walk leads to the term that is found with the hops that are left, and to no other. -/
lemma walksTo_iff {hops : ℕ} (hn : n + hops = s.size + 1) :
    s.WalksTo hops t r ↔ r = s.walkFrom n t := by
  constructor
  · intro h
    induction h generalizing n with
    | hop hhops hget _ ih =>
      obtain ⟨m, rfl⟩ := Nat.exists_eq_add_of_lt (show 0 < n by omega)
      rw [Nat.zero_add, walkFrom_succ_of_bound hget]
      exact ih (by omega)
    | outOfHops hhops =>
      obtain rfl : n = 0 := by omega
      rfl
    | unbound hget => rw [walkFrom_of_unbound hget]
    | other ht => rw [walkFrom_of_ne_var ht]
  · rintro rfl
    induction n generalizing hops t with
    | zero =>
      cases t with
      | var v => exact .outOfHops (by omega)
      | const | app => exact .other (by simp)
    | succ n ih =>
      cases t with
      | var v =>
        cases hget : s.get? v with
        | none =>
          rw [walkFrom_of_unbound hget]
          exact .unbound hget
        | some u =>
          rw [walkFrom_succ_of_bound hget]
          exact .hop (by omega) hget (ih (by omega))
      | const | app => exact .other (by simp)

/-! ## Induction along references -/

/-- No variable that another one refers to, directly or through others, is among the given ones. -/
def Avoids (s : Substitution) (v : String) (resolving : List String) : Prop :=
  ∀ w, Relation.ReflTransGen s.RefersTo v w → w ∉ resolving

lemma avoids_nil (s : Substitution) (v : String) : s.Avoids v [] :=
  fun _ _ => List.not_mem_nil

lemma Avoids.notMem (h : s.Avoids v resolving) : v ∉ resolving :=
  h v .refl

/-- Without circles, what a variable refers to does not refer back to it. -/
lemma Avoids.cons (h : s.Avoids v resolving) (hacyclic : s.IsAcyclic) (hrefers : s.RefersTo v w) :
    s.Avoids w (v :: resolving) := by
  intro x hx hmem
  rcases List.mem_cons.mp hmem with rfl | hmem
  · exact hacyclic x (Relation.TransGen.head' hrefers hx)
  · exact h x (Relation.ReflTransGen.head hrefers hx) hmem

/-- Without circles, a statement holds of a variable if it holds of unbound variables and if it
holds of a bound one whenever it holds of the variables that this one refers to.  The number grows
by one with each reference, and need not be larger than the number of bindings that remain. -/
lemma IsAcyclic.induction (h : s.IsAcyclic) {motive : ℕ → String → Prop}
    (unbound : ∀ n v, s.get? v = none → motive n v)
    (bound : ∀ n v t, s.get? v = some t → (∀ w ∈ t.vars, motive n w) → motive (n + 1) v)
    (hv : s.Avoids v resolving) (hn : (s.remaining resolving).length ≤ n) : motive n v := by
  induction n using Nat.strong_induction_on generalizing resolving v with
  | _ n ih =>
    cases hget : s.get? v with
    | none => exact unbound n v hget
    | some t =>
      obtain ⟨m, rfl, hm⟩ := exists_eq_succ_of_bound hv.notMem hget hn
      exact bound m v t hget fun w hw => ih m (Nat.lt_succ_self m) (hv.cons h ⟨t, hget, hw⟩) hm

/-- Without circles, it makes no difference which variables are being resolved, unless they are
referred to, and how many bindings may be followed, once there are enough. -/
lemma IsAcyclic.valueFrom_eq (h : s.IsAcyclic) (hv : s.Avoids v resolving)
    (hn : (s.remaining resolving).length ≤ n) {m m' : ℕ} {others others' : List String} (hm : n ≤ m)
    (hm' : n ≤ m') (hothers : s.Avoids v others) (hothers' : s.Avoids v others') :
    valueFrom m (s.remaining others) v = valueFrom m' (s.remaining others') v := by
  revert m m' others others'
  apply h.induction ?_ ?_ hv hn
  · intro n v hget m m' others others' _ _ _ _
    rw [valueFrom_remaining_eq_var (Or.inr hget), valueFrom_remaining_eq_var (Or.inr hget)]
  · intro n v t hget ih m m' others others' hm hm' hothers hothers'
    obtain ⟨k, rfl⟩ := Nat.exists_eq_add_of_le' hm
    obtain ⟨k', rfl⟩ := Nat.exists_eq_add_of_le' hm'
    rw [← Nat.add_assoc, ← Nat.add_assoc, valueFrom_remaining_succ hothers.notMem hget,
      valueFrom_remaining_succ hothers'.notMem hget]
    refine Term.subst_congr fun w hw => ih w hw (Nat.le_add_left _ _) (Nat.le_add_left _ _) ?_ ?_
    · exact hothers.cons h ⟨t, hget, hw⟩
    · exact hothers'.cons h ⟨t, hget, hw⟩

/-- Without circles, a bound variable stands for what its term becomes. -/
lemma IsAcyclic.value_eq_apply (h : s.IsAcyclic) (hget : s.get? v = some t) :
    s.value v = s.apply t := by
  obtain ⟨m, hsize, hm⟩ :=
    exists_eq_succ_of_bound List.not_mem_nil hget (Nat.le_of_eq s.length_remaining_nil)
  calc s.value v = valueFrom (m + 1) (s.remaining []) v := by
        rw [value_eq_valueFrom_remaining, hsize]
    _ = t.subst (valueFrom m (s.remaining [v])) := valueFrom_remaining_succ List.not_mem_nil hget m
    _ = t.subst (valueFrom s.size (s.remaining [])) := Term.subst_congr fun w hw => by
        have hw' : s.Avoids w [v] := (s.avoids_nil v).cons h ⟨t, hget, hw⟩
        exact h.valueFrom_eq hw' hm (Nat.le_refl _) (by omega) hw' (s.avoids_nil w)
    _ = s.apply t := by rw [apply, value_eq_valueFrom_remaining]

/-! ## Substitutions without circles -/

/-- The terms that stand for variables when the bindings are not followed: a bound variable for the
term bound to it, any other for itself. -/
def simultaneous (s : Substitution) (v : String) : Term :=
  (s.get? v).getD (.var v)

lemma get?_resolved (s : Substitution) (v : String) :
    s.resolved.get? v = (s.get? v).map s.apply := by
  have key : ∀ bindings : List (String × Term),
      (bindings.map fun b => (b.1, s.apply b.2)).lookup v = (bindings.lookup v).map s.apply := by
    intro bindings
    induction bindings with
    | nil => rfl
    | cons b rest ih =>
      rw [List.map_cons, List.lookup_cons, List.lookup_cons, ih]
      split <;> rfl
  exact key s.bindings

/-- No bound variable is left in what a variable stands for. -/
lemma IsAcyclic.get?_eq_none_of_mem_value (h : s.IsAcyclic) (v : String) :
    ∀ w ∈ (s.value v).vars, s.get? w = none := by
  refine h.induction (motive := fun _ v => ∀ w ∈ (s.value v).vars, s.get? w = none) ?_ ?_
    (s.avoids_nil v) (Nat.le_refl _)
  · intro _ v hget w hw
    rw [value_eq_var hget] at hw
    rw [List.mem_singleton.mp hw, hget]
  · intro _ v t hget ih w hw
    rw [h.value_eq_apply hget] at hw
    obtain ⟨x, hx, hwx⟩ := Term.mem_vars_subst.mp hw
    exact ih x hx w hwx

/-- No bound variable is left in a term to which the substitution is applied. -/
lemma IsAcyclic.get?_eq_none_of_mem_apply (h : s.IsAcyclic) {t : Term} (hw : w ∈ (s.apply t).vars) :
    s.get? w = none := by
  obtain ⟨v, -, hwv⟩ := Term.mem_vars_subst.mp hw
  exact h.get?_eq_none_of_mem_value v w hwv

lemma IsAcyclic.apply_apply (h : s.IsAcyclic) (t : Term) : s.apply (s.apply t) = s.apply t :=
  Term.subst_eq_self fun _ hv => value_eq_var (h.get?_eq_none_of_mem_apply hv)

lemma IsAcyclic.value_eq_simultaneous_resolved (h : s.IsAcyclic) (v : String) :
    s.value v = s.resolved.simultaneous v := by
  rw [simultaneous, get?_resolved]
  cases hget : s.get? v with
  | none => exact value_eq_var hget
  | some t => exact h.value_eq_apply hget

/-- A walk of more hops than there are bindings leaves every bound variable behind. -/
lemma IsAcyclic.get?_eq_none_of_walk (h : s.IsAcyclic) (hwalk : s.walk t = .var v) :
    s.get? v = none := by
  cases t with
  | const | app =>
    rw [walk, walkFrom_of_ne_var (by simp)] at hwalk
    cases hwalk
  | var w =>
    refine h.induction (motive := fun n w => s.walkFrom n (.var w) = .var v → s.get? v = none) ?_ ?_
      (s.avoids_nil w) (Nat.le_succ_of_le (Nat.le_of_eq s.length_remaining_nil)) hwalk
    · intro n w hget hwalk
      rw [walkFrom_of_unbound hget] at hwalk
      rw [← Term.var.inj hwalk, hget]
    · intro n w u hget ih hwalk
      rw [walkFrom_succ_of_bound hget] at hwalk
      cases u with
      | var x => exact ih x List.mem_cons_self hwalk
      | const | app =>
        rw [walkFrom_of_ne_var (by simp)] at hwalk
        cases hwalk

/-- Each hop of a walk goes from a variable to a term for which it stands. -/
lemma IsAcyclic.apply_walkFrom (h : s.IsAcyclic) (n : ℕ) (t : Term) :
    s.apply (s.walkFrom n t) = s.apply t := by
  induction n generalizing t with
  | zero => rfl
  | succ n ih =>
    cases t with
    | const | app => rfl
    | var v =>
      cases hget : s.get? v with
      | none => rw [walkFrom_of_unbound hget]
      | some u =>
        rw [walkFrom_succ_of_bound hget, ih, ← h.value_eq_apply hget]
        rfl

/-- What following the bindings to their ends does to a term. -/
structure EndsChains (s : Substitution) (t : Term) : Prop where
  get?_eq_none_of_mem : ∀ v ∈ (s.apply t).vars, s.get? v = none
  apply_apply : s.apply (s.apply t) = s.apply t
  apply_eq_subst : s.apply t = t.subst s.resolved.simultaneous
  /-- A walk ends at an unbound variable, or at a term that is not a variable. -/
  walk_unbound : ∀ v, s.walk t = .var v → s.get? v = none
  apply_walk : s.apply (s.walk t) = s.apply t

/-- Applying a substitution and walking a term end on every substitution, with one result each.  On
a substitution without circles, each chain of bindings is followed to its end. -/
theorem resolvesTo_walksTo_and_endsChains (s : Substitution) :
    (∀ t r, s.ResolvesTo [] t r ↔ r = s.apply t) ∧ (∀ t r, s.WalksTo 0 t r ↔ r = s.walk t) ∧
      (s.IsAcyclic → ∀ t, s.EndsChains t) := by
  refine ⟨fun t r => resolvesTo_iff, fun t r => walksTo_iff rfl, fun h t => ⟨?_, ?_, ?_, ?_, ?_⟩⟩
  · exact fun v hv => h.get?_eq_none_of_mem_apply hv
  · exact h.apply_apply t
  · exact Term.subst_congr fun v _ => h.value_eq_simultaneous_resolved v
  · exact fun v hv => h.get?_eq_none_of_walk hv
  · exact h.apply_walkFrom _ t

/-- The bindings `z ↦ A`, `y ↦ f(z)` and `x ↦ y`, each of which refers to the one made before it. -/
def chainToA : Substitution :=
  ⟨[("z", .const "A"), ("y", .app "f" [.var "z"]), ("x", .var "y")]⟩

/-- The chain from `x` over `y` and `z` to `A` is followed to its end. -/
theorem endsChains_chainToA : chainToA.IsAcyclic ∧ chainToA.EndsChains (.app "g" [.var "x"]) ∧
    chainToA.apply (.app "g" [.var "x"]) = .app "g" [.app "f" [.const "A"]] := by
  have hacyclic : chainToA.IsAcyclic := by
    apply isAcyclic_of_rank_lt ["x", "y", "z"].idxOf
    rintro v w ⟨t, hget, hw⟩
    have hmem : (v, t) ∈ chainToA.bindings := mem_of_lookup_eq_some hget
    simp only [chainToA, List.mem_cons, Prod.mk.injEq, List.not_mem_nil, or_false] at hmem
    rcases hmem with ⟨rfl, rfl⟩ | ⟨rfl, rfl⟩ | ⟨rfl, rfl⟩
    · cases hw
    · rw [List.mem_singleton.mp hw]
      decide
    · rw [List.mem_singleton.mp hw]
      decide
  exact ⟨hacyclic, (resolvesTo_walksTo_and_endsChains chainToA).2.2 hacyclic _, by decide⟩

end Substitution

end Clausal
