import Clausal.Proofs.Unification

/-!
# Unification that applies its bindings

Equations can be solved without replacing a variable that is bound in the equations that are left.
Then the bindings made so far are applied to the two sides of an equation when its turn comes.  The
equations between the arguments of two applications are solved, in the same way, before the equation
that follows, and so bindings are applied again to terms to which they have been applied already.

The result is the same, be it bindings, with their order, or a failure.  For the bindings are
triangular at all times: to apply one binding more is to replace its variable after the others are
applied, and to apply bindings twice is to apply them once.  So what the solver has left are the
equations that are left here, with the bindings applied.
-/

namespace Clausal

/-! ## Moves -/

/-- What is done about two terms that are to be made equal. -/
inductive Move where
  /-- Nothing, as they are equal. -/
  | drop
  /-- The variable is bound to the term. -/
  | eliminate (v : String) (t : Term)
  /-- The arguments are made equal. -/
  | decompose (eqs : Equations)
  /-- They cannot be made equal. -/
  | fail (e : Mismatch)

/-- What is done about two terms.  A variable on the left is bound rather than one on the right. -/
def Term.move (a b : Term) : Move :=
  if a = b then .drop
  else
    match a, b with
    | .var v, t => if v ∈ t.vars then .fail (.occurs v t) else .eliminate v t
    | t, .var v => if v ∈ t.vars then .fail (.occurs v t) else .eliminate v t
    | .const c, .const d => .fail (.symbols c d)
    | .app f ss, .app g ts =>
        if f ≠ g then .fail (.symbols f g)
        else if ss.length ≠ ts.length then .fail (.arity ss.length ts.length)
        else .decompose (ss.zip ts)
    | .app f _, .const c => .fail (.symbols f c)
    | .const c, .app f _ => .fail (.symbols f c)

/-- The result of solving equations with bindings that are applied to an equation when its turn
comes. -/
inductive Equations.UnifiesTo : Substitution → Equations → Except Mismatch Substitution → Prop
  | nil (s : Substitution) : UnifiesTo s [] (.ok s)
  | drop {s a b rest r} (hmove : (s.apply a).move (s.apply b) = .drop)
      (hrest : UnifiesTo s rest r) : UnifiesTo s ((a, b) :: rest) r
  | eliminate {s a b rest r v t} (hmove : (s.apply a).move (s.apply b) = .eliminate v t)
      (hrest : UnifiesTo (s.bind v t) rest r) : UnifiesTo s ((a, b) :: rest) r
  | arguments {s s' a b rest r eqs} (hmove : (s.apply a).move (s.apply b) = .decompose eqs)
      (hargs : UnifiesTo s eqs (.ok s')) (hrest : UnifiesTo s' rest r) :
      UnifiesTo s ((a, b) :: rest) r
  | argumentsFail {s a b rest e eqs} (hmove : (s.apply a).move (s.apply b) = .decompose eqs)
      (hargs : UnifiesTo s eqs (.error e)) : UnifiesTo s ((a, b) :: rest) (.error e)
  | fail {s a b rest e} (hmove : (s.apply a).move (s.apply b) = .fail e) :
      UnifiesTo s ((a, b) :: rest) (.error e)

/-- The result of unifying two lists of terms, position by position, with the bindings made so far
applied at each of them. -/
inductive UnifiesTo (left right : List Term) : Except Mismatch Substitution → Prop
  | arity (hlength : left.length ≠ right.length) :
      UnifiesTo left right (.error (.arity left.length right.length))
  | pairs {r} (hlength : left.length = right.length)
      (hpairs : Equations.UnifiesTo .empty (left.zip right) r) : UnifiesTo left right r

variable {a b t : Term} {v : String} {s : Substitution} {rest eqs : Equations}
  {r : Except Mismatch Substitution}

/-- A variable that is to be bound is one side, does not occur in the other and is bound to it. -/
lemma Term.eq_of_move_eliminate (h : a.move b = .eliminate v t) :
    v ∉ t.vars ∧ ((a, b) = (.var v, t) ∨ (a, b) = (t, .var v)) := by
  unfold move at h
  split at h
  · cases h
  · split at h <;> grind

/-- Arguments that are to be made equal are those of the same function. -/
lemma Term.eq_of_move_decompose (h : a.move b = .decompose eqs) :
    ∃ f ss ts, a = .app f ss ∧ b = .app f ts ∧ eqs = ss.zip ts := by
  unfold move at h
  split at h
  · cases h
  · split at h <;> grind

namespace Equations

/-- Solving goes on after the move for the first equation. -/
def solveAfter (rest : Equations) (s : Substitution) : Move → Except Mismatch Substitution
  | .drop => solve rest s
  | .eliminate v t => solve (replace rest v t) (s.bind v t)
  | .decompose eqs => solve (eqs ++ rest) s
  | .fail e => .error e

lemma solve_nil (s : Substitution) : solve [] s = .ok s := by
  rw [solve]

/-- Solving begins with the move for the first equation. -/
lemma solve_cons (a b : Term) (rest : Equations) (s : Substitution) :
    solve ((a, b) :: rest) s = solveAfter rest s (a.move b) := by
  unfold solve Term.move
  split
  · rfl
  · cases a <;> cases b <;> grind [solveAfter]

end Equations

/-! ## Applying triangular bindings -/

namespace Substitution

variable {bindings : List (String × Term)} {w x : String}

/-- One binding more replaces its variable after the others. -/
lemma compose_append_singleton (bindings : List (String × Term)) (v : String) (t : Term)
    (w : String) : compose (bindings ++ [(v, t)]) w = (compose bindings w).replace v t := by
  induction bindings generalizing w with
  | nil => exact Term.subst_eq_self fun _ _ => rfl
  | cons b rest ih =>
    rw [List.cons_append, compose, compose, Term.replace, Term.subst_subst]
    exact Term.subst_congr fun x _ => ih x

/-- A variable that is not bound stays. -/
lemma compose_of_notMem (h : ∀ b ∈ bindings, b.1 ≠ w) : compose bindings w = .var w := by
  induction bindings with
  | nil => rfl
  | cons b rest ih =>
    obtain ⟨hb, hrest⟩ := List.forall_mem_cons.mp h
    rw [compose, Term.binding, if_neg (Ne.symm hb), Term.subst_var, ih hrest]

/-- Replacing bound variables brings in only variables of the terms bound to them. -/
lemma eq_or_mem_of_mem_vars_compose (h : x ∈ (compose bindings w).vars) :
    x = w ∨ ∃ b ∈ bindings, x ∈ b.2.vars := by
  induction bindings generalizing w with
  | nil => exact Or.inl (List.mem_singleton.mp h)
  | cons b rest ih =>
    obtain ⟨v, t⟩ := b
    obtain ⟨y, hy, hx⟩ := Term.mem_vars_subst.mp h
    rcases ih hx with rfl | ⟨c, hc, hxc⟩
    · rw [Term.binding] at hy
      split at hy
      · exact Or.inr ⟨(v, t), List.mem_cons_self, hy⟩
      · exact Or.inl (List.mem_singleton.mp hy)
    · exact Or.inr ⟨c, List.mem_cons_of_mem _ hc, hxc⟩

/-- Replacing the bound variables of triangular bindings removes them all. -/
lemma IsTriangular.notMem_vars_compose (h : IsTriangular bindings) {b : String × Term}
    (hb : b ∈ bindings) (w : String) : b.1 ∉ (compose bindings w).vars := by
  induction bindings generalizing w with
  | nil => cases hb
  | cons c rest ih =>
    obtain ⟨v, t⟩ := c
    obtain ⟨hv, hlater, hrest⟩ := h
    intro hmem
    obtain ⟨y, hy, hmem⟩ := Term.mem_vars_subst.mp hmem
    rcases List.mem_cons.mp hb with rfl | hb
    · -- the variable is replaced at once, and nothing that is bound later brings it back
      rcases eq_or_mem_of_mem_vars_compose hmem with rfl | ⟨c, hc, hmem⟩
      · rw [Term.binding] at hy
        split at hy
        · exact hv hy
        · rename_i hne
          exact hne (List.mem_singleton.mp hy).symm
      · exact (hlater c hc).2 hmem
    · exact ih hrest hb y hmem

/-- Bindings stay triangular with a binding behind them that speaks of no bound variable. -/
lemma IsTriangular.append_singleton (h : IsTriangular bindings) (hv : v ∉ t.vars)
    (hne : ∀ b ∈ bindings, b.1 ≠ v ∧ b.1 ∉ t.vars) : IsTriangular (bindings ++ [(v, t)]) := by
  induction bindings with
  | nil => exact ⟨hv, fun b hb => absurd hb List.not_mem_nil, trivial⟩
  | cons b rest ih =>
    obtain ⟨hb, hlater, hrest⟩ := h
    obtain ⟨hfirst, hne⟩ := List.forall_mem_cons.mp hne
    refine ⟨hb, List.forall_mem_append.mpr ⟨hlater, fun c hc => ?_⟩, ih hrest hne⟩
    obtain rfl := List.mem_singleton.mp hc
    exact ⟨Ne.symm hfirst.1, hfirst.2⟩

variable (hs : IsTriangular s.bindings)

include hs

/-- Bound variables do not occur in a term to which the bindings are applied. -/
lemma IsTriangular.notMem_vars_apply {b : String × Term} (hb : b ∈ s.bindings) (t : Term) :
    b.1 ∉ (s.apply t).vars := by
  intro hmem
  obtain ⟨w, -, hmem⟩ := Term.mem_vars_subst.mp hmem
  rw [hs.value_eq_compose] at hmem
  exact hs.notMem_vars_compose hb w hmem

/-- Bindings are applied to a term without bound variables in vain. -/
lemma IsTriangular.apply_eq_self (h : ∀ b ∈ s.bindings, b.1 ∉ t.vars) : s.apply t = t := by
  refine Term.subst_eq_self fun w hw => ?_
  rw [hs.value_eq_compose]
  exact compose_of_notMem fun b hb heq => h b hb (heq ▸ hw)

section Eliminate

variable (hv : v ∉ t.vars) (hbound : ∀ b ∈ s.bindings, b.1 ≠ v ∧ b.1 ∉ t.vars)

include hv hbound

lemma IsTriangular.bind : IsTriangular (s.bind v t).bindings := by
  rw [bindings_bind_of_notMem t fun b hb => (hbound b hb).1]
  exact hs.append_singleton hv hbound

/-- A binding that is added is applied after the others. -/
lemma IsTriangular.apply_bind (u : Term) : (s.bind v t).apply u = (s.apply u).replace v t := by
  rw [apply, apply, (hs.bind hv hbound).value_eq_compose, hs.value_eq_compose,
    bindings_bind_of_notMem t fun b hb => (hbound b hb).1, Term.replace, Term.subst_subst]
  exact Term.subst_congr fun w _ => compose_append_singleton s.bindings v t w

end Eliminate

end Substitution

/-! ## Solving with the bindings applied -/

namespace Equations

open Substitution

/-- Equations with bindings applied. -/
def applied (s : Substitution) (eqs : Equations) : Equations :=
  eqs.map fun e => (s.apply e.1, s.apply e.2)

lemma applied_nil (s : Substitution) : applied s [] = [] := rfl

lemma applied_cons (s : Substitution) (a b : Term) (rest : Equations) :
    applied s ((a, b) :: rest) = (s.apply a, s.apply b) :: applied s rest := rfl

lemma applied_eq_self (h : ∀ e ∈ eqs, s.apply e.1 = e.1 ∧ s.apply e.2 = e.2) :
    applied s eqs = eqs :=
  (List.map_congr_left fun e he => Prod.ext (h e he).1 (h e he).2).trans (List.map_id _)

/-- Solving equations with the bindings applied begins with a move. -/
lemma solve_applied_cons (s : Substitution) (a b : Term) (rest : Equations) :
    solve (applied s ((a, b) :: rest)) s =
      solveAfter (applied s rest) s ((s.apply a).move (s.apply b)) :=
  solve_cons _ _ _ _

lemma applied_append (s : Substitution) (eqs rest : Equations) :
    applied s (eqs ++ rest) = applied s eqs ++ applied s rest :=
  List.map_append

/-- The first equations have a result from which the rest is solved, or they fail. -/
def UnifiesInParts (s : Substitution) (eqs rest : Equations) (r : Except Mismatch Substitution) :
    Prop :=
  (∃ s', UnifiesTo s eqs (.ok s') ∧ UnifiesTo s' rest r) ∨
    ∃ e, r = .error e ∧ UnifiesTo s eqs (.error e)

/-- Equations can be solved in two parts. -/
lemma UnifiesTo.inParts (h : UnifiesTo s (eqs ++ rest) r) : UnifiesInParts s eqs rest r := by
  induction eqs generalizing s with
  | nil => exact Or.inl ⟨s, .nil s, h⟩
  | cons e eqs ih =>
    have hcons : ∀ {s₁}, (∀ {r'}, UnifiesTo s₁ eqs r' → UnifiesTo s (e :: eqs) r') →
        UnifiesTo s₁ (eqs ++ rest) r → UnifiesInParts s (e :: eqs) rest r := by
      intro s₁ hfirst hafter
      rcases ih hafter with ⟨s', heqs, hrest⟩ | ⟨cause, hr, heqs⟩
      · exact Or.inl ⟨s', hfirst heqs, hrest⟩
      · exact Or.inr ⟨cause, hr, hfirst heqs⟩
    cases h with
    | drop hmove hafter => exact hcons (.drop hmove) hafter
    | eliminate hmove hafter => exact hcons (.eliminate hmove) hafter
    | arguments hmove hargs hafter => exact hcons (.arguments hmove hargs) hafter
    | argumentsFail hmove hargs => exact Or.inr ⟨_, rfl, .argumentsFail hmove hargs⟩
    | fail hmove => exact Or.inr ⟨_, rfl, .fail hmove⟩

/-! ### What the moves leave -/

section Moves

variable (hs : IsTriangular s.bindings)

include hs

/-- A variable that is to be bound is not bound, and neither is a variable of its term. -/
lemma not_bound_of_move_eliminate (hmove : (s.apply a).move (s.apply b) = .eliminate v t)
    {c : String × Term} (hc : c ∈ s.bindings) : c.1 ≠ v ∧ c.1 ∉ t.vars := by
  have ha := hs.notMem_vars_apply hc a
  have hb := hs.notMem_vars_apply hc b
  rcases (Term.eq_of_move_eliminate hmove).2 with h | h <;> obtain ⟨h₁, h₂⟩ := Prod.mk.inj h
  · rw [h₁, Term.vars_var, List.mem_singleton] at ha
    exact ⟨ha, h₂ ▸ hb⟩
  · rw [h₂, Term.vars_var, List.mem_singleton] at hb
    exact ⟨hb, h₁ ▸ ha⟩

/-- The bindings stay triangular when a variable is bound. -/
lemma isTriangular_bind_of_move (hmove : (s.apply a).move (s.apply b) = .eliminate v t) :
    IsTriangular (s.bind v t).bindings :=
  hs.bind (Term.eq_of_move_eliminate hmove).1 fun _ hc => not_bound_of_move_eliminate hs hmove hc

/-- Applying the bindings after a variable is bound replaces it where they are applied already. -/
lemma applied_bind_of_move (hmove : (s.apply a).move (s.apply b) = .eliminate v t)
    (rest : Equations) : applied (s.bind v t) rest = replace (applied s rest) v t := by
  have happly := hs.apply_bind (Term.eq_of_move_eliminate hmove).1
    fun _ hc => not_bound_of_move_eliminate hs hmove hc
  rw [applied, applied, replace, List.map_map]
  refine List.map_congr_left fun e _ => ?_
  rw [happly, happly]
  rfl

/-- Applying the bindings to equations between arguments changes nothing. -/
lemma applied_of_move (hmove : (s.apply a).move (s.apply b) = .decompose eqs) :
    applied s eqs = eqs := by
  obtain ⟨f, ss, ts, ha, hb, rfl⟩ := Term.eq_of_move_decompose hmove
  have hself : ∀ {u x : Term} {args : List Term}, s.apply u = .app f args → x ∈ args →
      s.apply x = x := by
    intro u x args hu hx
    refine hs.apply_eq_self fun c hc hmem => hs.notMem_vars_apply hc u ?_
    rw [hu, Term.vars_app]
    exact List.mem_flatMap.mpr ⟨x, hx, hmem⟩
  refine applied_eq_self fun e he => ?_
  obtain ⟨hleft, hright⟩ := List.of_mem_zip he
  exact ⟨hself ha hleft, hself hb hright⟩

end Moves

/-- Solving equations with the bindings applied gives what applying them in turn gives. -/
lemma unifiesTo_solve {s : Substitution} (hs : IsTriangular s.bindings) (eqs : Equations) :
    UnifiesTo s eqs (solve (applied s eqs) s) := by
  cases eqs with
  | nil =>
    rw [applied_nil, solve_nil]
    exact .nil s
  | cons e rest =>
    obtain ⟨a, b⟩ := e
    rw [solve_applied_cons]
    cases hmove : (s.apply a).move (s.apply b) with
    | drop =>
      have hlt := weight_tail (s.apply a, s.apply b) (applied s rest)
      exact .drop hmove (unifiesTo_solve hs rest)
    | eliminate v t =>
      obtain ⟨hv, hsides⟩ := Term.eq_of_move_eliminate hmove
      have hbind := applied_bind_of_move hs hmove rest
      have hlt : Prod.Lex (· < ·) (· < ·) (weight (applied (s.bind v t) rest))
          (weight (applied s ((a, b) :: rest))) := by
        rw [hbind, applied_cons]
        exact weight_replace hv hsides (applied s rest)
      rw [solveAfter, ← hbind]
      exact .eliminate hmove (unifiesTo_solve (isTriangular_bind_of_move hs hmove) rest)
    | decompose eqs =>
      have happend : applied s (eqs ++ rest) = eqs ++ applied s rest := by
        rw [applied_append, applied_of_move hs hmove]
      obtain ⟨f, ss, ts, ha, hb, heqs⟩ := Term.eq_of_move_decompose hmove
      have hlt : Prod.Lex (· < ·) (· < ·) (weight (applied s (eqs ++ rest)))
          (weight (applied s ((a, b) :: rest))) := by
        rw [happend, applied_cons, ha, hb, heqs]
        exact weight_zip f f ss ts (applied s rest)
      rw [solveAfter, ← happend]
      -- the solver has put the equations between the arguments before the rest
      rcases (unifiesTo_solve hs (eqs ++ rest)).inParts with ⟨s', hargs, hrest⟩ | ⟨e, he, hargs⟩
      · exact .arguments hmove hargs hrest
      · rw [he]
        exact .argumentsFail hmove hargs
    | fail e => exact .fail hmove
termination_by weight (applied s eqs)
decreasing_by
  all_goals exact hlt

/-- What applying the bindings in turn gives is what solving gives, also before further
equations. -/
lemma UnifiesTo.solve_append (h : UnifiesTo s eqs r) (hs : IsTriangular s.bindings) :
    (∀ s', r = .ok s' → IsTriangular s'.bindings) ∧
      ∀ rest, solve (applied s (eqs ++ rest)) s = r >>= fun s' => solve (applied s' rest) s' := by
  induction h with
  | nil s =>
    refine ⟨?_, fun _ => rfl⟩
    rintro s' ⟨⟩
    exact hs
  | drop hmove _ ih =>
    refine ⟨(ih hs).1, fun rest => ?_⟩
    rw [List.cons_append, solve_applied_cons, hmove, solveAfter, (ih hs).2]
  | eliminate hmove _ ih =>
    obtain ⟨htriangular, hsolve⟩ := ih (isTriangular_bind_of_move hs hmove)
    refine ⟨htriangular, fun rest => ?_⟩
    rw [List.cons_append, solve_applied_cons, hmove, solveAfter,
      ← applied_bind_of_move hs hmove, hsolve]
  | arguments hmove _ _ ihargs ihrest =>
    obtain ⟨htriangular, hargs⟩ := ihargs hs
    obtain ⟨htriangular', hrest⟩ := ihrest (htriangular _ rfl)
    refine ⟨htriangular', fun rest => ?_⟩
    rw [List.cons_append, solve_applied_cons, hmove, solveAfter, ← hrest,
      ← applied_of_move hs hmove, ← applied_append, hargs]
    rfl
  | argumentsFail hmove _ ih =>
    refine ⟨?_, fun rest => ?_⟩
    · rintro s' ⟨⟩
    · rw [List.cons_append, solve_applied_cons, hmove, solveAfter,
        ← applied_of_move hs hmove, ← applied_append, (ih hs).2]
      rfl
  | fail hmove =>
    refine ⟨?_, fun rest => ?_⟩
    · rintro s' ⟨⟩
    · rw [List.cons_append, solve_applied_cons, hmove]
      rfl

/-- Applying triangular bindings in turn is solving the equations with the bindings applied. -/
lemma unifiesTo_iff (hs : IsTriangular s.bindings) :
    UnifiesTo s eqs r ↔ solve (applied s eqs) s = r := by
  constructor
  · intro h
    have hsolve := (h.solve_append hs).2 []
    rw [List.append_nil] at hsolve
    rw [hsolve]
    cases r with
    | error e => rfl
    | ok s' => exact solve_nil s'
  · rintro rfl
    exact unifiesTo_solve hs eqs

end Equations

/-- Unification that applies its bindings gives what replacing each bound variable everywhere
gives. -/
lemma unifiesTo_iff_unify_eq {left right : List Term} :
    UnifiesTo left right r ↔ unify left right = r := by
  have hempty : Substitution.IsTriangular Substitution.empty.bindings := trivial
  have hself : ∀ t, Substitution.empty.apply t = t :=
    fun t => hempty.apply_eq_self fun c hc => absurd hc List.not_mem_nil
  have happlied : Equations.applied .empty (left.zip right) = left.zip right :=
    Equations.applied_eq_self fun e _ => ⟨hself e.1, hself e.2⟩
  have hpairs : Equations.UnifiesTo .empty (left.zip right) r ↔
      Equations.solve (left.zip right) .empty = r := by
    rw [Equations.unifiesTo_iff hempty, happlied]
  by_cases hlength : left.length = right.length
  · rw [unify, if_neg (Decidable.not_not.mpr hlength), ← hpairs]
    constructor
    · intro h
      cases h with
      | arity hne => exact absurd hlength hne
      | pairs _ h => exact h
    · exact .pairs hlength
  · rw [unify, if_pos hlength]
    constructor
    · intro h
      cases h with
      | arity => rfl
      | pairs heq _ => exact absurd heq hlength
    · rintro rfl
      exact .arity hlength

end Clausal
