import Clausal.Mismatch
import Clausal.Substitution

/-!
# Unification

Equations between terms are solved from the left.  An equation between equal terms is dropped, one
between applications of the same function is replaced by the equations between the arguments, and
one with a variable on a side binds that variable, which is then replaced everywhere in the
equations that are left.  So no equation ever contains a bound variable, and the bindings made are
in the order in which the variables are eliminated.

Solving ends because eliminating a variable leaves fewer distinct variables in the equations, and
the other moves leave no more variables and fewer symbols.
-/

namespace Clausal

/-! ### Counting distinct members -/

/-- Dropping repetitions leaves a list without any. -/
theorem nodup_eraseDups {α : Type} [DecidableEq α] (l : List α) : l.eraseDups.Nodup := by
  match l with
  | [] => simp
  | a :: as =>
    rw [List.eraseDups_cons, List.nodup_cons]
    refine ⟨?_, nodup_eraseDups _⟩
    simp
termination_by l.length
decreasing_by exact Nat.lt_succ_of_le (List.length_filter_le _ _)

/-- The number of distinct members of a list. -/
def distinctCount (l : List String) : Nat :=
  l.eraseDups.length

/-- A list with fewer members has no more distinct ones. -/
theorem distinctCount_le {l m : List String} (h : l ⊆ m) : distinctCount l ≤ distinctCount m :=
  (nodup_eraseDups l).length_le_of_subset fun _ hx =>
    List.mem_eraseDups.mpr (h (List.mem_eraseDups.mp hx))

/-- A list that also lacks a member of the other has fewer distinct ones. -/
theorem distinctCount_lt {l m : List String} {v : String} (h : l ⊆ m) (hm : v ∈ m) (hl : v ∉ l) :
    distinctCount l < distinctCount m := by
  have hnodup : (v :: l.eraseDups).Nodup :=
    List.nodup_cons.mpr ⟨fun hv => hl (List.mem_eraseDups.mp hv), nodup_eraseDups l⟩
  refine hnodup.length_le_of_subset fun x hx => List.mem_eraseDups.mpr ?_
  rcases List.mem_cons.mp hx with rfl | hx
  · exact hm
  · exact h (List.mem_eraseDups.mp hx)

/-! ### Equations -/

/-- Equations between terms. -/
abbrev Equations := List (Term × Term)

namespace Equations

/-- The variable occurrences in equations. -/
def vars (eqs : Equations) : List String :=
  eqs.flatMap fun e => e.1.vars ++ e.2.vars

/-- The number of symbols in equations. -/
def size (eqs : Equations) : Nat :=
  total (eqs.map fun e => e.1.size + e.2.size)

/-- Replaces a variable by a term in every equation. -/
def replace (eqs : Equations) (v : String) (t : Term) : Equations :=
  eqs.map fun e => (e.1.replace v t, e.2.replace v t)

/-- The quantity that shrinks while equations are solved. -/
def weight (eqs : Equations) : Nat × Nat :=
  (distinctCount eqs.vars, eqs.size)

theorem mem_vars {eqs : Equations} {v : String} :
    v ∈ vars eqs ↔ ∃ e ∈ eqs, v ∈ e.1.vars ∨ v ∈ e.2.vars := by
  simp [vars]

/-- Every term has a symbol. -/
theorem size_pos (t : Term) : 0 < t.size := by
  cases t <;> simp

/-- Fewer symbols over no more variables weigh less. -/
theorem weight_lt {eqs eqs' : Equations} (hvars : vars eqs ⊆ vars eqs')
    (hsize : size eqs < size eqs') : Prod.Lex (· < ·) (· < ·) (weight eqs) (weight eqs') := by
  rcases Nat.lt_or_eq_of_le (distinctCount_le hvars) with h | h
  · exact Prod.Lex.left _ _ h
  · rw [weight, weight, h]
    exact Prod.Lex.right _ hsize

/-- Dropping an equation makes the rest weigh less. -/
theorem weight_tail (e : Term × Term) (eqs : Equations) :
    Prod.Lex (· < ·) (· < ·) (weight eqs) (weight (e :: eqs)) := by
  refine weight_lt (fun v hv => ?_) ?_
  · simp [vars] at hv ⊢
    exact Or.inr (Or.inr hv)
  · have := size_pos e.1
    simp [size]
    omega

/-- The variables of equations between arguments are those of the arguments. -/
theorem vars_zip_subset (ss ts : List Term) :
    vars (ss.zip ts) ⊆ ss.flatMap Term.vars ++ ts.flatMap Term.vars := by
  intro v hv
  obtain ⟨⟨s, t⟩, hmem, hv⟩ := mem_vars.mp hv
  rcases hv with hv | hv
  · exact List.mem_append_left _ (List.mem_flatMap.mpr ⟨s, (List.of_mem_zip hmem).1, hv⟩)
  · exact List.mem_append_right _ (List.mem_flatMap.mpr ⟨t, (List.of_mem_zip hmem).2, hv⟩)

/-- Equations between arguments have no more symbols than the arguments. -/
theorem size_zip_le (ss ts : List Term) :
    size (ss.zip ts) ≤ total (ss.map Term.size) + total (ts.map Term.size) := by
  induction ss generalizing ts with
  | nil => simp [size]
  | cons s ss ih =>
    cases ts with
    | nil => simp [size]
    | cons t ts =>
      have := ih ts
      simp [size] at this ⊢
      omega

/-- Equations between arguments weigh less than the equation between the applications. -/
theorem weight_zip (f g : String) (ss ts : List Term) (eqs : Equations) :
    Prod.Lex (· < ·) (· < ·) (weight (ss.zip ts ++ eqs))
      (weight ((.app f ss, .app g ts) :: eqs)) := by
  refine weight_lt (fun v hv => ?_) ?_
  · simp only [vars, List.flatMap_append, List.mem_append] at hv
    simp only [vars, List.flatMap_cons, List.mem_append, Term.vars_app]
    rcases hv with hv | hv
    · exact Or.inl (List.mem_append.mp (vars_zip_subset ss ts hv))
    · exact Or.inr hv
  · have := size_zip_le ss ts
    simp [size] at this ⊢
    omega

/-- Replacing a variable by a term without it removes the variable and adds none. -/
theorem mem_vars_replace {eqs : Equations} {v w : String} {t : Term}
    (hw : w ∈ vars (replace eqs v t)) : (w ∈ vars eqs ∧ w ≠ v) ∨ w ∈ t.vars := by
  have key : ∀ u : Term, w ∈ (u.replace v t).vars → (w ∈ u.vars ∧ w ≠ v) ∨ w ∈ t.vars := by
    intro u hu
    obtain ⟨x, hx, hwx⟩ := Term.mem_vars_subst.mp hu
    rw [Term.binding] at hwx
    split at hwx
    case isTrue => exact Or.inr hwx
    case isFalse hne =>
      obtain rfl := List.mem_singleton.mp hwx
      exact Or.inl ⟨hx, hne⟩
  obtain ⟨e', he', hw⟩ := mem_vars.mp hw
  obtain ⟨e, he, rfl⟩ := List.mem_map.mp he'
  rcases hw with hw | hw
  · exact (key e.1 hw).imp_left fun h => ⟨mem_vars.mpr ⟨e, he, Or.inl h.1⟩, h.2⟩
  · exact (key e.2 hw).imp_left fun h => ⟨mem_vars.mpr ⟨e, he, Or.inr h.1⟩, h.2⟩

/-- Eliminating a variable makes the rest weigh less. -/
theorem weight_replace {v : String} {t : Term} (hv : v ∉ t.vars) {e : Term × Term}
    (he : e = (.var v, t) ∨ e = (t, .var v)) (eqs : Equations) :
    Prod.Lex (· < ·) (· < ·) (weight (replace eqs v t)) (weight (e :: eqs)) := by
  have hvars : ∀ w, w ∈ vars (e :: eqs) ↔ w = v ∨ w ∈ t.vars ∨ w ∈ vars eqs := by
    intro w
    rcases he with rfl | rfl
    · simp [vars]
    · simp only [vars, List.flatMap_cons, List.mem_append, Term.vars_var, List.mem_singleton]
      grind
  refine Prod.Lex.left _ _ (distinctCount_lt (v := v) (fun w hw => ?_) ?_ ?_)
  · rcases mem_vars_replace hw with h | h
    · exact (hvars w).mpr (Or.inr (Or.inr h.1))
    · exact (hvars w).mpr (Or.inr (Or.inl h))
  · exact (hvars v).mpr (Or.inl rfl)
  · intro h
    rcases mem_vars_replace h with h | h
    · exact h.2 rfl
    · exact hv h

/-! ### Solving -/

/-- Solves equations, adding to the bindings already made. -/
def solve : Equations → Substitution → Except Mismatch Substitution
  | [], s => .ok s
  | (a, b) :: rest, s =>
      if a = b then solve rest s
      else
        match a, b with
        | .var v, t =>
            if v ∈ t.vars then .error (.occurs v t) else solve (replace rest v t) (s.bind v t)
        | t, .var v =>
            if v ∈ t.vars then .error (.occurs v t) else solve (replace rest v t) (s.bind v t)
        | .const c, .const d => .error (.symbols c d)
        | .app f ss, .app g ts =>
            if f ≠ g then .error (.symbols f g)
            else if ss.length ≠ ts.length then .error (.arity ss.length ts.length)
            else solve (ss.zip ts ++ rest) s
        | .app f _, .const c => .error (.symbols f c)
        | .const c, .app f _ => .error (.symbols f c)
termination_by eqs => weight eqs
decreasing_by
  · exact weight_tail _ _
  · exact weight_replace (by assumption) (Or.inl rfl) _
  · exact weight_replace (by assumption) (Or.inr rfl) _
  · exact weight_zip _ _ _ _ _

end Equations

/-- A most general unifier of two lists of terms, position by position, or the reason why there is
none. -/
def unify (left right : List Term) : Except Mismatch Substitution :=
  if left.length ≠ right.length then .error (.arity left.length right.length)
  else Equations.solve (left.zip right) .empty

/-- A most general unifier of two terms, or the reason why there is none. -/
def Term.unify (s t : Term) : Except Mismatch Substitution :=
  Equations.solve [(s, t)] .empty

end Clausal
