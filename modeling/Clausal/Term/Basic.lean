/-!
# Terms

A term is a variable, a constant or a function applied to a list of terms.  Constants and functions
without arguments are different things: `f()` is not `f`.

Everything computed from a term by recursion goes through one fold, so that each function below has
the equations one expects, with `List.map` on the arguments, and one induction principle serves all
proofs about terms.
-/

namespace Clausal

/-- The sum of numbers. -/
def total (ns : List Nat) : Nat :=
  ns.foldr Nat.add 0

@[simp] theorem total_nil : total [] = 0 := rfl

@[simp] theorem total_cons (n : Nat) (ns : List Nat) : total (n :: ns) = n + total ns := rfl

@[simp] theorem total_append (ms ns : List Nat) : total (ms ++ ns) = total ms + total ns := by
  induction ms with
  | nil => simp
  | cons m ms ih => simp [ih, Nat.add_assoc]

/-- First-order terms. -/
inductive Term where
  | var (name : String)
  | const (name : String)
  | app (fn : String) (args : List Term)
deriving Inhabited, Repr

namespace Term

/-! ### Equality -/

mutual
/-- Terms have decidable equality. -/
def decEq : (s t : Term) → Decidable (s = t)
  | .var v, .var w =>
      if h : v = w then .isTrue (by rw [h]) else .isFalse (fun e => h (Term.var.inj e))
  | .const c, .const d =>
      if h : c = d then .isTrue (by rw [h]) else .isFalse (fun e => h (Term.const.inj e))
  | .app f ss, .app g ts =>
      if h : f = g then
        match decEqList ss ts with
        | .isTrue hs => .isTrue (by rw [h, hs])
        | .isFalse hs => .isFalse (fun e => hs (Term.app.inj e).2)
      else .isFalse (fun e => h (Term.app.inj e).1)
  | .var _, .const _ => .isFalse (fun e => nomatch e)
  | .var _, .app _ _ => .isFalse (fun e => nomatch e)
  | .const _, .var _ => .isFalse (fun e => nomatch e)
  | .const _, .app _ _ => .isFalse (fun e => nomatch e)
  | .app _ _, .var _ => .isFalse (fun e => nomatch e)
  | .app _ _, .const _ => .isFalse (fun e => nomatch e)
/-- Lists of terms have decidable equality. -/
def decEqList : (ss ts : List Term) → Decidable (ss = ts)
  | [], [] => .isTrue rfl
  | [], _ :: _ => .isFalse (fun e => nomatch e)
  | _ :: _, [] => .isFalse (fun e => nomatch e)
  | s :: ss, t :: ts =>
      match decEq s t with
      | .isTrue h =>
          match decEqList ss ts with
          | .isTrue hs => .isTrue (by rw [h, hs])
          | .isFalse hs => .isFalse (fun e => hs (List.cons.inj e).2)
      | .isFalse h => .isFalse (fun e => h (List.cons.inj e).1)
end

instance : DecidableEq Term :=
  decEq

/-! ### Induction and folding -/

/-- Induction on terms: an application may assume the statement of each argument. -/
@[elab_as_elim, induction_eliminator]
theorem induct {motive : Term → Prop} (var : ∀ v, motive (.var v)) (const : ∀ c, motive (.const c))
    (app : ∀ f args, (∀ t ∈ args, motive t) → motive (.app f args)) (t : Term) : motive t :=
  @Term.rec motive (fun args => ∀ t ∈ args, motive t) var const app
    (fun _ h => nomatch h)
    (fun _ _ hhead htail _ hmem => by
      rcases List.mem_cons.mp hmem with rfl | h
      · exact hhead
      · exact htail _ h)
    t

universe u

variable {α : Type u}

mutual
/-- Replaces each constructor of a term by an operation on `α`. -/
def fold (onVar onConst : String → α) (onApp : String → List α → α) : Term → α
  | .var v => onVar v
  | .const c => onConst c
  | .app f args => onApp f (foldList onVar onConst onApp args)
/-- Folds every term of a list. -/
def foldList (onVar onConst : String → α) (onApp : String → List α → α) : List Term → List α
  | [] => []
  | t :: ts => fold onVar onConst onApp t :: foldList onVar onConst onApp ts
end

/-- Folding a list of terms folds each of them. -/
theorem foldList_eq_map (onVar onConst : String → α) (onApp : String → List α → α)
    (ts : List Term) :
    foldList onVar onConst onApp ts = ts.map (fold onVar onConst onApp) := by
  induction ts with
  | nil => rfl
  | cons t ts ih => rw [foldList, ih, List.map_cons]

@[simp] theorem fold_var (onVar onConst : String → α) (onApp : String → List α → α) (v : String) :
    fold onVar onConst onApp (.var v) = onVar v := rfl

@[simp] theorem fold_const (onVar onConst : String → α) (onApp : String → List α → α)
    (c : String) : fold onVar onConst onApp (.const c) = onConst c := rfl

@[simp] theorem fold_app (onVar onConst : String → α) (onApp : String → List α → α) (f : String)
    (args : List Term) :
    fold onVar onConst onApp (.app f args) = onApp f (args.map (fold onVar onConst onApp)) := by
  rw [fold, foldList_eq_map]

/-! ### Variables and symbols -/

/-- The variable occurrences of a term from left to right. -/
def vars : Term → List String :=
  fold (fun v => [v]) (fun _ => []) (fun _ vs => vs.flatten)

@[simp] theorem vars_var (v : String) : (var v).vars = [v] := rfl

@[simp] theorem vars_const (c : String) : (const c).vars = [] := rfl

@[simp] theorem vars_app (f : String) (args : List Term) :
    (app f args).vars = args.flatMap vars := by
  simp [vars, List.flatMap]

/-- The variables of a term in the order of their first occurrence. -/
def distinctVars (t : Term) : List String :=
  t.vars.eraseDups

/-- A term is ground when no variable occurs in it. -/
def isGround (t : Term) : Bool :=
  t.vars.isEmpty

/-- The names of the constants and functions of a term, a function before its arguments. -/
def symbols : Term → List String :=
  fold (fun _ => []) (fun c => [c]) (fun f ss => f :: ss.flatten)

@[simp] theorem symbols_var (v : String) : (var v).symbols = [] := rfl

@[simp] theorem symbols_const (c : String) : (const c).symbols = [c] := rfl

@[simp] theorem symbols_app (f : String) (args : List Term) :
    (app f args).symbols = f :: args.flatMap symbols := by
  simp [symbols, List.flatMap]

/-- The number of variables, constants and functions in a term. -/
def size : Term → Nat :=
  fold (fun _ => 1) (fun _ => 1) (fun _ ns => total ns + 1)

@[simp] theorem size_var (v : String) : (var v).size = 1 := rfl

@[simp] theorem size_const (c : String) : (const c).size = 1 := rfl

@[simp] theorem size_app (f : String) (args : List Term) :
    (app f args).size = total (args.map size) + 1 := by
  simp [size]

/-! ### Simultaneous replacement of variables -/

/-- Replaces every variable of a term at once, by the term that `σ` gives for it. -/
def subst (σ : String → Term) : Term → Term :=
  fold σ .const .app

@[simp] theorem subst_var (σ : String → Term) (v : String) : (var v).subst σ = σ v := rfl

@[simp] theorem subst_const (σ : String → Term) (c : String) : (const c).subst σ = const c := rfl

@[simp] theorem subst_app (σ : String → Term) (f : String) (args : List Term) :
    (app f args).subst σ = app f (args.map (subst σ)) := by
  simp [subst]

/-- The assignment that gives `r` for the variable `v` and leaves all others. -/
def binding (v : String) (r : Term) (w : String) : Term :=
  if w = v then r else .var w

/-- Replaces one variable of a term by another term. -/
def replace (t : Term) (v : String) (r : Term) : Term :=
  t.subst (binding v r)

/-- Renames every variable of a term at once. -/
def rename (ρ : String → String) (t : Term) : Term :=
  t.subst (fun v => .var (ρ v))

/-- Replacement depends only on the variables that occur. -/
theorem subst_congr {σ τ : String → Term} {t : Term} (h : ∀ v ∈ t.vars, σ v = τ v) :
    t.subst σ = t.subst τ := by
  induction t with
  | var v => simpa using h
  | const c => rfl
  | app f args ih =>
    simp only [subst_app, app.injEq, true_and]
    refine List.map_congr_left (fun t ht => ih t ht (fun v hv => h v ?_))
    simpa using ⟨t, ht, hv⟩

/-- The variables after a replacement are those of the terms put in. -/
theorem mem_vars_subst {σ : String → Term} {t : Term} {w : String} :
    w ∈ (t.subst σ).vars ↔ ∃ v ∈ t.vars, w ∈ (σ v).vars := by
  induction t with
  | var v => simp
  | const c => simp
  | app f args ih =>
    simp only [subst_app, vars_app, List.mem_flatMap, List.mem_map]
    constructor
    · rintro ⟨_, ⟨t, ht, rfl⟩, hw⟩
      obtain ⟨v, hv, hwv⟩ := (ih t ht).mp hw
      exact ⟨v, ⟨t, ht, hv⟩, hwv⟩
    · rintro ⟨v, ⟨t, ht, hv⟩, hwv⟩
      exact ⟨_, ⟨t, ht, rfl⟩, (ih t ht).mpr ⟨v, hv, hwv⟩⟩

/-! ### Text -/

/-- The text of a term: `x`, `A`, `f(x, A)`, and `f()` for a function without arguments. -/
def text : Term → String :=
  fold id id (fun f args => f ++ "(" ++ ", ".intercalate args ++ ")")

@[simp] theorem text_var (v : String) : (var v).text = v := rfl

@[simp] theorem text_const (c : String) : (const c).text = c := rfl

@[simp] theorem text_app (f : String) (args : List Term) :
    (app f args).text = f ++ "(" ++ ", ".intercalate (args.map text) ++ ")" := by
  simp [text]

end Term

end Clausal
