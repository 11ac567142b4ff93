import Clausal.Clause
import Clausal.Formula.Prenex

/-!
# Truth in structures

A structure interprets constants by their names, and functions and predicates by their names and
lists of arguments, over a domain.  Formulas are true or false in a structure under an assignment of
its elements to variables.  A clause is true in a structure when some literal of it is true under
each assignment.

Domains are not empty where that matters: `Satisfiable` asks for an element, and every assignment
gives one.
-/

namespace Clausal

universe u

/-- An interpretation of all names over the domain `D`. -/
structure Structure (D : Type u) where
  const : String → D
  fn : String → List D → D
  pred : String → List D → Prop

variable {D : Type u}

/-- The assignment that gives `d` for the variable `v` and agrees with `ε` on all others. -/
def update (ε : String → D) (v : String) (d : D) (w : String) : D :=
  if w = v then d else ε w

@[simp] theorem update_self (ε : String → D) (v : String) (d : D) : update ε v d v = d := by
  simp [update]

theorem update_of_ne {v w : String} (ε : String → D) (d : D) (h : w ≠ v) :
    update ε v d w = ε w := by
  simp [update, h]

namespace Term

/-- The value of a term. -/
def eval (M : Structure D) (ε : String → D) : Term → D :=
  fold ε M.const M.fn

@[simp] theorem eval_var (M : Structure D) (ε : String → D) (v : String) :
    (var v).eval M ε = ε v := rfl

@[simp] theorem eval_const (M : Structure D) (ε : String → D) (c : String) :
    (const c).eval M ε = M.const c := rfl

@[simp] theorem eval_app (M : Structure D) (ε : String → D) (f : String) (args : List Term) :
    (app f args).eval M ε = M.fn f (args.map (eval M ε)) := by
  simp [eval]

/-- The value of a term depends only on the variables that occur in it. -/
theorem eval_congr {M : Structure D} {ε δ : String → D} {t : Term}
    (h : ∀ v ∈ t.vars, ε v = δ v) : t.eval M ε = t.eval M δ := by
  induction t with
  | var v => simpa using h
  | const c => rfl
  | app f args ih =>
    simp only [eval_app]
    congr 1
    refine List.map_congr_left (fun t ht => ih t ht (fun v hv => h v ?_))
    simpa using ⟨t, ht, hv⟩

/-- To replace variables is to assign them the values of the terms put in. -/
theorem eval_subst (M : Structure D) (ε : String → D) (σ : String → Term) (t : Term) :
    (t.subst σ).eval M ε = t.eval M (fun v => (σ v).eval M ε) := by
  induction t with
  | var v => rfl
  | const c => rfl
  | app f args ih =>
    simp only [subst_app, eval_app, List.map_map]
    congr 1
    exact List.map_congr_left ih

end Term

namespace Literal

/-- A literal is true when its atom is, or is not, according to its sign. -/
def Holds (M : Structure D) (ε : String → D) (l : Literal) : Prop :=
  if l.positive then M.pred l.predicate (l.args.map (Term.eval M ε))
  else ¬ M.pred l.predicate (l.args.map (Term.eval M ε))

/-- The complement of a literal is true exactly when the literal is not. -/
theorem holds_complement (M : Structure D) (ε : String → D) (l : Literal) :
    l.complement.Holds M ε ↔ ¬ l.Holds M ε := by
  cases h : l.positive <;> simp [Holds, complement, h, Classical.not_not]

/-- To replace variables is to assign them the values of the terms put in. -/
theorem holds_subst (M : Structure D) (ε : String → D) (σ : String → Term) (l : Literal) :
    (l.subst σ).Holds M ε ↔ l.Holds M (fun v => (σ v).eval M ε) := by
  have h : Term.eval M ε ∘ Term.subst σ = Term.eval M (fun v => (σ v).eval M ε) :=
    funext (Term.eval_subst M ε σ)
  simp [Holds, subst, h]

end Literal

/-- What a quantifier says of a property of elements. -/
def Quantifier.Says : Quantifier → (D → Prop) → Prop
  | .universal, p => ∀ d, p d
  | .existential, p => ∃ d, p d

namespace Formula

/-- Truth of a formula. -/
def Holds (M : Structure D) : (String → D) → Formula → Prop
  | ε, .atom l => l.Holds M ε
  | ε, .not f => ¬ f.Holds M ε
  | ε, .and f g => f.Holds M ε ∧ g.Holds M ε
  | ε, .or f g => f.Holds M ε ∨ g.Holds M ε
  | ε, .implies f g => f.Holds M ε → g.Holds M ε
  | ε, .quantified q v f => q.Says fun d => f.Holds M (update ε v d)

/-- A formula is closed when it has no free variable. -/
def IsClosed (f : Formula) : Prop :=
  f.freeVars = []

/-- Some structure and assignment make all of the formulas true. -/
def Satisfiable.{v} (fs : List Formula) : Prop :=
  ∃ (D : Type v) (M : Structure D) (ε : String → D), ∀ f ∈ fs, f.Holds M ε

end Formula

/-- The formula that a prenex form stands for. -/
def Prenex.formula (p : Prenex) : Formula :=
  .bindAll p.binders p.matrix

namespace Clause

/-- A clause is true when under each assignment one of its literals is. -/
def Valid (M : Structure D) (c : Clause) : Prop :=
  ∀ ε : String → D, ∃ l ∈ c.literals, l.Holds M ε

/-- Some structure, with an element, makes all of the clauses true. -/
def Satisfiable.{v} (cs : List Clause) : Prop :=
  ∃ (D : Type v) (M : Structure D), Nonempty D ∧ ∀ c ∈ cs, c.Valid M

/-- The empty clause is true only in a structure without elements. -/
theorem not_valid_of_isEmpty (M : Structure D) (d : D) {c : Clause} (h : c.isEmpty) :
    ¬ c.Valid M := by
  intro hvalid
  obtain ⟨l, hl, -⟩ := hvalid (fun _ => d)
  simp [List.isEmpty_iff.mp h] at hl

end Clause

end Clausal
