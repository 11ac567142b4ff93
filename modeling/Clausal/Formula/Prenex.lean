import Clausal.Formula.NegationNormal
import Clausal.Text.FreshName

/-!
# Prenex form

A prenex form is a list of binders over a formula without quantifiers.  The binders of a formula in
negation normal form are pulled to the front from left to right, an outer one before those inside
it.  A bound variable whose name is already in use, by a free variable or by a binder pulled
before, is given a fresh name first.
-/

namespace Clausal

/-- Binders over a matrix, the outermost first. -/
structure Prenex where
  binders : List Binder
  matrix : Formula
deriving DecidableEq, Inhabited, Repr

namespace Formula

/-- The first of the names `v1`, `v2`, … that is not taken. -/
def freshVariant (v : String) (taken : List String) : String :=
  freshName (fun k => v ++ toString (k + 1)) taken

/-- Pulls the quantifiers of a formula without negations and implications to the front.  Returns
the prenex form and the names then in use, given those in use before. -/
def pullQuantifiers : Formula → (taken : List String) → Prenex × List String
  | .quantified q v f, taken =>
      let w := if v ∈ taken then freshVariant v taken else v
      let body := if v ∈ taken then f.replace v (.var w) else f
      let (p, taken) := pullQuantifiers body (w :: taken)
      ({ p with binders := { quantifier := q, var := w } :: p.binders }, taken)
  | .and f g, taken =>
      let (p, taken) := pullQuantifiers f taken
      let (r, taken) := pullQuantifiers g taken
      ({ binders := p.binders ++ r.binders, matrix := .and p.matrix r.matrix }, taken)
  | .or f g, taken =>
      let (p, taken) := pullQuantifiers f taken
      let (r, taken) := pullQuantifiers g taken
      ({ binders := p.binders ++ r.binders, matrix := .or p.matrix r.matrix }, taken)
  | f, taken => ({ binders := [], matrix := f }, taken)
termination_by f => f.size
decreasing_by
  · split <;> simp [size]
  all_goals simp only [size]; omega

/-- The prenex form of a formula. -/
def toPrenex (f : Formula) : Prenex :=
  let g := f.eliminateImplications.pushNegations
  (g.pullQuantifiers g.freeVars).1

end Formula

namespace Prenex

/-- Renames every variable `v`, bound or free, to `v_index`, so that formulas with different
indices share no variable. -/
def standardize (index : Nat) (p : Prenex) : Prenex :=
  let rename (v : String) : String := v ++ "_" ++ toString index
  { binders := p.binders.map fun b => { b with var := rename b.var }
    matrix := p.matrix.mapLiterals (Literal.rename rename) }

end Prenex

end Clausal
