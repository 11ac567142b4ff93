import Clausal.Literal
import Clausal.Symbol

/-!
# Formulas

First-order formulas over literals.  An atom may carry either sign, so a negative literal is a
formula without a negation node.
-/

namespace Clausal

/-- First-order formulas. -/
inductive Formula where
  | atom (l : Literal)
  | not (f : Formula)
  | and (f g : Formula)
  | or (f g : Formula)
  | implies (f g : Formula)
  | quantified (q : Quantifier) (v : String) (f : Formula)
deriving DecidableEq, Inhabited, Repr

namespace Formula

/-- The occurrences of free variables from left to right. -/
def freeVars : Formula → List String
  | .atom l => l.vars
  | .not f => f.freeVars
  | .and f g | .or f g | .implies f g => f.freeVars ++ g.freeVars
  | .quantified _ v f => f.freeVars.filter (· ≠ v)

/-- The names of the constants and functions from left to right. -/
def symbols : Formula → List String
  | .atom l => l.symbols
  | .not f => f.symbols
  | .and f g | .or f g | .implies f g => f.symbols ++ g.symbols
  | .quantified _ _ f => f.symbols

/-- Changes every literal by `h`. -/
def mapLiterals (h : Literal → Literal) : Formula → Formula
  | .atom l => .atom (h l)
  | .not f => .not (f.mapLiterals h)
  | .and f g => .and (f.mapLiterals h) (g.mapLiterals h)
  | .or f g => .or (f.mapLiterals h) (g.mapLiterals h)
  | .implies f g => .implies (f.mapLiterals h) (g.mapLiterals h)
  | .quantified q v f => .quantified q v (f.mapLiterals h)

/-- Replaces the free occurrences of a variable by a term.  Bound variables are not renamed, so a
variable of the term may come under a quantifier of the formula. -/
def replace : Formula → (v : String) → (r : Term) → Formula
  | .atom l, v, r => .atom (l.replace v r)
  | .not f, v, r => .not (f.replace v r)
  | .and f g, v, r => .and (f.replace v r) (g.replace v r)
  | .or f g, v, r => .or (f.replace v r) (g.replace v r)
  | .implies f g, v, r => .implies (f.replace v r) (g.replace v r)
  | .quantified q w f, v, r => .quantified q w (if w = v then f else f.replace v r)

/-- Puts a list of binders in front of a formula, the first outermost. -/
def bindAll (binders : List Binder) (f : Formula) : Formula :=
  binders.foldr (fun b g => .quantified b.quantifier b.var g) f

/-- The number of nodes of a formula. -/
def size : Formula → Nat
  | .atom _ => 1
  | .not f => f.size + 1
  | .and f g | .or f g | .implies f g => f.size + g.size + 1
  | .quantified _ _ f => f.size + 1

/-- Replacing a variable keeps the shape of a formula. -/
@[simp] theorem size_replace (f : Formula) (v : String) (r : Term) :
    (f.replace v r).size = f.size := by
  induction f with
  | atom l => rfl
  | not f ih => simp [replace, size, ih]
  | and f g hf hg => simp [replace, size, hf, hg]
  | or f g hf hg => simp [replace, size, hf, hg]
  | implies f g hf hg => simp [replace, size, hf, hg]
  | quantified q w f ih =>
    by_cases h : w = v <;> simp [replace, size, h, ih]

/-- The text of a formula, with every connective in parentheses. -/
def text : Formula → String
  | .atom l => l.text
  | .not f => "¬(" ++ f.text ++ ")"
  | .and f g => "(" ++ f.text ++ " ∧ " ++ g.text ++ ")"
  | .or f g => "(" ++ f.text ++ " ∨ " ++ g.text ++ ")"
  | .implies f g => "(" ++ f.text ++ " → " ++ g.text ++ ")"
  | .quantified q v f => q.symbol.toString ++ v ++ "(" ++ f.text ++ ")"

end Formula

end Clausal
