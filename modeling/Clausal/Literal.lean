import Clausal.Term.Basic

/-!
# Literals

A literal is a predicate applied to terms, or the negation of one.
-/

namespace Clausal

/-- A predicate applied to terms, with a sign. -/
structure Literal where
  predicate : String
  args : List Term
  positive : Bool
deriving DecidableEq, Inhabited, Repr

namespace Literal

/-- The same atom with the opposite sign. -/
def complement (l : Literal) : Literal :=
  { l with positive := !l.positive }

@[simp] theorem complement_complement (l : Literal) : l.complement.complement = l := by
  simp [complement]

/-- The variable occurrences of a literal from left to right. -/
def vars (l : Literal) : List String :=
  l.args.flatMap Term.vars

/-- The names of the constants and functions of a literal. -/
def symbols (l : Literal) : List String :=
  l.args.flatMap Term.symbols

/-- Replaces every variable of a literal at once. -/
def subst (σ : String → Term) (l : Literal) : Literal :=
  { l with args := l.args.map (Term.subst σ) }

/-- Replaces one variable of a literal by a term. -/
def replace (l : Literal) (v : String) (r : Term) : Literal :=
  l.subst (Term.binding v r)

/-- Renames every variable of a literal at once. -/
def rename (ρ : String → String) (l : Literal) : Literal :=
  l.subst (fun v => .var (ρ v))

/-- Whether two literals are opposite in sign and agree in predicate and number of arguments, as
the two literals of a resolution step must. -/
def opposes (l m : Literal) : Bool :=
  l.positive != m.positive && l.predicate == m.predicate && l.args.length == m.args.length

/-- The text of a literal: `P(x, A)`, `¬P(x, A)`, and the bare name if there are no arguments. -/
def text (l : Literal) : String :=
  (if l.positive then "" else "¬") ++ l.predicate ++
    (if l.args.isEmpty then "" else "(" ++ ", ".intercalate (l.args.map Term.text) ++ ")")

end Literal

end Clausal
