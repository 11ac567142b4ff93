import Clausal.Formula.Prenex

/-!
# Skolem form

Every existentially bound variable is replaced by a term headed by a symbol of its own: a constant
if no universal binder stands before it, else a function of the variables bound by those.  The
symbols come from a supply that one proof attempt shares among all its formulas, so no symbol is
used twice and none of the formulas' own symbols is used.
-/

namespace Clausal

/-- The supply of Skolem symbols. -/
structure SkolemSupply where
  /-- The number that the next symbol starts looking at. -/
  next : Nat
  /-- The names that may not be used. -/
  reserved : List String
deriving DecidableEq, Inhabited, Repr

namespace SkolemSupply

/-- The supply from which nothing has been taken. -/
def initial : SkolemSupply :=
  { next := 0, reserved := [] }

/-- Keeps the symbols of a formula from being used. -/
def reserve (f : Formula) (supply : SkolemSupply) : SkolemSupply :=
  { supply with reserved := f.symbols ++ supply.reserved }

/-- Takes the first name made of `stem` and a number, counting from `next`, that is not reserved.
Numbers passed over are not used again. -/
def take (stem : String) (supply : SkolemSupply) : String × SkolemSupply :=
  let candidate (k : Nat) : String := stem ++ toString (supply.next + k)
  let k := freshIndex candidate supply.reserved
  (candidate k, { next := supply.next + k + 1, reserved := candidate k :: supply.reserved })

/-- Takes a Skolem term that depends on the given variables. -/
def takeTerm (universals : List String) (supply : SkolemSupply) : Term × SkolemSupply :=
  if universals.isEmpty then
    let (c, supply) := supply.take "C"
    (.const c, supply)
  else
    let (f, supply) := supply.take "f"
    (.app f (universals.map .var), supply)

end SkolemSupply

/-- Replaces the existentially bound variables of a matrix by Skolem terms, binder by binder, where
`universals` are the universally bound variables before. -/
def skolemizeFrom : List Binder → (universals : List String) → Formula → SkolemSupply →
    Prenex × SkolemSupply
  | [], _, matrix, supply => ({ binders := [], matrix }, supply)
  | b :: binders, universals, matrix, supply =>
      match b.quantifier with
      | .universal =>
          let (p, supply) := skolemizeFrom binders (universals ++ [b.var]) matrix supply
          ({ p with binders := b :: p.binders }, supply)
      | .existential =>
          let (t, supply) := supply.takeTerm universals
          skolemizeFrom binders universals (matrix.replace b.var t) supply

/-- The Skolem form of a prenex form, and the supply after it. -/
def Prenex.skolemize (p : Prenex) (supply : SkolemSupply) : Prenex × SkolemSupply :=
  skolemizeFrom p.binders [] p.matrix supply

end Clausal
