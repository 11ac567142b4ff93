import Clausal.OneWayMatch

/-!
# Redundant clauses

A clause adds nothing to a search if it is a tautology or if a known clause subsumes it.  Full
subsumption asks for an instance of the known clause whose literals are distinct literals of the
new one; exact subsumption asks for the same literals.
-/

namespace Clausal

/-- How a known clause is compared with a new one. -/
inductive SubsumptionMode where
  | exact
  | full
deriving DecidableEq, Inhabited, Repr

namespace Clause

/-- Whether a literal list holds an atom with both signs. -/
def hasComplementaryPair : List Literal → Bool
  | [] => false
  | l :: ls => ls.contains l.complement || hasComplementaryPair ls

/-- A clause that holds an atom with both signs is true whatever it is read about. -/
def isTautology (c : Clause) : Bool :=
  hasComplementaryPair c.literals

/-- Each member of a list with the list of the others. -/
def selections {α : Type} : List α → List (α × List α)
  | [] => []
  | a :: as => (a, as) :: (selections as).map fun (b, bs) => (b, a :: bs)

/-- Whether the literals can be matched, one after the other, against distinct targets. -/
def embeds : List Literal → (targets : List Literal) → Substitution → Bool
  | [], _, _ => true
  | l :: ls, targets, s =>
      (selections targets).any fun (target, others) =>
        match l.matchOnto target s with
        | .success s => embeds ls others s
        | .failure _ _ => false

/-- Full subsumption: some instance of `c` has its literals among those of `d`, at distinct
places. -/
def subsumes (c d : Clause) : Bool :=
  c.literals.length ≤ d.literals.length && embeds c.literals d.literals .empty

/-- Subsumption in the given mode. -/
def subsumesIn (mode : SubsumptionMode) (c d : Clause) : Bool :=
  match mode with
  | .exact => c.sameLiterals d
  | .full => c.subsumes d

end Clause

/-- Why a clause adds nothing. -/
inductive Redundancy where
  | tautology
  /-- The clause is subsumed by the known clause with this number. -/
  | subsumed (id : Nat)
deriving DecidableEq, Repr

/-- The text of a reason. -/
def Redundancy.text : Redundancy → String
  | .tautology => "tautology"
  | .subsumed id => "subsumed by clause " ++ toString id

/-- Why a clause adds nothing to the known ones, if it does not; the first known clause that
subsumes it is named. -/
def Clause.redundancy? (mode : SubsumptionMode) (known : Array Clause) (c : Clause) :
    Option Redundancy :=
  if c.isTautology then some .tautology
  else (known.findIdx? (·.subsumesIn mode c)).map .subsumed

end Clausal
