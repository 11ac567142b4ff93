/-!
# Logical symbols

The quantifiers and binary connectives of formula text, and quantifiers together with the variable
they bind.
-/

namespace Clausal

/-- The two quantifiers. -/
inductive Quantifier where
  | universal
  | existential
deriving DecidableEq, Inhabited, Repr

namespace Quantifier

/-- The symbol a quantifier is written with. -/
def symbol : Quantifier → Char
  | .universal => '∀'
  | .existential => '∃'

/-- The quantifier that a character stands for. -/
def ofSymbol? (c : Char) : Option Quantifier :=
  if c = '∀' then some .universal else if c = '∃' then some .existential else none

/-- The quantifier that takes this one's place under a negation. -/
def dual : Quantifier → Quantifier
  | .universal => .existential
  | .existential => .universal

@[simp] theorem dual_dual (q : Quantifier) : q.dual.dual = q := by
  cases q <;> rfl

@[simp] theorem ofSymbol?_symbol (q : Quantifier) : ofSymbol? q.symbol = some q := by
  cases q <;> rfl

end Quantifier

/-- A quantifier with the variable it binds. -/
structure Binder where
  quantifier : Quantifier
  var : String
deriving DecidableEq, Inhabited, Repr

namespace Binder

/-- The same variable under the dual quantifier. -/
def dual (b : Binder) : Binder :=
  { b with quantifier := b.quantifier.dual }

/-- The text of a binder, such as `∀x`. -/
def text (b : Binder) : String :=
  b.quantifier.symbol.toString ++ b.var

end Binder

/-- The binary connectives. -/
inductive Connective where
  | implies
  | and
  | or
deriving DecidableEq, Inhabited, Repr

namespace Connective

/-- The symbol a connective is written with. -/
def symbol : Connective → Char
  | .implies => '→'
  | .and => '∧'
  | .or => '∨'

/-- The connective that a character stands for. -/
def ofSymbol? (c : Char) : Option Connective :=
  if c = '→' then some .implies
  else if c = '∧' then some .and
  else if c = '∨' then some .or
  else none

/-- The text of a connective. -/
def text (c : Connective) : String :=
  c.symbol.toString

@[simp] theorem ofSymbol?_symbol (c : Connective) : ofSymbol? c.symbol = some c := by
  cases c <;> rfl

end Connective

end Clausal
