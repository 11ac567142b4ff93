import Clausal.Symbol

/-!
# Statements

A statement is a formula as it is written: it keeps where the quantifiers and negations stood and
the argument text of each predicate.  A quantifier written directly before a predicate belongs to
that atom; every other node carries its own negation and its own run of quantifiers over one or two
operands.

A node may lack what would make it a formula, a right operand without a connective or a connective
without a right operand.  Such statements can be written down and printed; only lowering them to a
formula fails.
-/

namespace Clausal

/-- A predicate as it is written. -/
structure WrittenAtom where
  /-- The quantifier directly before the predicate; it stands outside the negation. -/
  binder : Option Binder
  negated : Bool
  name : String
  /-- The text between the parentheses, and nothing for a bare name. -/
  arguments : Option String
deriving DecidableEq, Inhabited, Repr

/-- The text of a written atom. -/
def WrittenAtom.text (a : WrittenAtom) : String :=
  (a.binder.map Binder.text).getD "" ++ (if a.negated then "¬" else "") ++ a.name ++
    (match a.arguments with
      | some arguments => "(" ++ arguments ++ ")"
      | none => "")

/-- A formula as it is written. -/
inductive Statement where
  | atom (a : WrittenAtom)
  /-- A node with one operand; it is well formed if there is no connective. -/
  | scoped (negated : Bool) (binders : List Binder) (connective : Option Connective)
      (operand : Statement)
  /-- A node with two operands; it is well formed if there is a connective. -/
  | joined (negated : Bool) (binders : List Binder) (connective : Option Connective)
      (left right : Statement)
deriving DecidableEq, Inhabited, Repr

namespace Statement

/-- The statement that two others are joined by a connective. -/
def join (c : Connective) (left right : Statement) : Statement :=
  .joined false [] (some c) left right

/-- Whether a statement is a single predicate. -/
def isAtom : Statement → Bool
  | .atom _ => true
  | _ => false

/-- The negation of a statement.  A quantifier that belongs to an atom stands outside the atom's
negation, so it changes to its dual. -/
def negate : Statement → Statement
  | .atom a => .atom { a with negated := !a.negated, binder := a.binder.map Binder.dual }
  | .scoped negated binders connective operand =>
      .scoped (!negated) binders connective operand
  | .joined negated binders connective left right =>
      .joined (!negated) binders connective left right

/-- The statement that a run of binders, `first` and then `more`, governs `body`.  A single binder
before a predicate without parentheses and without a binder of its own belongs to that atom; a node
that is not negated takes the run in front of its own. -/
def bind (first : Binder) (more : List Binder) (parenthesized : Bool) : Statement → Statement
  | .atom a =>
      if more.isEmpty && !parenthesized && a.binder.isNone then
        .atom { a with binder := some first }
      else .scoped false (first :: more) none (.atom a)
  | .scoped false binders connective operand =>
      .scoped false (first :: more ++ binders) connective operand
  | .joined false binders connective left right =>
      .joined false (first :: more ++ binders) connective left right
  | body => .scoped false (first :: more) none body

/-! ### Text -/

/-- The negation and quantifiers in front of a node. -/
def leadText (negated : Bool) (binders : List Binder) : String :=
  (if negated then "¬" else "") ++ String.join (binders.map Binder.text)

/-- Writes what stands in front of a node, which then needs parentheses. -/
def withLead (negated : Bool) (binders : List Binder) (core : String) : String :=
  if !negated && binders.isEmpty then core
  else leadText negated binders ++ "(" ++ core ++ ")"

/-- Whether an operand needs parentheses: it has a connective and nothing in front of it. -/
def needsParentheses : Statement → Bool
  | .atom _ => false
  | .scoped negated binders connective _ => connective.isSome && !negated && binders.isEmpty
  | .joined negated binders connective _ _ => connective.isSome && !negated && binders.isEmpty

/-- The text of a statement. -/
def text : Statement → String
  | .atom a => a.text
  | .scoped negated binders _ operand => withLead negated binders operand.text
  | .joined negated binders (some c) left right =>
      withLead negated binders <|
        (if left.needsParentheses then "(" ++ left.text ++ ")" else left.text) ++
          " " ++ c.text ++ " " ++
          (if right.needsParentheses then "(" ++ right.text ++ ")" else right.text)
  | .joined negated binders none left _ => withLead negated binders left.text

end Statement

end Clausal
