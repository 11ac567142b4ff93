import Clausal.Clause

/-!
# Substitutions

A substitution is a list of bindings of variables to terms in the order in which they were made.
It is read as a chain: a term bound to a variable may itself contain bound variables, which are
looked up in turn.  Applying a substitution follows these chains to their ends.  Should a chain
come back to a variable that is being looked up already, that variable is left as it is, so
application ends on every substitution.
-/

namespace Clausal

/-- Bindings of variables to terms, the oldest first. -/
structure Substitution where
  bindings : List (String × Term)
deriving DecidableEq, Inhabited, Repr

namespace Substitution

/-- The substitution without bindings. -/
def empty : Substitution :=
  { bindings := [] }

/-- The number of bindings. -/
def size (s : Substitution) : Nat :=
  s.bindings.length

/-- The term bound to a variable. -/
def get? (s : Substitution) (v : String) : Option Term :=
  s.bindings.lookup v

/-- Binds `v` to `t` in a list of bindings, at the place of its old binding if it has one. -/
def insertBinding (v : String) (t : Term) : List (String × Term) → List (String × Term)
  | [] => [(v, t)]
  | (w, u) :: rest => if w = v then (v, t) :: rest else (w, u) :: insertBinding v t rest

/-- Binds a variable.  A variable that is bound already keeps its place and gets the new term. -/
def bind (s : Substitution) (v : String) (t : Term) : Substitution :=
  { bindings := insertBinding v t s.bindings }

/-- Keeps the `n` oldest bindings. -/
def truncate (s : Substitution) (n : Nat) : Substitution :=
  { bindings := s.bindings.take n }

/-! ### Looking up -/

/-- Follows the binding of a variable at most `hops` times. -/
def walkFrom (s : Substitution) : (hops : Nat) → Term → Term
  | hops + 1, .var v =>
      match s.get? v with
      | some t => walkFrom s hops t
      | none => .var v
  | _, t => t

/-- Follows a variable through its bindings until something else than a bound variable comes; on a
cycle of variables the walk ends after one hop more than there are bindings. -/
def walk (s : Substitution) (t : Term) : Term :=
  s.walkFrom (s.size + 1) t

/-- The term that a variable stands for when the bindings in `available` are followed to their
ends.  While a variable is looked up its own binding is not available, and at most `n` bindings
are followed in a row. -/
def valueFrom : (n : Nat) → (available : List (String × Term)) → String → Term
  | 0, _, v => .var v
  | n + 1, available, v =>
      match available.lookup v with
      | some t => t.subst (valueFrom n (available.filter (·.1 ≠ v)))
      | none => .var v

/-- The term that a variable stands for.  Following a binding uses it up, so there is no need to
follow more than there are. -/
def value (s : Substitution) (v : String) : Term :=
  valueFrom s.size s.bindings v

/-- Applies a substitution to a term. -/
def apply (s : Substitution) (t : Term) : Term :=
  t.subst s.value

/-- Applies a substitution to a literal. -/
def applyLiteral (s : Substitution) (l : Literal) : Literal :=
  l.subst s.value

/-- Applies a substitution to a clause.  Literals that become equal collapse, and the result is a
new clause without a number. -/
def applyClause (s : Substitution) (c : Clause) : Clause :=
  Clause.ofLiterals (c.literals.map s.applyLiteral) c.provenance

/-- The substitution with every bound term replaced by what it stands for. -/
def resolved (s : Substitution) : Substitution :=
  { bindings := s.bindings.map fun (v, t) => (v, s.apply t) }

/-! ### Text -/

/-- The bound variables with the texts of the terms they stand for. -/
def texts (s : Substitution) : List (String × String) :=
  s.resolved.bindings.map fun (v, t) => (v, t.text)

/-- The text of a substitution, such as `{x/A, y/f(A)}`. -/
def text (s : Substitution) : String :=
  "\x7b" ++ ", ".intercalate (s.texts.map fun (v, t) => v ++ "/" ++ t) ++ "\x7d"

end Substitution

end Clausal
