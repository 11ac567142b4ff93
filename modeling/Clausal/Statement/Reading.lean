import Clausal.Statement.Basic
import Clausal.Statement.ParseError
import Clausal.Statement.Span

/-!
# Reading statements

A formula text is read from the outside in.  The first connective outside all parentheses splits
it, with no precedence among the three; so a negation or a run of quantifiers binds tighter than
any connective.  What is left is a negation, a quantified formula, a formula in parentheses or a
predicate.

Every negation, quantifier, connective, pair of parentheses and function application is one level
deeper than what contains it, and a text that reaches `maxNesting` levels is refused.  This limit
is also what makes reading end.
-/

namespace Clausal

namespace Statement

/-- The number of levels that no formula text may reach. -/
def maxNesting : Nat := 256

/-- The fault with its position, as the result of reading. -/
def failAt {α : Type} (fault : ParseFault) (position : Nat) : Except ParseError α :=
  .error { fault, position }

/-! ### Predicates -/

/-- The position of the first parenthesis that opens level `maxNesting`, where `nesting` counts the
levels so far and `position` is that of the next character. -/
def tooDeepFrom : List Char → (nesting position : Nat) → Option Nat
  | [], _, _ => none
  | c :: cs, nesting, position =>
      if c = '(' then
        if maxNesting ≤ nesting + 1 then some position
        else tooDeepFrom cs (nesting + 1) (position + 1)
      else if c = ')' then tooDeepFrom cs (nesting - 1) (position + 1)
      else tooDeepFrom cs nesting (position + 1)

/-- Reads what follows the name of a predicate: nothing, or arguments in parentheses.  Returns the
argument text. -/
def readArgumentText (depth : Nat) (s : Span) : Except ParseError (Option String) :=
  match s.chars with
  | [] => .ok none
  | _ :: inner =>
      match Span.closing? s.chars with
      | none => failAt .unbalancedParenthesis s.start
      | some close =>
          let after : Span :=
            { start := s.start + close + 1, chars := s.chars.drop (close + 1) }
          match after.trimStart.chars with
          | c :: _ => failAt (.strayCharacter c) after.trimStart.start
          | [] =>
              let arguments := inner.take (close - 1)
              match tooDeepFrom arguments (depth + 1) (s.start + 1) with
              | some position => failAt .tooDeep position
              | none => .ok (some (Text.trim (String.ofList arguments)))

/-- Reads a predicate: a name of word characters, and arguments in parentheses unless it is
bare. -/
def readAtom (depth : Nat) (s : Span) : Except ParseError WrittenAtom :=
  let name := s.chars.takeWhile (· != '(')
  match (name.zipIdx s.start).find? (fun p => !Text.isWordChar p.1) with
  | some (c, position) => failAt (.strayCharacter c) position
  | none =>
      if name.isEmpty then failAt .missingPredicateName s.start
      else
        (readArgumentText depth
            { start := s.start + name.length, chars := s.chars.drop name.length }).map
          fun arguments =>
            { binder := none, negated := false, name := String.ofList name, arguments }

/-! ### Quantifiers -/

/-- Reads the variable of a quantifier, which is one lowercase character that no other character of
a name follows, and returns it with what comes after. -/
def readBoundVariable (s : Span) : Except ParseError (String × Span) :=
  match s.chars with
  | [] => failAt .badBoundVariable s.start
  | v :: rest =>
      if !Text.isLowercase v then failAt .badBoundVariable s.start
      else
        let after : Span := { start := s.start + 1, chars := rest }
        match rest with
        | [] => .ok (v.toString, after)
        | c :: _ =>
            if Text.isLowercase c || Text.isNumeric c || c == '_' then
              failAt .badBoundVariable after.start
            else .ok (v.toString, after.trimStart)

/-- Reads the binders at the start of a span, each of which takes one of the levels left, and
returns them with the rest. -/
def readBinders : (levels : Nat) → Span → Except ParseError (List Binder × Span)
  | levels, s =>
      match s.chars with
      | [] => .ok ([], s)
      | c :: rest =>
          match Quantifier.ofSymbol? c with
          | none => .ok ([], s)
          | some q =>
              match levels with
              | 0 => failAt .tooDeep s.start
              | levels + 1 => do
                  let (v, after) ← readBoundVariable { start := s.start + 1, chars := rest }
                  let (binders, body) ← readBinders levels after
                  return ({ quantifier := q, var := v } :: binders, body)

/-! ### Statements -/

/-- Reads a span that stands `depth` levels deep. -/
def readSpan (s : Span) (depth : Nat) : Except ParseError Statement :=
  match s.trim.chars with
  | [] => failAt .emptyFormula s.trim.start
  | c :: rest =>
      let start := s.trim.start
      if maxNesting ≤ depth then failAt .tooDeep start
      else
        match s.trim.splitConnective? with
        | some (left, op, right) =>
            if left.trim.chars.isEmpty || right.trim.chars.isEmpty then
              failAt (.missingOperand op) left.stop
            else do
              let l ← readSpan left (depth + 1)
              let r ← readSpan right (depth + 1)
              return join op l r
        | none =>
            if c = '¬' then do
              let body ← readSpan { start := start + 1, chars := rest } (depth + 1)
              return body.negate
            else
              match Quantifier.ofSymbol? c with
              | some q => do
                  let (v, after) ← readBoundVariable { start := start + 1, chars := rest }
                  let (more, body) ← readBinders (maxNesting - (depth + 1)) after
                  let inner ← readSpan body (depth + 1 + more.length)
                  return bind { quantifier := q, var := v } more body.trim.enclosed?.isSome
                    inner
              | none =>
                  match s.trim.enclosed? with
                  | some inside => readSpan inside (depth + 1)
                  | none => (readAtom depth s.trim).map .atom
termination_by maxNesting - depth

/-- Reads a formula text; a blank text holds no statement. -/
def parse (s : String) : Except ParseError (Option Statement) :=
  let whole : Span := { start := 0, chars := s.toList }
  match whole.unmatched? with
  | some position => failAt .unbalancedParenthesis position
  | none =>
      if whole.trim.chars.isEmpty then .ok none else (readSpan whole 0).map some

end Statement

end Clausal
