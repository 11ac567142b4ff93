import Clausal.Term.Basic
import Clausal.Term.Token

/-!
# Reading terms

Reading turns the tokens of a text into the comma-separated terms they spell.  It walks the tokens
once with a stack of the applications still open, so it recurses on the token list alone.

The arguments of a predicate are first checked for their shape: parentheses must close and no entry
of a list may be empty.  These two faults are reported with the predicate's name; anything else
that is not a term is reported by its text.
-/

namespace Clausal

/-- Why a text is not a term or a list of arguments. -/
inductive TermError where
  /-- The parentheses in a predicate's arguments do not match. -/
  | malformedArguments (predicate arguments : String)
  /-- An entry in a predicate's arguments is empty. -/
  | emptyArgument (predicate : String)
  /-- The text does not spell a term. -/
  | invalidTerm (text : String)
deriving DecidableEq, Repr

/-- The message for each fault. -/
def TermError.message : TermError → String
  | .malformedArguments predicate arguments =>
      "malformed arguments for " ++ predicate ++ ": (" ++ arguments ++ ")"
  | .emptyArgument predicate => "empty argument in " ++ predicate
  | .invalidTerm text => "invalid term: " ++ text

namespace Term

/-- A bare name is a variable if it starts with a lowercase character, else a constant. -/
def ofName (s : String) : Term :=
  match s.toList with
  | [] => .const s
  | c :: _ => if Text.isLowercase c then .var s else .const s

/-- What may come next while a list of terms is read. -/
inductive Expecting where
  | term
  | separator
deriving DecidableEq, Repr

/-- Builds terms from tokens.  `read` holds backwards the terms read so far on the current level;
`outer` holds, for each application still open, its name and the terms before it. -/
def assemble : List Token → Expecting → (outer : List (String × List Term)) →
    (read : List Term) → Option (List Term)
  | [], .separator, [], read => some read.reverse
  | .name s :: rest, .term, outer, read => assemble rest .separator outer (ofName s :: read)
  | .call f :: rest, .term, outer, read => assemble rest .term ((f, read) :: outer) []
  | .comma :: rest, .separator, outer, read => assemble rest .term outer read
  | .close :: rest, .separator, (f, before) :: outer, read =>
      assemble rest .separator outer (.app f read.reverse :: before)
  | _, _, _, _ => none

/-- The terms that a text lists, separated by commas; there is at least one. -/
def listOfText? (s : String) : Option (List Term) :=
  (Token.scan s.toList).bind (assemble · .term [] [])

/-- Reads a single term. -/
def read (s : String) : Except TermError Term :=
  match listOfText? s with
  | some [t] => .ok t
  | _ => .error (.invalidTerm (Text.trim s))

/-! ### Arguments of a predicate -/

/-- The two faults in the shape of an argument list. -/
inductive ShapeFault where
  | unmatchedParenthesis
  | emptyEntry
deriving DecidableEq, Repr

/-- The first fault in the shape of an argument list, read from the left.  `depth` counts the open
parentheses, and `entryEmpty` says that nothing has been seen of the current entry. -/
def shapeFault : List Char → (depth : Nat) → (entryEmpty : Bool) → Option ShapeFault
  | [], depth, entryEmpty =>
      if depth ≠ 0 then some .unmatchedParenthesis
      else if entryEmpty then some .emptyEntry
      else none
  | c :: cs, depth, entryEmpty =>
      if c = '(' then shapeFault cs (depth + 1) true
      else if c = ')' then
        match depth with
        | 0 => some .unmatchedParenthesis
        | depth + 1 => if entryEmpty then some .emptyEntry else shapeFault cs depth false
      else if c = ',' then
        if entryEmpty then some .emptyEntry else shapeFault cs depth true
      else if Text.isBlank c then shapeFault cs depth entryEmpty
      else shapeFault cs depth false

/-- Reads the arguments of a predicate; blank text means that there are none. -/
def readArguments (predicate arguments : String) : Except TermError (List Term) :=
  if arguments.toList.all Text.isBlank then .ok []
  else
    match shapeFault arguments.toList 0 true with
    | some .unmatchedParenthesis => .error (.malformedArguments predicate arguments)
    | some .emptyEntry => .error (.emptyArgument predicate)
    | none =>
        match listOfText? arguments with
        | some ts => .ok ts
        | none => .error (.invalidTerm (Text.trim arguments))

end Term

end Clausal
