import Clausal.Symbol
import Clausal.Text.Character

/-!
# Stretches of formula text

A span is a stretch of the text together with the position of its first character, so that faults
found inside it can be reported in positions of the whole text.  Grouping is by parentheses alone;
the functions here find partners of parentheses and the first connective outside all of them.
-/

namespace Clausal

/-- A stretch of text and the position where it starts. -/
structure Span where
  start : Nat
  chars : List Char
deriving DecidableEq, Repr

namespace Span

/-- The position after the last character of a span. -/
def stop (s : Span) : Nat :=
  s.start + s.chars.length

/-- The span from its first character that is not blank. -/
def trimStart (s : Span) : Span :=
  { start := s.start + (s.chars.takeWhile Text.isBlank).length, chars := Text.trimStart s.chars }

/-- The span without the blank characters around it. -/
def trim (s : Span) : Span :=
  { s.trimStart with chars := Text.trimEnd s.trimStart.chars }

/-- The position of the first `)` without a partner, and otherwise of the leftmost `(` without
one.  `position` is that of the next character, and `opened` holds the positions of the open
parentheses, the innermost first. -/
def unmatchedFrom : List Char → (position : Nat) → (opened : List Nat) → Option Nat
  | [], _, opened => opened.getLast?
  | c :: cs, position, opened =>
      if c = '(' then unmatchedFrom cs (position + 1) (position :: opened)
      else if c = ')' then
        match opened with
        | [] => some position
        | _ :: outer => unmatchedFrom cs (position + 1) outer
      else unmatchedFrom cs (position + 1) opened

/-- The position of the parenthesis to blame if parentheses do not match. -/
def unmatched? (s : Span) : Option Nat :=
  unmatchedFrom s.chars s.start []

/-- The index of the `)` that closes `depth` open parentheses and those opened on the way, where
`index` is that of the next character. -/
def closingFrom : List Char → (depth index : Nat) → Option Nat
  | [], _, _ => none
  | c :: cs, depth, index =>
      if c = '(' then closingFrom cs (depth + 1) (index + 1)
      else if c = ')' then
        match depth with
        | 0 => none
        | 1 => some index
        | depth + 2 => closingFrom cs (depth + 1) (index + 1)
      else closingFrom cs depth (index + 1)

/-- The index of the `)` that closes the parenthesis at the start of the text. -/
def closing? (cs : List Char) : Option Nat :=
  closingFrom cs 0 0

/-- What stands inside the parentheses if one pair of them encloses the whole span. -/
def enclosed? (s : Span) : Option Span :=
  match s.chars with
  | '(' :: rest =>
      if closing? s.chars = some rest.length then
        some { start := s.start + 1, chars := rest.dropLast }
      else none
  | _ => none

/-- The index of the first connective outside all parentheses, and the connective; `depth` counts
the parentheses open before the text, and `index` is that of the next character. -/
def connectiveFrom : List Char → (depth index : Nat) → Option (Nat × Connective)
  | [], _, _ => none
  | c :: cs, depth, index =>
      if c = '(' then connectiveFrom cs (depth + 1) (index + 1)
      else if c = ')' then connectiveFrom cs (depth - 1) (index + 1)
      else if depth = 0 then
        match Connective.ofSymbol? c with
        | some op => some (index, op)
        | none => connectiveFrom cs depth (index + 1)
      else connectiveFrom cs depth (index + 1)

/-- The parts of a span before and after its first connective outside all parentheses, and the
connective. -/
def splitConnective? (s : Span) : Option (Span × Connective × Span) :=
  (connectiveFrom s.chars 0 0).map fun (index, op) =>
    ({ start := s.start, chars := s.chars.take index }, op,
      { start := s.start + index + 1, chars := s.chars.drop (index + 1) })

end Span

end Clausal
