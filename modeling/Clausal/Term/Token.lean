import Clausal.Text.Character

/-!
# Tokens of term text

Term text is a sequence of names, commas and parentheses with spacing between them.  An opening
parenthesis belongs to the name that stands directly before it, so a name followed by one is a
token of its own kind, and a parenthesis after anything else is not part of a term.
-/

namespace Clausal

/-- The pieces that term text is made of. -/
inductive Token where
  /-- A name that stands alone. -/
  | name (s : String)
  /-- A name directly followed by `(`. -/
  | call (s : String)
  | comma
  | close
deriving DecidableEq, Repr

namespace Token

/-- The characters that may stand between tokens: space, tab, line feed and carriage return. -/
def isSpacing (c : Char) : Bool :=
  c == ' ' || c == '\t' || c == '\n' || c == '\r'

/-- Puts the word read so far, given backwards, in front of the tokens after it. -/
def endWord (word : List Char) (tokens : List Token) : List Token :=
  if word.isEmpty then tokens else .name (String.ofList word.reverse) :: tokens

/-- The tokens of a text, where `word` holds backwards the characters of the name just being read.
There are none if a character cannot stand in term text. -/
def scanFrom : (word : List Char) → List Char → Option (List Token)
  | word, [] => some (endWord word [])
  | word, c :: cs =>
      if Text.isWordChar c then scanFrom (c :: word) cs
      else if c = '(' then
        if word.isEmpty then none
        else (scanFrom [] cs).map (.call (String.ofList word.reverse) :: ·)
      else if c = ',' then (scanFrom [] cs).map (endWord word <| .comma :: ·)
      else if c = ')' then (scanFrom [] cs).map (endWord word <| .close :: ·)
      else if isSpacing c then (scanFrom [] cs).map (endWord word)
      else none

/-- The tokens of a text. -/
def scan (cs : List Char) : Option (List Token) :=
  scanFrom [] cs

end Token

end Clausal
