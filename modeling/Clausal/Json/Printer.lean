import Clausal.Json.Basic

/-!
# Printing JSON

Values are printed over several lines, two spaces deeper for each array or object that holds them;
an empty array or object stays on one line.  In strings only the quotation mark, the backslash and
the control characters below U+0020 are escaped.
-/

namespace Clausal.Json

/-- The digit for a number below sixteen, in lower case. -/
def hexDigit (n : Nat) : Char :=
  if n < 10 then Char.ofNat (48 + n) else Char.ofNat (87 + n)

/-- The characters that stand for a character inside a string literal. -/
def escapeChar (c : Char) : List Char :=
  if c = '"' then ['\\', '"']
  else if c = '\\' then ['\\', '\\']
  else if c = '\n' then ['\\', 'n']
  else if c = '\t' then ['\\', 't']
  else if c = '\r' then ['\\', 'r']
  else if c = '\x08' then ['\\', 'b']
  else if c = '\x0c' then ['\\', 'f']
  else if c.toNat < 32 then
    ['\\', 'u', '0', '0', hexDigit (c.toNat / 16), hexDigit (c.toNat % 16)]
  else [c]

/-- A text as a string literal. -/
def quote (s : String) : String :=
  String.ofList ('"' :: s.toList.flatMap escapeChar ++ ['"'])

/-- The start of a line at the given depth. -/
def newline (depth : Nat) : String :=
  String.ofList ('\n' :: List.replicate (2 * depth) ' ')

/-- Puts printed items between brackets, each on a line of its own. -/
def enclose (opening closing : String) (depth : Nat) (items : List String) : String :=
  if items.isEmpty then opening ++ closing
  else
    opening ++ newline (depth + 1) ++ ("," ++ newline (depth + 1)).intercalate items ++
      newline depth ++ closing

mutual
/-- The text of a value that stands at the given depth. -/
def printAt : (depth : Nat) → Json → String
  | _, .null => "null"
  | _, .bool b => if b then "true" else "false"
  | _, .natural n => toString n
  | _, .decimal negative significand exponent =>
      (if negative then "-" else "") ++ toString significand ++ "e" ++ toString exponent
  | _, .string s => quote s
  | depth, .array elements => enclose "[" "]" depth (printElements (depth + 1) elements)
  | depth, .object fields => enclose "\x7b" "\x7d" depth (printFields (depth + 1) fields)
  | _, .garbled => "null"
/-- The texts of the elements of an array. -/
def printElements : (depth : Nat) → List Json → List String
  | _, [] => []
  | depth, j :: js => j.printAt depth :: printElements depth js
/-- The texts of the fields of an object. -/
def printFields : (depth : Nat) → List (String × Json) → List String
  | _, [] => []
  | depth, (key, j) :: fields => (quote key ++ ": " ++ j.printAt depth) :: printFields depth fields
end

/-- The text of a value. -/
def print (j : Json) : String :=
  j.printAt 0

end Clausal.Json
