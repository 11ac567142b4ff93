import Clausal.Json.Basic

/-!
# Reading JSON

The reader follows the grammar of JSON strictly: no trailing commas, no comments, no leading zeros,
no control characters inside strings, and nothing after the value but spacing.

Each call of the recursive reader moves on by a character or goes from a list to its first element,
so twice the length of the text bounds the calls that can be nested.
-/

namespace Clausal.Json

/-! ### Spacing and strings -/

/-- The characters that may stand between tokens. -/
def isSpacing (c : Char) : Bool :=
  c == ' ' || c == '\t' || c == '\n' || c == '\r'

/-- The text from its first character that is not spacing. -/
def skipSpacing (cs : List Char) : List Char :=
  cs.dropWhile isSpacing

/-- What a string literal is made of: characters, and code units written in hexadecimal. -/
inductive Piece where
  | char (c : Char)
  | unit (n : Nat)
deriving DecidableEq, Repr

/-- The value of a hexadecimal digit. -/
def hexValue? (c : Char) : Option Nat :=
  if '0' ≤ c ∧ c ≤ '9' then some (c.toNat - 48)
  else if 'a' ≤ c ∧ c ≤ 'f' then some (c.toNat - 87)
  else if 'A' ≤ c ∧ c ≤ 'F' then some (c.toNat - 55)
  else none

/-- The code unit of four hexadecimal digits. -/
def codeUnit? (a b c d : Char) : Option Nat := do
  return (((← hexValue? a) * 16 + (← hexValue? b)) * 16 + (← hexValue? c)) * 16 + (← hexValue? d)

/-- The character that a backslash and this one stand for. -/
def unescape? (c : Char) : Option Char :=
  if c = '"' ∨ c = '\\' ∨ c = '/' then some c
  else if c = 'b' then some '\x08'
  else if c = 'f' then some '\x0c'
  else if c = 'n' then some '\n'
  else if c = 'r' then some '\r'
  else if c = 't' then some '\t'
  else none

/-- Reads a string literal after its opening quotation mark. -/
def readPieces : List Char → Option (List Piece × List Char)
  | [] => none
  | '"' :: rest => some ([], rest)
  | '\\' :: 'u' :: a :: b :: c :: d :: rest =>
      match codeUnit? a b c d, readPieces rest with
      | some n, some (pieces, rest) => some (.unit n :: pieces, rest)
      | _, _ => none
  | '\\' :: e :: rest =>
      match unescape? e, readPieces rest with
      | some c, some (pieces, rest) => some (.char c :: pieces, rest)
      | _, _ => none
  | c :: rest =>
      if c.toNat < 32 ∨ c = '\\' then none
      else
        match readPieces rest with
        | some (pieces, rest) => some (.char c :: pieces, rest)
        | none => none

/-- The characters that the pieces denote.  Code units above U+FFFF come in pairs, and there is no
text if half of a pair stands alone. -/
def denote? : List Piece → Option (List Char)
  | [] => some []
  | .char c :: rest => (denote? rest).map (c :: ·)
  | .unit n :: .unit m :: rest =>
      if 0xD800 ≤ n ∧ n < 0xDC00 then
        if 0xDC00 ≤ m ∧ m < 0xE000 then
          (denote? rest).map (Char.ofNat (0x10000 + (n - 0xD800) * 0x400 + (m - 0xDC00)) :: ·)
        else none
      else if 0xDC00 ≤ n ∧ n < 0xE000 then none
      else (denote? (.unit m :: rest)).map (Char.ofNat n :: ·)
  | .unit n :: rest =>
      if 0xD800 ≤ n ∧ n < 0xE000 then none else (denote? rest).map (Char.ofNat n :: ·)

/-- Reads a string literal after its opening quotation mark.  The text is missing if the literal
denotes none. -/
def readString (cs : List Char) : Option (Option String × List Char) :=
  (readPieces cs).map fun (pieces, rest) => ((denote? pieces).map String.ofList, rest)

/-! ### Numbers -/

/-- The number that one more decimal digit makes of `n`. -/
def appendDigit (n : Nat) (d : Char) : Nat :=
  n * 10 + (d.toNat - 48)

/-- The number that decimal digits stand for. -/
def ofDigits (ds : List Char) : Nat :=
  ds.foldl appendDigit 0

/-- Appends digits to `n` as long as the number fits in 64 bits.  Returns it and how many digits
are left over. -/
def leadingDigits (n : Nat) : List Char → Nat × Nat
  | [] => (n, 0)
  | d :: ds =>
      if appendDigit n d < Nat.pow 2 64 then leadingDigits (appendDigit n d) ds
      else (n, ds.length + 1)

/-- Reads one digit or more. -/
def readDigits (cs : List Char) : Option (List Char × List Char) :=
  let ds := cs.takeWhile Char.isDigit
  if ds.isEmpty then none else some (ds, cs.dropWhile Char.isDigit)

/-- Reads the digits before the point, which have no leading zero. -/
def readWhole (cs : List Char) : Option (List Char × List Char) :=
  match readDigits cs with
  | some ('0' :: _ :: _, _) => none
  | r => r

/-- Reads the digits after the point; without a point there are none. -/
def readFraction : List Char → Option (Option (List Char) × List Char)
  | '.' :: rest => (readDigits rest).map fun (ds, rest) => (some ds, rest)
  | cs => some (none, cs)

/-- Reads the exponent, if one is written. -/
def readExponent : List Char → Option (Option Int × List Char)
  | c :: rest =>
      if c = 'e' ∨ c = 'E' then
        match rest with
        | '-' :: rest => (readDigits rest).map fun (ds, rest) => (some (-(ofDigits ds : Int)), rest)
        | '+' :: rest => (readDigits rest).map fun (ds, rest) => (some (ofDigits ds), rest)
        | rest => (readDigits rest).map fun (ds, rest) => (some (ofDigits ds), rest)
      else some (none, c :: rest)
  | [] => some (none, [])

/-- Reads a number without its sign.  Each digit left over makes the number ten times as large, and
each digit after the point a tenth. -/
def readUnsigned (negative : Bool) (cs : List Char) : Option (Json × List Char) := do
  let (whole, rest) ← readWhole cs
  let (fraction, rest) ← readFraction rest
  let (exponent, rest) ← readExponent rest
  let digits := fraction.getD []
  let (significand, dropped) := leadingDigits 0 (whole ++ digits)
  if !negative && fraction.isNone && exponent.isNone && dropped = 0 then
    return (.natural significand, rest)
  else
    return (.decimal negative significand (exponent.getD 0 - digits.length + dropped), rest)

/-- Reads a number. -/
def readNumber : List Char → Option (Json × List Char)
  | '-' :: rest => readUnsigned true rest
  | cs => readUnsigned false cs

/-! ### Values -/

/-- An object of the fields read; it is garbled if a key denotes no text. -/
def ofFields (fields : List (Option String × Json)) : Json :=
  match fields.mapM (fun (key, j) => key.map (·, j)) with
  | some fields => .object fields
  | none => .garbled

/-- Reads what comes first if a text starts with `word`. -/
def keyword (word : String) (j : Json) (cs : List Char) : Option (Json × List Char) :=
  if word.toList.isPrefixOf cs then some (j, cs.drop word.length) else none

mutual
/-- Reads a value, where `fuel` bounds the calls. -/
def readValue : (fuel : Nat) → List Char → Option (Json × List Char)
  | 0, _ => none
  | fuel + 1, cs =>
      match skipSpacing cs with
      | '"' :: rest =>
          (readString rest).map fun (s, rest) => ((s.map Json.string).getD .garbled, rest)
      | '[' :: rest =>
          match skipSpacing rest with
          | ']' :: rest => some (.array [], rest)
          | _ => (readElements fuel rest).map fun (js, rest) => (.array js, rest)
      | '\x7b' :: rest =>
          match skipSpacing rest with
          | '\x7d' :: rest => some (.object [], rest)
          | _ => (readFields fuel rest).map fun (fields, rest) => (ofFields fields, rest)
      | 'n' :: rest => keyword "null" .null ('n' :: rest)
      | 't' :: rest => keyword "true" (.bool true) ('t' :: rest)
      | 'f' :: rest => keyword "false" (.bool false) ('f' :: rest)
      | cs => readNumber cs
/-- Reads one element or more, up to the closing bracket. -/
def readElements : (fuel : Nat) → List Char → Option (List Json × List Char)
  | 0, _ => none
  | fuel + 1, cs =>
      match readValue fuel cs with
      | none => none
      | some (j, rest) =>
          match skipSpacing rest with
          | ',' :: rest => (readElements fuel rest).map fun (js, rest) => (j :: js, rest)
          | ']' :: rest => some ([j], rest)
          | _ => none
/-- Reads one field or more, up to the closing brace. -/
def readFields : (fuel : Nat) → List Char → Option (List (Option String × Json) × List Char)
  | 0, _ => none
  | fuel + 1, cs =>
      match skipSpacing cs with
      | '"' :: rest =>
          match readString rest with
          | none => none
          | some (key, rest) =>
              match skipSpacing rest with
              | ':' :: rest =>
                  match readValue fuel rest with
                  | none => none
                  | some (j, rest) =>
                      match skipSpacing rest with
                      | ',' :: rest =>
                          (readFields fuel rest).map fun (fields, rest) =>
                            ((key, j) :: fields, rest)
                      | '\x7d' :: rest => some ([(key, j)], rest)
                      | _ => none
              | _ => none
      | _ => none
end

/-- The value that a text is, if it is JSON. -/
def parse? (s : String) : Option Json :=
  match readValue (2 * s.length + 2) s.toList with
  | some (j, rest) => if (skipSpacing rest).isEmpty then some j else none
  | none => none

/-! ### Using values -/

/-- The value of the only field with the given key. -/
def uniqueField? (fields : List (String × Json)) (key : String) : Option Json :=
  match fields.filter (·.1 = key) with
  | [(_, j)] => some j
  | _ => none

/-- The values of a record with the given field names.  It is written as an object, whose other
fields are ignored, or as the array of the values in order. -/
def record? (names : List String) : Json → Option (List Json)
  | .object fields => names.mapM (uniqueField? fields)
  | .array elements => if elements.length = names.length then some elements else none
  | _ => none

/-- A natural number of at most 64 bits. -/
def natural? : Json → Option Nat
  | .natural n => if n < Nat.pow 2 64 then some n else none
  | _ => none

/-- A truth value. -/
def bool? : Json → Option Bool
  | .bool b => some b
  | _ => none

/-- A text. -/
def string? : Json → Option String
  | .string s => some s
  | _ => none

/-- An array whose elements are all read by `read`. -/
def array? {α : Type} (read : Json → Option α) : Json → Option (List α)
  | .array elements => elements.mapM read
  | _ => none

/-- An array of exactly two elements. -/
def pair? {α : Type} (read : Json → Option α) (j : Json) : Option (α × α) :=
  match array? read j with
  | some [a, b] => some (a, b)
  | _ => none

end Clausal.Json
