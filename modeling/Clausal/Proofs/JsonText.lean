import Mathlib.Tactic.Common
import Clausal.Json.Printer
import Clausal.Json.Reader

/-!
# JSON values and their texts

A value is exact if its numbers are natural numbers of at most 64 bits and all its strings are
texts.  The printed text of an exact value is read as this value, whatever follows it, as long as
that cannot be taken for more digits.

Reading is followed piece by piece.  Every character of a text is read as one piece that denotes it,
whether it was escaped or not.  Arrays and objects are printed as items between brackets, which
`bodyChars` lists in the order in which the reader meets them, each with the spacing before it.
-/

namespace Clausal.Json

/-! ## Strings -/

/-- A piece stands for a character, whatever pieces come after it. -/
def Piece.Denotes (p : Piece) (c : Char) : Prop :=
  ∀ rest, denote? (p :: rest) = (denote? rest).map (c :: ·)

/-- A code unit below the surrogates stands for its own character. -/
lemma denotes_unit {n : ℕ} (hn : n < 0xD800) : (Piece.unit n).Denotes (Char.ofNat n) := by
  intro rest
  have hhigh : ¬ (0xD800 ≤ n ∧ n < 0xDC00) := by omega
  have hlow : ¬ (0xDC00 ≤ n ∧ n < 0xE000) := by omega
  have hlone : ¬ (0xD800 ≤ n ∧ n < 0xE000) := by omega
  cases rest with
  | nil => exact if_neg hlone
  | cons p rest =>
    cases p with
    | char c => exact if_neg hlone
    | unit m => rw [denote?, if_neg hhigh, if_neg hlow]

lemma hexValue?_hexDigit : ∀ n < 16, hexValue? (hexDigit n) = some n := by
  decide

/-- A character with two hexadecimal digits is read from its code unit. -/
lemma codeUnit?_hexDigit {n : ℕ} (hn : n < 256) :
    codeUnit? '0' '0' (hexDigit (n / 16)) (hexDigit (n % 16)) = some n := by
  have hzero : hexValue? '0' = some 0 := by decide
  rw [codeUnit?, hzero, hexValue?_hexDigit _ (by omega), hexValue?_hexDigit _ (by omega)]
  simp
  omega

lemma readPieces_unescape {e c : Char} (h : unescape? e = some c) (rest : List Char) :
    readPieces ('\\' :: e :: rest) = (readPieces rest).map fun x => (.char c :: x.1, x.2) := by
  have hu : e ≠ 'u' := by
    rintro rfl
    cases h
  rw [readPieces]
  · rw [h]
    cases readPieces rest <;> rfl
  · intro a b c d rest' heq
    exact absurd heq hu

lemma readPieces_plain {c : Char} (hquote : c ≠ '"') (hbackslash : c ≠ '\\')
    (hcontrol : ¬ c.toNat < 32) (rest : List Char) :
    readPieces (c :: rest) = (readPieces rest).map fun x => (.char c :: x.1, x.2) := by
  rw [readPieces]
  · rw [if_neg (not_or.mpr ⟨hcontrol, hbackslash⟩)]
    cases readPieces rest <;> rfl
  · exact hquote
  · intro a b d e rest' heq
    exact absurd heq hbackslash
  · intro e rest' heq
    exact absurd heq hbackslash

/-- Every character is read as one piece that denotes it, whether it was escaped or not. -/
lemma exists_piece (c : Char) :
    ∃ p : Piece, p.Denotes c ∧ ∀ rest, readPieces (escapeChar c ++ rest) =
    (readPieces rest).map fun x => (p :: x.1, x.2) := by
  have hchar : (Piece.char c).Denotes c := fun rest => rfl
  unfold escapeChar
  split_ifs with hquote hbackslash hn ht hr hb hf hcontrol
  · exact ⟨.char c, hchar, readPieces_unescape (by subst hquote; decide)⟩
  · exact ⟨.char c, hchar, readPieces_unescape (by subst hbackslash; decide)⟩
  · exact ⟨.char c, hchar, readPieces_unescape (by subst hn; decide)⟩
  · exact ⟨.char c, hchar, readPieces_unescape (by subst ht; decide)⟩
  · exact ⟨.char c, hchar, readPieces_unescape (by subst hr; decide)⟩
  · exact ⟨.char c, hchar, readPieces_unescape (by subst hb; decide)⟩
  · exact ⟨.char c, hchar, readPieces_unescape (by subst hf; decide)⟩
  · refine ⟨.unit c.toNat, ?_, fun rest => ?_⟩
    · have hunit := denotes_unit (n := c.toNat) (by omega)
      rwa [Char.ofNat_toNat] at hunit
    · simp only [List.cons_append, List.nil_append]
      rw [readPieces, codeUnit?_hexDigit (by omega)]
      cases readPieces rest <;> rfl
  · exact ⟨.char c, hchar, readPieces_plain hquote hbackslash hcontrol⟩

/-- The characters between quotation marks are read as pieces that denote them. -/
lemma exists_pieces (cs rest : List Char) :
    ∃ ps, readPieces (cs.flatMap escapeChar ++ '"' :: rest) = some (ps, rest) ∧
      denote? ps = some cs := by
  induction cs with
  | nil => exact ⟨[], rfl, rfl⟩
  | cons c cs ih =>
    obtain ⟨ps, hread, hdenote⟩ := ih
    obtain ⟨p, hp, hpread⟩ := exists_piece c
    refine ⟨p :: ps, ?_, ?_⟩
    · rw [List.flatMap_cons, List.append_assoc, hpread, hread]
      rfl
    · rw [hp, hdenote]
      rfl

/-- A printed string is read as the text it was printed from. -/
lemma readString_quote (s : String) (rest : List Char) :
    ∃ cs, (quote s).toList ++ rest = '"' :: cs ∧ readString cs = some (some s, rest) := by
  refine ⟨s.toList.flatMap escapeChar ++ '"' :: rest, ?_, ?_⟩
  · simp [quote]
  · obtain ⟨ps, hread, hdenote⟩ := exists_pieces s.toList rest
    rw [readString, hread]
    simp [hdenote]

/-! ## Numbers -/

/-- A text that cannot go on with a number. -/
def EndsNumber (rest : List Char) : Prop :=
  ∀ c ∈ rest.head?, c.isDigit = false ∧ c ≠ '.' ∧ c ≠ 'e' ∧ c ≠ 'E'

lemma le_foldl_appendDigit (ds : List Char) (n : ℕ) : n ≤ ds.foldl appendDigit n := by
  induction ds generalizing n with
  | nil => exact Nat.le_refl n
  | cons d ds ih =>
    have hstep : n ≤ appendDigit n d := by
      unfold appendDigit
      omega
    exact Nat.le_trans hstep (ih _)

/-- No digits are left over of a number that fits in 64 bits. -/
lemma leadingDigits_of_lt {ds : List Char} {n : ℕ} (h : ds.foldl appendDigit n < Nat.pow 2 64) :
    leadingDigits n ds = (ds.foldl appendDigit n, 0) := by
  induction ds generalizing n with
  | nil => rfl
  | cons d ds ih =>
    have hstep : appendDigit n d < Nat.pow 2 64 := Nat.lt_of_le_of_lt (le_foldl_appendDigit ds _) h
    rw [leadingDigits, if_pos hstep]
    exact ih h

/-- The digits of a number stand for it. -/
lemma foldl_appendDigit_toDigits (n : ℕ) : (Nat.toDigits 10 n).foldl appendDigit 0 = n := by
  have hsame : appendDigit = fun sofar c => 10 * sofar + (c.toNat - '0'.toNat) := by
    funext sofar c
    rw [appendDigit, Nat.mul_comm]
    rfl
  rw [hsame, ← Nat.ofDigitChars_eq_foldl, Nat.ofDigitChars_ten_toDigits]

/-- The digits of a positive number do not begin with a zero. -/
lemma head?_toDigits_ne_zero {n : ℕ} (hn : 0 < n) : (Nat.toDigits 10 n).head? ≠ some '0' := by
  induction n using Nat.strongRecOn with
  | ind n ih =>
    by_cases hlt : n < 10
    · have hdigit : ∀ m < 10, 0 < m → m.digitChar ≠ '0' := by decide
      rw [Nat.toDigits_of_lt_base hlt]
      intro hhead
      exact hdigit n hlt hn (Option.some.inj hhead)
    · have hhead := ih (n / 10) (by omega) (by omega)
      obtain ⟨d, ds, hcons⟩ := List.exists_cons_of_ne_nil (@Nat.toDigits_ne_nil (n / 10) 10)
      rw [Nat.toDigits_of_base_le (by decide) (by omega)]
      rw [hcons] at hhead ⊢
      exact hhead

/-- The digits of a number have no leading zero. -/
lemma toDigits_ne_cons_cons (n : ℕ) (d : Char) (ds : List Char) :
    Nat.toDigits 10 n ≠ '0' :: d :: ds := by
  intro heq
  rcases Nat.eq_zero_or_pos n with rfl | hn
  · cases heq
  · exact head?_toDigits_ne_zero hn (by rw [heq]; rfl)

/-- A printed number begins with a digit. -/
lemma exists_toDigits_eq_cons (n : ℕ) :
    ∃ d ds, Nat.toDigits 10 n = d :: ds ∧ d.isDigit = true := by
  obtain ⟨d, ds, hcons⟩ := List.exists_cons_of_ne_nil (@Nat.toDigits_ne_nil n 10)
  have hmem : d ∈ Nat.toDigits 10 n := hcons ▸ List.mem_cons_self
  exact ⟨d, ds, hcons, Nat.isDigit_of_mem_toDigits (by decide) (by decide) hmem⟩

/-- All digits of a number are read. -/
lemma readWhole_toDigits (n : ℕ) {rest : List Char} (hrest : EndsNumber rest) :
    readWhole (Nat.toDigits 10 n ++ rest) = some (Nat.toDigits 10 n, rest) := by
  have hdigits : ∀ c ∈ Nat.toDigits 10 n, c.isDigit = true :=
    fun c hc => Nat.isDigit_of_mem_toDigits (by decide) (by decide) hc
  have hstop : rest.takeWhile Char.isDigit = [] ∧ rest.dropWhile Char.isDigit = rest := by
    cases rest with
    | nil => exact ⟨rfl, rfl⟩
    | cons c rest =>
      have hc := (hrest c rfl).1
      exact ⟨List.takeWhile_cons_of_neg (by simp [hc]), List.dropWhile_cons_of_neg (by simp [hc])⟩
  have hread : readDigits (Nat.toDigits 10 n ++ rest) = some (Nat.toDigits 10 n, rest) := by
    unfold readDigits
    rw [List.takeWhile_append_of_pos hdigits, List.dropWhile_append_of_pos hdigits,
      hstop.1, hstop.2, List.append_nil]
    exact if_neg (by simp [Nat.toDigits_ne_nil])
  unfold readWhole
  rw [hread]
  split
  · rename_i d ds rest' heq
    exact absurd (Prod.mk.inj (Option.some.inj heq)).1 (toDigits_ne_cons_cons n d ds)
  · rfl

/-- A printed natural number of at most 64 bits is read as this number. -/
lemma readNumber_toDigits {n : ℕ} (hn : n < Nat.pow 2 64) {rest : List Char}
    (hrest : EndsNumber rest) :
    readNumber (Nat.toDigits 10 n ++ rest) = some (.natural n, rest) := by
  have hfraction : readFraction rest = some (none, rest) := by
    unfold readFraction
    split
    · exact absurd rfl (hrest '.' rfl).2.1
    · rfl
  have hexponent : readExponent rest = some (none, rest) := by
    cases rest with
    | nil => rfl
    | cons c rest =>
      obtain ⟨-, -, he, hE⟩ := hrest c rfl
      exact if_neg (not_or.mpr ⟨he, hE⟩)
  have hleading : leadingDigits 0 (Nat.toDigits 10 n) = (n, 0) := by
    rw [leadingDigits_of_lt (by rwa [foldl_appendDigit_toDigits]), foldl_appendDigit_toDigits]
  have hunsigned : readUnsigned false (Nat.toDigits 10 n ++ rest) = some (.natural n, rest) := by
    simp [readUnsigned, readWhole_toDigits n hrest, hfraction, hexponent, hleading]
  unfold readNumber
  split
  · rename_i rest' heq
    obtain ⟨d, ds, hcons, hd⟩ := exists_toDigits_eq_cons n
    rw [hcons] at heq
    obtain rfl : d = '-' := (List.cons.inj heq).1
    cases hd
  · exact hunsigned

/-! ## Spacing -/

lemma skipSpacing_append {gap : List Char} (hgap : ∀ c ∈ gap, isSpacing c = true) (cs : List Char) :
    skipSpacing (gap ++ cs) = skipSpacing cs :=
  List.dropWhile_append_of_pos hgap

lemma skipSpacing_cons {c : Char} (hc : isSpacing c = false) (cs : List Char) :
    skipSpacing (c :: cs) = c :: cs :=
  List.dropWhile_cons_of_neg (by simp [hc])

lemma isSpacing_of_mem_newline {depth : ℕ} : ∀ c ∈ (newline depth).toList, isSpacing c = true := by
  intro c hc
  rw [newline, String.toList_ofList, List.mem_cons] at hc
  rcases hc with rfl | hc
  · rfl
  · rw [List.eq_of_mem_replicate hc]
    rfl

/-- Spacing before a value makes no difference. -/
lemma readValue_append {gap : List Char} (hgap : ∀ c ∈ gap, isSpacing c = true) (fuel : ℕ)
    (cs : List Char) : readValue fuel (gap ++ cs) = readValue fuel cs := by
  cases fuel with
  | zero => rw [readValue, readValue]
  | succ fuel => rw [readValue, readValue, skipSpacing_append hgap]

lemma endsNumber_cons {c : Char} (hc : c.isDigit = false ∧ c ≠ '.' ∧ c ≠ 'e' ∧ c ≠ 'E')
    (cs : List Char) : EndsNumber (c :: cs) := by
  intro d hd
  obtain rfl := Option.some.inj hd
  exact hc

lemma endsNumber_newline (depth : ℕ) (cs : List Char) :
    EndsNumber ((newline depth).toList ++ cs) := by
  rw [newline, String.toList_ofList, List.cons_append]
  exact endsNumber_cons (by decide) _

/-! ## Values -/

/-- A value whose printed text says all that it holds: its numbers are natural numbers of at most 64
bits, and its strings are texts. -/
inductive IsExact : Json → Prop
  | null : IsExact .null
  | bool (b : Bool) : IsExact (.bool b)
  | natural {n : ℕ} (hn : n < Nat.pow 2 64) : IsExact (.natural n)
  | string (s : String) : IsExact (.string s)
  | array {elements : List Json} (h : ∀ j ∈ elements, IsExact j) : IsExact (.array elements)
  | object {fields : List (String × Json)} (h : ∀ p ∈ fields, IsExact p.2) :
      IsExact (.object fields)

/-- A text is read as a value in front of any text that cannot go on with a number.  The calls that
this takes are bounded by the length of the text. -/
def Reads (j : Json) (cs : List Char) : Prop :=
  ∀ fuel rest, 2 * cs.length < fuel → EndsNumber rest → readValue fuel (cs ++ rest) = some (j, rest)

lemma reads_null : Reads .null "null".toList := by
  intro fuel rest hfuel _
  obtain ⟨fuel, rfl⟩ : ∃ k, fuel = k + 1 := ⟨fuel - 1, by omega⟩
  rw [readValue]
  rfl

lemma reads_bool (b : Bool) : Reads (.bool b) (if b then "true" else "false").toList := by
  intro fuel rest hfuel _
  obtain ⟨fuel, rfl⟩ : ∃ k, fuel = k + 1 := ⟨fuel - 1, by omega⟩
  rw [readValue]
  cases b <;> rfl

lemma reads_string (s : String) : Reads (.string s) (quote s).toList := by
  intro fuel rest hfuel _
  obtain ⟨fuel, rfl⟩ : ∃ k, fuel = k + 1 := ⟨fuel - 1, by omega⟩
  obtain ⟨cs, hcs, hread⟩ := readString_quote s rest
  rw [hcs, readValue, skipSpacing_cons (by decide)]
  simp [hread]

/-- What begins with a digit is a number. -/
lemma readValue_of_isDigit {d : Char} (hd : d.isDigit = true) (fuel : ℕ) (cs : List Char) :
    readValue (fuel + 1) (d :: cs) = readNumber (d :: cs) := by
  have hspacing : isSpacing d = false := by
    by_contra hspacing
    rw [Bool.not_eq_false, isSpacing] at hspacing
    simp only [Bool.or_eq_true, beq_iff_eq] at hspacing
    rcases hspacing with ((rfl | rfl) | rfl) | rfl <;> cases hd
  rw [readValue, skipSpacing_cons hspacing]
  split
  case h_7 => rfl
  all_goals
    rename_i heq
    cases heq
    cases hd

lemma reads_natural {n : ℕ} (hn : n < Nat.pow 2 64) : Reads (.natural n) (toString n).toList := by
  intro fuel rest hfuel hrest
  obtain ⟨fuel, rfl⟩ : ∃ k, fuel = k + 1 := ⟨fuel - 1, by omega⟩
  have hread := readNumber_toDigits hn hrest
  obtain ⟨d, ds, hcons, hd⟩ := exists_toDigits_eq_cons n
  rw [hcons, List.cons_append] at hread
  rw [Nat.toString_eq_repr, Nat.toList_repr, hcons, List.cons_append,
    readValue_of_isDigit hd, hread]

/-! ## Arrays and objects -/

/-- The characters of printed items up to the closing bracket, each with the spacing before it. -/
def bodyChars (depth : ℕ) (closing : List Char) : List String → List Char
  | [] => closing
  | [item] => (newline (depth + 1)).toList ++ (item.toList ++ ((newline depth).toList ++ closing))
  | item :: next :: items =>
      (newline (depth + 1)).toList ++
        (item.toList ++ ',' :: bodyChars depth closing (next :: items))

lemma toList_enclose (opening closing : String) (depth : ℕ) (items : List String) :
    (enclose opening closing depth items).toList =
      opening.toList ++ bodyChars depth closing.toList items := by
  have hbody : ∀ item items, (newline (depth + 1)).toList ++
      ((("," ++ newline (depth + 1)).intercalate (item :: items)).toList ++
        ((newline depth).toList ++ closing.toList)) =
          bodyChars depth closing.toList (item :: items) := by
    intro item items
    induction items generalizing item with
    | nil => simp [bodyChars]
    | cons next items ih =>
      rw [bodyChars, ← ih next]
      simp [String.toList_intercalate]
  unfold enclose
  cases items with
  | nil => simp [bodyChars]
  | cons item items =>
    rw [← hbody]
    simp

lemma printElements_eq_map (depth : ℕ) (js : List Json) :
    printElements depth js = js.map (printAt depth) := by
  induction js with
  | nil => rw [printElements]; rfl
  | cons j js ih => rw [printElements, ih]; rfl

/-- The text of a field. -/
def printField (depth : ℕ) (p : String × Json) : String :=
  quote p.1 ++ ": " ++ p.2.printAt depth

lemma printFields_eq_map (depth : ℕ) (fields : List (String × Json)) :
    printFields depth fields = fields.map (printField depth) := by
  induction fields with
  | nil => rw [printFields]; rfl
  | cons p fields ih => rw [printFields, ih]; rfl

section Bodies

variable {depth fuel : ℕ} {rest : List Char}

/-- A value is read on a line of its own. -/
lemma Reads.readValue_newline {j : Json} {cs : List Char} (h : Reads j cs)
    (hfuel : 2 * cs.length < fuel) (hrest : EndsNumber rest) :
    readValue fuel ((newline depth).toList ++ (cs ++ rest)) = some (j, rest) := by
  rw [readValue_append isSpacing_of_mem_newline]
  exact h fuel rest hfuel hrest

/-- Printed elements are read one after the other, up to the closing bracket. -/
lemma readElements_bodyChars {j : Json} {js : List Json}
    (h : ∀ k ∈ j :: js, Reads k (k.printAt (depth + 1)).toList)
    (hfuel : 2 * (bodyChars depth [']'] ((j :: js).map (printAt (depth + 1)))).length < fuel) :
    readElements fuel (bodyChars depth [']'] ((j :: js).map (printAt (depth + 1))) ++ rest) =
      some (j :: js, rest) := by
  obtain ⟨fuel, rfl⟩ : ∃ k, fuel = k + 1 := ⟨fuel - 1, by omega⟩
  induction js generalizing j fuel with
  | nil =>
    simp only [List.map_cons, List.map_nil, bodyChars, List.length_append,
      List.length_singleton] at hfuel
    simp only [List.map_cons, List.map_nil, bodyChars, List.append_assoc]
    rw [readElements,
      (h j List.mem_cons_self).readValue_newline (by omega) (endsNumber_newline _ _)]
    dsimp only
    rw [skipSpacing_append isSpacing_of_mem_newline]
    rfl
  | cons k js ih =>
    obtain ⟨hj, hrest⟩ := List.forall_mem_cons.mp h
    rw [List.map_cons, List.map_cons, bodyChars, ← List.map_cons] at hfuel ⊢
    simp only [List.length_append, List.length_cons] at hfuel
    obtain ⟨fuel, rfl⟩ : ∃ k, fuel = k + 1 := ⟨fuel - 1, by omega⟩
    have hnext := ih hrest fuel (by omega)
    rw [List.append_assoc, List.append_assoc, List.cons_append, readElements,
      hj.readValue_newline (by omega) (endsNumber_cons (by decide) _)]
    exact congrArg (Option.map fun x => (j :: x.1, x.2)) hnext

/-- A printed field is read, and what comes after it tells whether there are more. -/
lemma readFields_printField {p : String × Json} (h : Reads p.2 (p.2.printAt depth).toList)
    (hfuel : 2 * (printField depth p).toList.length < fuel) (hrest : EndsNumber rest)
    {behind : List Char} :
    (skipSpacing rest = ',' :: behind →
      readFields (fuel + 1) ((newline depth).toList ++ ((printField depth p).toList ++ rest)) =
        (readFields fuel behind).map fun x => ((some p.1, p.2) :: x.1, x.2)) ∧
    (skipSpacing rest = '\x7d' :: behind →
      readFields (fuel + 1) ((newline depth).toList ++ ((printField depth p).toList ++ rest)) =
        some ([(some p.1, p.2)], behind)) := by
  obtain ⟨cs, hcs, hkey⟩ :=
    readString_quote p.1 (':' :: ' ' :: ((p.2.printAt depth).toList ++ rest))
  have htext : (printField depth p).toList ++ rest = '"' :: cs := by
    rw [← hcs]
    simp [printField]
  have hvalue : readValue fuel (' ' :: ((p.2.printAt depth).toList ++ rest)) =
      some (p.2, rest) := by
    have hlength : (p.2.printAt depth).toList.length ≤ (printField depth p).toList.length := by
      simp only [printField, String.toList_append, List.length_append]
      omega
    have hread := h fuel rest (by omega) hrest
    have hblank : ∀ c ∈ [' '], isSpacing c = true := List.forall_mem_singleton.mpr rfl
    exact (readValue_append hblank fuel _).trans hread
  have hcolon : skipSpacing (':' :: ' ' :: ((p.2.printAt depth).toList ++ rest)) =
      ':' :: ' ' :: ((p.2.printAt depth).toList ++ rest) := skipSpacing_cons (by decide) _
  rw [readFields, skipSpacing_append isSpacing_of_mem_newline, htext, skipSpacing_cons (by decide)]
  constructor
  · intro hbehind
    simp only [hkey, hcolon, hvalue, hbehind]
  · intro hbehind
    simp only [hkey, hcolon, hvalue, hbehind]

/-- Printed fields are read one after the other, up to the closing brace. -/
lemma readFields_bodyChars {p : String × Json} {fields : List (String × Json)}
    (h : ∀ q ∈ p :: fields, Reads q.2 (q.2.printAt (depth + 1)).toList)
    (hfuel :
      2 * (bodyChars depth ['\x7d'] ((p :: fields).map (printField (depth + 1)))).length < fuel) :
    readFields fuel
        (bodyChars depth ['\x7d'] ((p :: fields).map (printField (depth + 1))) ++ rest) =
      some ((p :: fields).map fun q => (some q.1, q.2), rest) := by
  obtain ⟨fuel, rfl⟩ : ∃ k, fuel = k + 1 := ⟨fuel - 1, by omega⟩
  induction fields generalizing p fuel with
  | nil =>
    simp only [List.map_cons, List.map_nil, bodyChars, List.length_append,
      List.length_singleton] at hfuel
    simp only [List.map_cons, List.map_nil, bodyChars, List.append_assoc]
    refine (readFields_printField (h p List.mem_cons_self) (by omega) (endsNumber_newline _ _)).2 ?_
    rw [skipSpacing_append isSpacing_of_mem_newline]
    rfl
  | cons q fields ih =>
    obtain ⟨hp, hrest⟩ := List.forall_mem_cons.mp h
    rw [List.map_cons, List.map_cons, bodyChars, ← List.map_cons] at hfuel ⊢
    simp only [List.length_append, List.length_cons] at hfuel
    obtain ⟨fuel, rfl⟩ : ∃ k, fuel = k + 1 := ⟨fuel - 1, by omega⟩
    have hnext := ih hrest fuel (by omega)
    rw [List.append_assoc, List.append_assoc, List.cons_append,
      (readFields_printField hp (by omega) (endsNumber_cons (by decide) _)).1
        (skipSpacing_cons (by decide) _)]
    exact congrArg (Option.map fun x => ((some p.1, p.2) :: x.1, x.2)) hnext

/-- A closing bracket does not begin an element. -/
lemma readElements_of_close {cs behind : List Char} (h : skipSpacing cs = ']' :: behind) :
    readElements fuel cs = none := by
  cases fuel with
  | zero => rw [readElements]
  | succ fuel =>
    rw [readElements]
    cases fuel with
    | zero => rw [readValue]
    | succ fuel =>
      rw [readValue, h]
      rfl

/-- A closing brace does not begin a field. -/
lemma readFields_of_close {cs behind : List Char} (h : skipSpacing cs = '\x7d' :: behind) :
    readFields fuel cs = none := by
  cases fuel with
  | zero => rw [readFields]
  | succ fuel =>
    rw [readFields, h]
    rfl

/-- Elements that are read up to the closing bracket make an array. -/
lemma readValue_array {cs : List Char} {js : List Json}
    (h : readElements fuel cs = some (js, rest)) :
    readValue (fuel + 1) ('[' :: cs) = some (.array js, rest) := by
  rw [readValue, skipSpacing_cons (by decide)]
  simp only [h, Option.map_some]
  split
  · rename_i behind hclose
    rw [readElements_of_close hclose] at h
    cases h
  · rfl

/-- Fields that are read up to the closing brace make an object. -/
lemma readValue_object {cs : List Char} {fields : List (Option String × Json)}
    (h : readFields fuel cs = some (fields, rest)) :
    readValue (fuel + 1) ('\x7b' :: cs) = some (ofFields fields, rest) := by
  rw [readValue, skipSpacing_cons (by decide)]
  simp only [h, Option.map_some]
  split
  · rename_i behind hclose
    rw [readFields_of_close hclose] at h
    cases h
  · rfl

end Bodies

/-- What was written value by value is read value by value. -/
lemma mapM_map_eq_some {α β : Type} {read : β → Option α} {write : α → β} {as : List α}
    (h : ∀ a ∈ as, read (write a) = some a) : (as.map write).mapM read = some as := by
  induction as with
  | nil => rfl
  | cons a as ih =>
    obtain ⟨ha, has⟩ := List.forall_mem_cons.mp h
    rw [List.map_cons, List.mapM_cons, ha, ih has]
    rfl

lemma ofFields_map (fields : List (String × Json)) :
    ofFields (fields.map fun p => (some p.1, p.2)) = .object fields := by
  unfold ofFields
  rw [mapM_map_eq_some]
  intro p _
  rfl

lemma reads_array {depth : ℕ} {js : List Json}
    (h : ∀ j ∈ js, Reads j (j.printAt (depth + 1)).toList) :
    Reads (.array js) ((Json.array js).printAt depth).toList := by
  have htext : ((Json.array js).printAt depth).toList =
      '[' :: bodyChars depth [']'] (js.map (printAt (depth + 1))) := by
    rw [printAt, toList_enclose, printElements_eq_map]
    rfl
  intro fuel rest hfuel _
  rw [htext, List.length_cons] at hfuel
  obtain ⟨fuel, rfl⟩ : ∃ k, fuel = k + 1 := ⟨fuel - 1, by omega⟩
  rw [htext, List.cons_append]
  cases js with
  | nil =>
    rw [readValue]
    rfl
  | cons j js => exact readValue_array (readElements_bodyChars h (by omega))

lemma reads_object {depth : ℕ} {fields : List (String × Json)}
    (h : ∀ p ∈ fields, Reads p.2 (p.2.printAt (depth + 1)).toList) :
    Reads (.object fields) ((Json.object fields).printAt depth).toList := by
  have htext : ((Json.object fields).printAt depth).toList =
      '\x7b' :: bodyChars depth ['\x7d'] (fields.map (printField (depth + 1))) := by
    rw [printAt, toList_enclose, printFields_eq_map]
    rfl
  intro fuel rest hfuel _
  rw [htext, List.length_cons] at hfuel
  obtain ⟨fuel, rfl⟩ : ∃ k, fuel = k + 1 := ⟨fuel - 1, by omega⟩
  rw [htext, List.cons_append]
  cases fields with
  | nil =>
    rw [readValue]
    rfl
  | cons p fields =>
    rw [readValue_object (readFields_bodyChars h (by omega)), ofFields_map]

/-- The printed text of an exact value is read as this value. -/
theorem IsExact.reads {j : Json} (h : j.IsExact) (depth : ℕ) :
    Reads j (j.printAt depth).toList := by
  induction h generalizing depth with
  | null =>
    rw [printAt]
    exact reads_null
  | bool b =>
    rw [printAt]
    exact reads_bool b
  | natural hn =>
    rw [printAt]
    exact reads_natural hn
  | string s =>
    rw [printAt]
    exact reads_string s
  | array h ih => exact reads_array fun j hj => ih j hj (depth + 1)
  | object h ih => exact reads_object fun p hp => ih p hp (depth + 1)

/-- An exact value is read from its text. -/
theorem IsExact.parse?_print {j : Json} (h : j.IsExact) : parse? j.print = some j := by
  have hfuel : 2 * (j.printAt 0).toList.length < 2 * (j.printAt 0).length + 2 := by
    rw [String.length_toList]
    omega
  have hread := h.reads 0 _ [] hfuel fun c hc => absurd hc (Option.not_mem_none c)
  rw [List.append_nil] at hread
  rw [parse?, print, hread]
  rfl

end Clausal.Json
