import Clausal.Statement.Reading
import Mathlib.Data.List.TakeWhile

/-!
# Parentheses, connectives and blanks in formula text

Reading scans a text for three things: the partner of a parenthesis, the first connective outside
all parentheses, and the level that parentheses reach.  Each scan is described here on a text that
is put together from parts.  What the scans need to know of a part is how many parentheses are open
after it, and a part with balanced parentheses leaves them as they are.

Only eight characters give a text its structure.  The tables of character classes have none of them,
so that names and blanks have no influence on the scans, and no character of a name is blank.
-/

namespace Clausal

namespace Text

/-! ## Characters -/

/-- The characters that give formula text its structure. -/
def marks : List Char :=
  ['(', ')', '¬', '∀', '∃', '→', '∧', '∨']

/-- Structure is not given by characters of any other class. -/
lemma classes_of_mem_marks : ∀ c ∈ marks, isBlank c = false ∧ isWordChar c = false ∧
    isLowercase c = false ∧ isNumeric c = false := by
  -- a search through this list, where the quantifier might be decided by going through all
  -- characters
  have hall :
      marks.all (fun c => !isBlank c && (!isWordChar c && (!isLowercase c && !isNumeric c))) =
      true := by
    decide +kernel
  simpa only [List.all_eq_true, Bool.and_eq_true, Bool.not_eq_true'] using hall

variable {c : Char}

lemma notMem_marks_of_isBlank (h : isBlank c = true) : c ∉ marks := by
  intro hmem
  rw [(classes_of_mem_marks c hmem).1] at h
  cases h

lemma notMem_marks_of_isWordChar (h : isWordChar c = true) : c ∉ marks := by
  intro hmem
  rw [(classes_of_mem_marks c hmem).2.1] at h
  cases h

lemma notMem_marks_of_isLowercase (h : isLowercase c = true) : c ∉ marks := by
  intro hmem
  rw [(classes_of_mem_marks c hmem).2.2.1] at h
  cases h

/-- The blank characters by their code points. -/
def blankCodePoints : List ℕ :=
  [0x09, 0x0a, 0x0b, 0x0c, 0x0d, 0x20, 0x85, 0xa0, 0x1680, 0x2000, 0x2001, 0x2002, 0x2003,
    0x2004, 0x2005, 0x2006, 0x2007, 0x2008, 0x2009, 0x200a, 0x2028, 0x2029, 0x202f, 0x205f, 0x3000]

lemma mem_blankCodePoints (h : isBlank c = true) : c.toNat ∈ blankCodePoints := by
  unfold isBlank CodePointSet.contains at h
  generalize c.toNat = n at h ⊢
  simp only [CodePointSet.blank, CodePointSet.inside, Bool.not_false, Bool.and_true, Bool.not_and,
    Bool.not_not, Bool.not_or, Bool.and_eq_true, decide_eq_true_eq, Bool.or_eq_true,
    Bool.not_eq_eq_eq_not, Bool.not_true, decide_eq_false_iff_not, Nat.not_le] at h
  simp only [blankCodePoints, List.mem_cons, List.not_mem_nil, or_false]
  omega

/-- A blank character is neither a letter nor a number nor an underscore. -/
lemma not_word_of_mem_blankCodePoints : ∀ n ∈ blankCodePoints,
    CodePointSet.inside CodePointSet.alphabetic.boundaries n = false ∧
      CodePointSet.inside CodePointSet.numeric.boundaries n = false ∧ n ≠ '_'.toNat := by
  decide +kernel

/-- No character of a name is blank. -/
lemma isBlank_of_isWordChar (h : isWordChar c = true) : isBlank c = false := by
  rw [← Bool.not_eq_true]
  intro hblank
  obtain ⟨halphabetic, hnumeric, hunderscore⟩ :=
    not_word_of_mem_blankCodePoints _ (mem_blankCodePoints hblank)
  rw [isWordChar, Bool.or_eq_true_iff, Bool.or_eq_true_iff, beq_iff_eq] at h
  rcases h with (h | h) | rfl
  · rw [CodePointSet.contains, halphabetic] at h
    cases h
  · rw [isNumeric, CodePointSet.contains, hnumeric] at h
    cases h
  · exact hunderscore rfl

/-! ## Open parentheses -/

/-- The number of parentheses open after a text, where `opened` are open before it.  There is none
if one closes that is not open. -/
def openAfter : List Char → (opened : ℕ) → Option ℕ
  | [], opened => some opened
  | c :: cs, opened =>
      if c = '(' then openAfter cs (opened + 1)
      else if c = ')' then
        match opened with
        | 0 => none
        | opened + 1 => openAfter cs opened
      else openAfter cs opened

/-- In a balanced text every parenthesis has its partner. -/
def Balanced (cs : List Char) : Prop :=
  openAfter cs 0 = some 0

instance : DecidablePred Balanced :=
  fun cs => inferInstanceAs (Decidable (openAfter cs 0 = some 0))

variable {a b cs : List Char} {n m k : ℕ}

@[simp] lemma openAfter_open (cs : List Char) (n : ℕ) :
    openAfter ('(' :: cs) n = openAfter cs (n + 1) :=
  rfl

@[simp] lemma openAfter_close (cs : List Char) (n : ℕ) :
    openAfter (')' :: cs) (n + 1) = openAfter cs n :=
  rfl

lemma openAfter_cons (hopen : c ≠ '(') (hclose : c ≠ ')') (cs : List Char) (n : ℕ) :
    openAfter (c :: cs) n = openAfter cs n := by
  rw [openAfter.eq_def]
  exact (if_neg hopen).trans (if_neg hclose)

/-- The parentheses open after a text are those open after its second part. -/
lemma openAfter_append (a b : List Char) (n : ℕ) :
    openAfter (a ++ b) n = (openAfter a n).bind (openAfter b) := by
  fun_induction openAfter a n with
  | case1 n => rfl
  | case2 cs n ih => exact ih
  | case3 cs _ => rfl
  | case4 cs n _ ih => exact ih
  | case5 c cs n hopen hclose ih => rw [List.cons_append, openAfter_cons hopen hclose, ih]

/-- More parentheses open before a text stay open after it. -/
lemma openAfter_add (h : openAfter a n = some m) (k : ℕ) : openAfter a (n + k) = some (m + k) := by
  fun_induction openAfter a n with
  | case1 n =>
    obtain rfl := Option.some.inj h
    rfl
  | case2 cs n ih =>
    rw [openAfter_open, Nat.add_right_comm]
    exact ih h
  | case3 cs _ => cases h
  | case4 cs n _ ih =>
    rw [Nat.succ_add, openAfter_close]
    exact ih h
  | case5 c cs n hopen hclose ih =>
    rw [openAfter_cons hopen hclose]
    exact ih h

/-- A text without parentheses leaves them as they are. -/
lemma openAfter_of_forall_ne (h : ∀ c ∈ cs, c ≠ '(' ∧ c ≠ ')') (n : ℕ) :
    openAfter cs n = some n := by
  induction cs with
  | nil => rfl
  | cons c cs ih =>
    obtain ⟨⟨hopen, hclose⟩, hrest⟩ := List.forall_mem_cons.mp h
    rw [openAfter_cons hopen hclose]
    exact ih hrest

/-- If a parenthesis closes that is not open, then there is a first one. -/
lemma exists_append_of_openAfter_eq_none (h : openAfter cs n = none) :
    ∃ a b, cs = a ++ ')' :: b ∧ openAfter a n = some 0 := by
  fun_induction openAfter cs n with
  | case1 n => cases h
  | case2 cs n ih =>
    obtain ⟨a, b, rfl, ha⟩ := ih h
    exact ⟨'(' :: a, b, rfl, ha⟩
  | case3 cs _ => exact ⟨[], cs, rfl, rfl⟩
  | case4 cs n _ ih =>
    obtain ⟨a, b, rfl, ha⟩ := ih h
    exact ⟨')' :: a, b, rfl, ha⟩
  | case5 c cs n hopen hclose ih =>
    obtain ⟨a, b, rfl, ha⟩ := ih h
    exact ⟨c :: a, b, rfl, (openAfter_cons hopen hclose a n).trans ha⟩

namespace Balanced

lemma openAfter_eq (h : Balanced a) (n : ℕ) : openAfter a n = some n := by
  have hadd := openAfter_add h n
  rwa [Nat.zero_add] at hadd

lemma append (ha : Balanced a) (hb : Balanced b) : Balanced (a ++ b) := by
  rw [Balanced, openAfter_append, ha]
  exact hb

/-- What stands behind a balanced part of a balanced text is balanced. -/
lemma of_append_left (ha : Balanced a) (h : Balanced (a ++ b)) : Balanced b := by
  rw [Balanced, openAfter_append, ha] at h
  exact h

/-- A character that is not a parenthesis makes no difference. -/
lemma cons (h : Balanced a) (hopen : c ≠ '(') (hclose : c ≠ ')') : Balanced (c :: a) := by
  rw [Balanced, openAfter_cons hopen hclose]
  exact h

/-- Parentheses around a balanced text are balanced. -/
lemma enclose (h : Balanced a) : Balanced ('(' :: a ++ [')']) := by
  rw [Balanced, List.cons_append, openAfter_open, openAfter_append, h.openAfter_eq]
  rfl

end Balanced

/-- A character that is no mark is no parenthesis. -/
lemma ne_of_notMem_marks (h : c ∉ marks) : c ≠ '(' ∧ c ≠ ')' :=
  ⟨fun heq => h (heq ▸ by decide), fun heq => h (heq ▸ by decide)⟩

/-- A text without marks is balanced. -/
lemma balanced_of_forall_notMem_marks (h : ∀ c ∈ cs, c ∉ marks) : Balanced cs :=
  openAfter_of_forall_ne (fun c hc => ne_of_notMem_marks (h c hc)) 0

/-! ## Blanks around a text -/

/-- A text begins and ends with characters that are not blank. -/
structure IsTrimmed (cs : List Char) : Prop where
  head : ∃ c, cs.head? = some c ∧ isBlank c = false
  last : ∃ c, cs.getLast? = some c ∧ isBlank c = false

lemma IsTrimmed.exists_eq_cons (h : IsTrimmed cs) :
    ∃ c rest, cs = c :: rest ∧ isBlank c = false := by
  obtain ⟨c, hhead, hc⟩ := h.head
  obtain ⟨rest, hcons⟩ := List.head?_eq_some_iff.mp hhead
  exact ⟨c, rest, hcons, hc⟩

lemma IsTrimmed.isEmpty_eq_false (h : IsTrimmed cs) : cs.isEmpty = false := by
  obtain ⟨c, rest, rfl, -⟩ := h.exists_eq_cons
  rfl

/-- Nothing is trimmed before a character that is not blank. -/
lemma trimStart_of_head (h : ∃ c, cs.head? = some c ∧ isBlank c = false) : trimStart cs = cs := by
  obtain ⟨c, hhead, hblank⟩ := h
  cases cs with
  | nil => cases hhead
  | cons d cs =>
    obtain rfl := Option.some.inj hhead
    exact List.dropWhile_cons_of_neg (by rw [hblank]; exact Bool.false_ne_true)

/-- Nothing is trimmed after a character that is not blank. -/
lemma trimEnd_of_last (h : ∃ c, cs.getLast? = some c ∧ isBlank c = false) : trimEnd cs = cs := by
  have hreverse : trimStart cs.reverse = cs.reverse :=
    trimStart_of_head (by rw [List.head?_reverse]; exact h)
  rw [trimEnd, ← trimStart, hreverse, List.reverse_reverse]

lemma IsTrimmed.trim_eq (h : IsTrimmed cs) : trimEnd (trimStart cs) = cs := by
  rw [trimStart_of_head h.head, trimEnd_of_last h.last]

/-- What is left when blanks are trimmed before a text does not begin with a blank. -/
lemma isBlank_of_head?_trimStart (cs : List Char) (h : (trimStart cs).head? = some c) :
    isBlank c = false := by
  have hnot := List.head?_dropWhile_not isBlank cs
  rw [trimStart] at h
  rw [h] at hnot
  exact hnot

/-- What is left when blanks are trimmed after a text does not end with a blank. -/
lemma isBlank_of_getLast?_trimEnd (cs : List Char) (h : (trimEnd cs).getLast? = some c) :
    isBlank c = false := by
  rw [trimEnd, List.getLast?_reverse] at h
  exact isBlank_of_head?_trimStart cs.reverse h

/-- What is trimmed after a text is blank. -/
lemma exists_append_trimEnd (cs : List Char) :
    ∃ after, cs = trimEnd cs ++ after ∧ ∀ c ∈ after, isBlank c = true := by
  refine ⟨(cs.reverse.takeWhile isBlank).reverse, ?_, ?_⟩
  · rw [trimEnd, ← List.reverse_append, List.takeWhile_append_dropWhile, List.reverse_reverse]
  · exact fun c hc => List.mem_takeWhile_imp (List.mem_reverse.mp hc)

/-- Blanks after a text make no difference. -/
lemma trimEnd_append (h : ∀ c ∈ b, isBlank c = true) : trimEnd (a ++ b) = trimEnd a := by
  rw [trimEnd, List.reverse_append,
    List.dropWhile_append_of_pos fun c hc => h c (List.mem_reverse.mp hc)]
  rfl

/-- What is trimmed from a text is blank. -/
lemma exists_append_trim (cs : List Char) :
    ∃ before after, cs = before ++ trimEnd (trimStart cs) ++ after ∧
    (∀ c ∈ before, isBlank c = true) ∧ ∀ c ∈ after, isBlank c = true := by
  obtain ⟨after, hend, hafter⟩ := exists_append_trimEnd (trimStart cs)
  refine ⟨cs.takeWhile isBlank, after, ?_, fun c hc => List.mem_takeWhile_imp hc, hafter⟩
  rw [List.append_assoc, ← hend, trimStart, List.takeWhile_append_dropWhile]

/-- A text with its blanks trimmed is empty or trimmed. -/
lemma trim_eq_nil_or_isTrimmed (cs : List Char) :
    trimEnd (trimStart cs) = [] ∨ IsTrimmed (trimEnd (trimStart cs)) := by
  cases htrim : trimEnd (trimStart cs) with
  | nil => exact Or.inl rfl
  | cons c rest =>
    refine Or.inr ⟨⟨c, rfl, ?_⟩, ?_⟩
    · obtain ⟨after, hafter⟩ : trimEnd (trimStart cs) <+: trimStart cs := by
        rw [trimEnd, ← List.reverse_suffix, List.reverse_reverse]
        exact List.dropWhile_suffix _
      refine isBlank_of_head?_trimStart cs ?_
      rw [← hafter, htrim]
      rfl
    · obtain ⟨d, hd⟩ : ∃ d, (c :: rest).getLast? = some d := ⟨_, List.getLast?_cons⟩
      exact ⟨d, hd, isBlank_of_getLast?_trimEnd (trimStart cs) (by rw [htrim, hd])⟩

/-- Nothing is left of a text when it is trimmed exactly if all its characters are blank. -/
lemma trim_eq_nil_iff {cs : List Char} :
    trimEnd (trimStart cs) = [] ↔ ∀ c ∈ cs, isBlank c = true := by
  obtain ⟨before, after, happend, hbefore, hafter⟩ := exists_append_trim cs
  constructor
  · intro hnil
    rw [hnil, List.append_nil] at happend
    rw [happend, List.forall_mem_append]
    exact ⟨hbefore, hafter⟩
  · intro hblank
    rcases trim_eq_nil_or_isTrimmed cs with hnil | htrimmed
    · exact hnil
    · obtain ⟨c, rest, hcons, hc⟩ := htrimmed.exists_eq_cons
      rw [happend, hcons, List.forall_mem_append, List.forall_mem_append,
        List.forall_mem_cons] at hblank
      rw [hblank.1.2.1] at hc
      cases hc

/-- Trimming a text again does nothing. -/
lemma trim_trim (s : String) : trim (trim s) = trim s := by
  rw [trim, trim, String.toList_ofList]
  rcases trim_eq_nil_or_isTrimmed s.toList with hnil | htrimmed
  · rw [hnil]
    rfl
  · rw [htrimmed.trim_eq]

/-- Blanks after a text leave parentheses as they are. -/
lemma Balanced.of_append_blank (h : Balanced (a ++ b)) (hb : ∀ c ∈ b, isBlank c = true) :
    Balanced a := by
  have hblank : ∀ n, openAfter b n = some n := openAfter_of_forall_ne fun c hc =>
    ne_of_notMem_marks (notMem_marks_of_isBlank (hb c hc))
  rw [Balanced, openAfter_append] at h
  obtain ⟨n, hn, hend⟩ := Option.bind_eq_some_iff.mp h
  rw [hblank] at hend
  rw [Balanced, hn, hend]

/-- Trimming keeps parentheses balanced. -/
lemma Balanced.trim (h : Balanced cs) : Balanced (trimEnd (trimStart cs)) := by
  obtain ⟨before, after, heq, hbefore, hafter⟩ := exists_append_trim cs
  have hblank : Balanced before :=
    balanced_of_forall_notMem_marks fun c hc => notMem_marks_of_isBlank (hbefore c hc)
  rw [heq] at h
  exact hblank.of_append_left (h.of_append_blank hafter)

end Text

/-! ## Scans of a text in parts -/

open Text

namespace Connective

/-- A connective is no parenthesis. -/
lemma symbol_ne (op : Connective) : op.symbol ≠ '(' ∧ op.symbol ≠ ')' := by
  cases op <;> decide

lemma eq_symbol_of_ofSymbol? {c : Char} {op : Connective} (h : ofSymbol? c = some op) :
    c = op.symbol := by
  unfold ofSymbol? at h
  split at h
  · cases h
    assumption
  · split at h
    · cases h
      assumption
    · split at h
      · cases h
        assumption
      · cases h

/-- A character that is no mark is no connective. -/
lemma ofSymbol?_of_notMem_marks {c : Char} (h : c ∉ marks) : ofSymbol? c = none := by
  simp only [marks, List.mem_cons, List.not_mem_nil, or_false, not_or] at h
  obtain ⟨-, -, -, -, -, himplies, hand, hor⟩ := h
  rw [ofSymbol?, if_neg himplies, if_neg hand, if_neg hor]

end Connective

/-- A character that is no mark is no quantifier. -/
lemma Quantifier.ofSymbol?_of_notMem_marks {c : Char} (h : c ∉ marks) : ofSymbol? c = none := by
  simp only [marks, List.mem_cons, List.not_mem_nil, or_false, not_or] at h
  obtain ⟨-, -, -, huniversal, hexistential, -⟩ := h
  rw [ofSymbol?, if_neg huniversal, if_neg hexistential]

namespace Span

variable {a b : List Char} {c : Char} {n m i : ℕ}

@[simp] lemma connectiveFrom_open (cs : List Char) (n i : ℕ) :
    connectiveFrom ('(' :: cs) n i = connectiveFrom cs (n + 1) (i + 1) :=
  rfl

@[simp] lemma connectiveFrom_close (cs : List Char) (n i : ℕ) :
    connectiveFrom (')' :: cs) (n + 1) i = connectiveFrom cs n (i + 1) :=
  rfl

/-- A character that is no parenthesis and no connective is passed over. -/
lemma connectiveFrom_cons (hopen : c ≠ '(') (hclose : c ≠ ')') (hop : Connective.ofSymbol? c = none)
    (cs : List Char) (n i : ℕ) : connectiveFrom (c :: cs) n i = connectiveFrom cs n (i + 1) := by
  rw [connectiveFrom, if_neg hopen, if_neg hclose]
  split
  · rw [hop]
  · rfl

/-- Inside parentheses any character that is no parenthesis is passed over. -/
lemma connectiveFrom_cons_succ (hopen : c ≠ '(') (hclose : c ≠ ')') (cs : List Char) (n i : ℕ) :
    connectiveFrom (c :: cs) (n + 1) i = connectiveFrom cs (n + 1) (i + 1) := by
  rw [connectiveFrom, if_neg hopen, if_neg hclose, if_neg (Nat.succ_ne_zero n)]

/-- A connective outside all parentheses is found. -/
lemma connectiveFrom_symbol (op : Connective) (cs : List Char) (i : ℕ) :
    connectiveFrom (op.symbol :: cs) 0 i = some (i, op) := by
  rw [connectiveFrom, if_neg op.symbol_ne.1, if_neg op.symbol_ne.2, if_pos rfl,
    Connective.ofSymbol?_symbol]

/-- Any character that is no parenthesis is passed over, unless it is a connective outside all
parentheses. -/
lemma connectiveFrom_cons_cases (hopen : c ≠ '(') (hclose : c ≠ ')') (n : ℕ) :
    (∃ op : Connective, c = op.symbol ∧ n = 0) ∨
      ∀ cs i, connectiveFrom (c :: cs) n i = connectiveFrom cs n (i + 1) := by
  cases n with
  | succ n => exact Or.inr fun cs i => connectiveFrom_cons_succ hopen hclose cs n i
  | zero =>
    cases hop : Connective.ofSymbol? c with
    | none => exact Or.inr fun cs i => connectiveFrom_cons hopen hclose hop cs 0 i
    | some op => exact Or.inl ⟨op, Connective.eq_symbol_of_ofSymbol? hop, rfl⟩

/-- A text that leaves a parenthesis open has no connective outside of it. -/
lemma connectiveFrom_eq_none (h : openAfter a n = some m) (i : ℕ) :
    connectiveFrom a (n + 1) i = none := by
  fun_induction openAfter a n generalizing i with
  | case1 n => rfl
  | case2 cs n ih => exact ih h (i + 1)
  | case3 cs _ => cases h
  | case4 cs n _ ih => exact ih h (i + 1)
  | case5 c cs n hopen hclose ih =>
    rw [connectiveFrom_cons_succ hopen hclose]
    exact ih h (i + 1)

/-- The first connective outside all parentheses is that of the first part, or of the second one. -/
lemma connectiveFrom_append (h : openAfter a n = some m) (b : List Char) (i : ℕ) :
    connectiveFrom (a ++ b) n i =
      (connectiveFrom a n i).or (connectiveFrom b m (i + a.length)) := by
  fun_induction openAfter a n generalizing i with
  | case1 n =>
    obtain rfl := Option.some.inj h
    rfl
  | case2 cs n ih =>
    rw [List.cons_append, connectiveFrom_open, connectiveFrom_open, ih h, List.length_cons,
      Nat.add_right_comm, Nat.add_assoc]
  | case3 cs _ => cases h
  | case4 cs n _ ih =>
    rw [List.cons_append, connectiveFrom_close, connectiveFrom_close, ih h, List.length_cons,
      Nat.add_right_comm, Nat.add_assoc]
  | case5 c cs n hopen hclose ih =>
    rcases connectiveFrom_cons_cases hopen hclose n with ⟨op, rfl, rfl⟩ | hpass
    · rw [List.cons_append, connectiveFrom_symbol, connectiveFrom_symbol]
      rfl
    · rw [List.cons_append, hpass, hpass, ih h, List.length_cons, Nat.add_right_comm, Nat.add_assoc]

/-- Where a connective is found, the text before it closes all parentheses and has no connective
outside of them. -/
lemma exists_append_of_connectiveFrom {cs : List Char} {k : ℕ} {op : Connective}
    (hcs : openAfter cs n = some m) (h : connectiveFrom cs n i = some (k, op)) :
    ∃ a b, cs = a ++ op.symbol :: b ∧ openAfter a n = some 0 ∧
      (∀ j, connectiveFrom a n j = none) := by
  fun_induction openAfter cs n generalizing i with
  | case1 n => cases h
  | case2 cs n ih =>
    obtain ⟨a, b, rfl, ha, hnone⟩ := ih hcs h
    exact ⟨'(' :: a, b, rfl, ha, fun j => hnone (j + 1)⟩
  | case3 cs _ => cases hcs
  | case4 cs n _ ih =>
    obtain ⟨a, b, rfl, ha, hnone⟩ := ih hcs h
    exact ⟨')' :: a, b, rfl, ha, fun j => hnone (j + 1)⟩
  | case5 c cs n hopen hclose ih =>
    rcases connectiveFrom_cons_cases hopen hclose n with ⟨op', rfl, rfl⟩ | hpass
    · rw [connectiveFrom_symbol] at h
      obtain rfl := (Prod.mk.inj (Option.some.inj h)).2
      exact ⟨[], cs, rfl, rfl, fun _ => rfl⟩
    · rw [hpass] at h
      obtain ⟨a, b, rfl, ha, hnone⟩ := ih hcs h
      refine ⟨c :: a, b, rfl, (openAfter_cons hopen hclose a n).trans ha, fun j => ?_⟩
      rw [hpass]
      exact hnone (j + 1)

@[simp] lemma closingFrom_open (cs : List Char) (n i : ℕ) :
    closingFrom ('(' :: cs) n i = closingFrom cs (n + 1) (i + 1) := by
  cases n <;> rfl

@[simp] lemma closingFrom_close (cs : List Char) (n i : ℕ) :
    closingFrom (')' :: cs) (n + 2) i = closingFrom cs (n + 1) (i + 1) :=
  rfl

lemma closingFrom_cons (hopen : c ≠ '(') (hclose : c ≠ ')') (cs : List Char) (n i : ℕ) :
    closingFrom (c :: cs) n i = closingFrom cs n (i + 1) := by
  rw [closingFrom.eq_def]
  exact (if_neg hopen).trans (if_neg hclose)

/-- The partner of a parenthesis that is open before a text is the first one after it that closes no
other. -/
lemma closingFrom_append (h : openAfter a n = some m) (b : List Char) (i : ℕ) :
    closingFrom (a ++ b) (n + 1) i = closingFrom b (m + 1) (i + a.length) := by
  fun_induction openAfter a n generalizing i with
  | case1 n =>
    obtain rfl := Option.some.inj h
    rfl
  | case2 cs n ih =>
    rw [List.cons_append, closingFrom_open, ih h, List.length_cons, Nat.add_right_comm,
      Nat.add_assoc]
  | case3 cs _ => cases h
  | case4 cs n _ ih =>
    rw [List.cons_append, closingFrom_close, ih h, List.length_cons, Nat.add_right_comm,
      Nat.add_assoc]
  | case5 c cs n hopen hclose ih =>
    rw [List.cons_append, closingFrom_cons hopen hclose, ih h, List.length_cons, Nat.add_right_comm,
      Nat.add_assoc]

/-- The partner of the parenthesis before a balanced text is the one after it. -/
lemma closing?_of_balanced (h : Balanced a) (b : List Char) :
    closing? ('(' :: a ++ ')' :: b) = some (a.length + 1) := by
  rw [List.cons_append, closing?, closingFrom_open, closingFrom_append h, Nat.add_comm a.length]
  rfl

/-- Where the partner of an open parenthesis is found, the text before it closes the parentheses
opened in it. -/
lemma exists_of_closingFrom {cs : List Char} {k : ℕ} (h : closingFrom cs (n + 1) i = some k) :
    ∃ a b, cs = a ++ ')' :: b ∧ openAfter a n = some 0 ∧ k = i + a.length := by
  induction cs generalizing n i with
  | nil => cases h
  | cons c cs ih =>
    have hlonger : ∀ a : List Char, i + 1 + a.length = i + (c :: a).length := by
      intro a
      rw [List.length_cons, Nat.add_right_comm, Nat.add_assoc]
    by_cases hopen : c = '('
    · subst hopen
      rw [closingFrom_open] at h
      obtain ⟨a, b, rfl, ha, rfl⟩ := ih h
      exact ⟨'(' :: a, b, rfl, ha, hlonger a⟩
    by_cases hclose : c = ')'
    · subst hclose
      cases n with
      | zero => exact ⟨[], cs, rfl, rfl, (Option.some.inj h).symm⟩
      | succ n =>
        rw [closingFrom_close] at h
        obtain ⟨a, b, rfl, ha, rfl⟩ := ih h
        exact ⟨')' :: a, b, rfl, ha, hlonger a⟩
    · rw [closingFrom_cons hopen hclose] at h
      obtain ⟨a, b, rfl, ha, rfl⟩ := ih h
      exact ⟨c :: a, b, rfl, (openAfter_cons hopen hclose a n).trans ha, hlonger a⟩

/-- No parenthesis of a text is to blame exactly if it closes those that are open before it. -/
lemma unmatchedFrom_eq_none_iff {cs : List Char} {opened : List ℕ} {position : ℕ} :
    unmatchedFrom cs position opened = none ↔ openAfter cs opened.length = some 0 := by
  induction cs generalizing opened position with
  | nil => rw [unmatchedFrom, openAfter, List.getLast?_eq_none_iff, Option.some.injEq,
      List.length_eq_zero_iff]
  | cons c cs ih =>
    rw [unmatchedFrom.eq_def]
    by_cases hopen : c = '('
    · subst hopen
      exact ih
    by_cases hclose : c = ')'
    · subst hclose
      cases opened with
      | nil => exact iff_of_false (Option.some_ne_none _) (Option.some_ne_none _).symm
      | cons _ outer => exact ih
    · rw [openAfter_cons hopen hclose, ← ih]
      exact Eq.congr_left ((if_neg hopen).trans (if_neg hclose))

/-- No parenthesis of a text is to blame exactly if they are balanced. -/
lemma unmatched?_eq_none_iff {s : Span} : s.unmatched? = none ↔ Balanced s.chars :=
  unmatchedFrom_eq_none_iff

end Span

/-! ## Levels of parentheses -/

namespace Text

/-- The greatest number of parentheses open at a time in a text, where `opened` are open before it,
and zero if none opens. -/
def deepest : List Char → (opened : ℕ) → ℕ
  | [], _ => 0
  | c :: cs, opened =>
      if c = '(' then max (opened + 1) (deepest cs (opened + 1))
      else if c = ')' then deepest cs (opened - 1)
      else deepest cs opened

/-- Parentheses are too deep exactly if the limit is reached. -/
lemma tooDeepFrom_eq_none_iff {cs : List Char} {n position : ℕ} :
    Statement.tooDeepFrom cs n position = none ↔ deepest cs n < Statement.maxNesting := by
  induction cs generalizing n position with
  | nil => exact iff_of_true rfl (Nat.zero_lt_succ _)
  | cons c cs ih =>
    rw [Statement.tooDeepFrom, deepest]
    split
    · split
      · rename_i hreached
        refine iff_of_false (Option.some_ne_none _) ?_
        omega
      · rename_i hbelow
        rw [ih]
        omega
    · split
      · exact ih
      · exact ih

/-- With more parentheses open before a text the ones opened in it are deeper by as much. -/
lemma deepest_add {cs : List Char} {n m : ℕ} (h : openAfter cs n = some m) (k : ℕ) :
    deepest cs (n + k) = if deepest cs n = 0 then 0 else deepest cs n + k := by
  fun_induction openAfter cs n with
  | case1 n => rfl
  | case2 cs n ih =>
    have hrest := ih h
    rw [deepest, if_pos rfl, deepest, if_pos rfl, if_neg (by omega), Nat.add_right_comm, hrest]
    split <;> omega
  | case3 cs _ => cases h
  | case4 cs n hne ih =>
    have hclose : ∀ n, deepest (')' :: cs) (n + 1) = deepest cs n := fun n => rfl
    rw [Nat.succ_add, hclose, hclose]
    exact ih h
  | case5 c cs n hopen hclose ih =>
    rw [deepest, if_neg hopen, if_neg hclose, deepest, if_neg hopen, if_neg hclose]
    exact ih h

/-- With more parentheses open before a text those opened in it are at least as deep. -/
lemma deepest_mono {cs : List Char} {n m : ℕ} (h : n ≤ m) : deepest cs n ≤ deepest cs m := by
  induction cs generalizing n m with
  | nil => exact Nat.le_refl _
  | cons c cs ih =>
    rw [deepest, deepest]
    split
    · have hrest : deepest cs (n + 1) ≤ deepest cs (m + 1) := ih (Nat.succ_le_succ h)
      omega
    · split
      · exact ih (Nat.sub_le_sub_right h 1)
      · exact ih h

/-- Text that is added behind a text does not make it less deep. -/
lemma deepest_le_append (a b : List Char) (n : ℕ) : deepest a n ≤ deepest (a ++ b) n := by
  induction a generalizing n with
  | nil => exact Nat.zero_le _
  | cons c a ih =>
    rw [List.cons_append, deepest, deepest]
    split
    · have hrest := ih (n + 1)
      omega
    · split
      · exact ih (n - 1)
      · exact ih n

/-- Blanks before a text do not make it deeper. -/
lemma deepest_append_of_blank {a : List Char} (ha : ∀ c ∈ a, isBlank c = true)
    (b : List Char) (n : ℕ) : deepest (a ++ b) n = deepest b n := by
  induction a with
  | nil => rfl
  | cons c a ih =>
    obtain ⟨hc, ha⟩ := List.forall_mem_cons.mp ha
    obtain ⟨hopen, hclose⟩ := ne_of_notMem_marks (notMem_marks_of_isBlank hc)
    rw [List.cons_append, deepest, if_neg hopen, if_neg hclose]
    exact ih ha

/-- Trimming does not make a text deeper. -/
lemma deepest_trim_le (cs : List Char) (n : ℕ) :
    deepest (trimEnd (trimStart cs)) n ≤ deepest cs n := by
  obtain ⟨before, after, heq, hbefore, -⟩ := exists_append_trim cs
  calc deepest (trimEnd (trimStart cs)) n
      ≤ deepest (trimEnd (trimStart cs) ++ after) n := deepest_le_append _ _ _
    _ = deepest (before ++ (trimEnd (trimStart cs) ++ after)) n :=
        (deepest_append_of_blank hbefore _ _).symm
    _ = deepest cs n := by rw [← List.append_assoc, ← heq]

end Text

end Clausal
