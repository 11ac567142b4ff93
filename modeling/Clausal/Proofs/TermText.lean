import Clausal.Proofs.FormulaText
import Clausal.Term.Reading

/-!
# Terms and their texts

A well-formed term has names of word characters, variables that begin with a lowercase character,
constants that do not, and applications with at least one argument.  Reading gives well-formed terms
only, and the text of a well-formed term is read as this term.

Reading keeps a stack of open applications.  What is known of the stack is kept by every token, and
with it comes a bound on the terms that are read: no application is nested deeper than the
parentheses of the text.  In the other direction, `assembleText` puts the two passes of reading
together, and there is one equation for each piece of a text.
-/

namespace Clausal

namespace Text

/-! ## Names -/

/-- A name has at least one character, and all its characters are word characters. -/
def IsName (s : String) : Prop :=
  s.toList ≠ [] ∧ ∀ c ∈ s.toList, isWordChar c = true

/-- Whether a name begins with a lowercase character, as the names of variables do. -/
def beginsLowercase (s : String) : Bool :=
  s.toList.head?.any isLowercase

end Text

open Text

namespace Term

/-- A term as it can be written. -/
inductive IsWellFormed : Term → Prop
  | var {v : String} (hname : IsName v) (hlower : beginsLowercase v = true) : IsWellFormed (.var v)
  | const {c : String} (hname : IsName c) (hlower : beginsLowercase c = false) :
      IsWellFormed (.const c)
  | app {f : String} {args : List Term} (hname : IsName f) (hne : args ≠ [])
      (hargs : ∀ t ∈ args, IsWellFormed t) : IsWellFormed (.app f args)

/-- The first character of a name tells what it stands for. -/
lemma ofName_eq (s : String) : ofName s = if beginsLowercase s then .var s else .const s := by
  unfold ofName beginsLowercase
  cases s.toList with
  | nil => rfl
  | cons c cs => rfl

/-- A name that stands alone is read as a well-formed term. -/
lemma isWellFormed_ofName {s : String} (h : IsName s) : (ofName s).IsWellFormed := by
  rw [ofName_eq]
  split
  · rename_i hlower
    exact .var h hlower
  · rename_i hlower
    exact .const h (Bool.not_eq_true _ ▸ hlower)

/-! ## Depth of terms -/

/-- For every variable, constant and application in a term, the number of applications on the way
to it from the root, itself included. -/
def pathLengths : Term → List ℕ :=
  fold (fun _ => [0]) (fun _ => [0]) (fun _ ns => 1 :: ns.flatten.map (· + 1))

@[simp] lemma pathLengths_var (v : String) : (var v).pathLengths = [0] :=
  rfl

@[simp] lemma pathLengths_const (c : String) : (const c).pathLengths = [0] :=
  rfl

@[simp] lemma pathLengths_app (f : String) (args : List Term) :
    (app f args).pathLengths = 1 :: (args.flatMap pathLengths).map (· + 1) := by
  simp [pathLengths, List.flatMap]

lemma pathLengths_ofName (s : String) : (ofName s).pathLengths = [0] := by
  rw [ofName_eq]
  split <;> rfl

/-- A well-formed term that stands inside `opened` applications, with no more than `limit` in all on
the way to any of its parts. -/
structure FitsAt (limit opened : ℕ) (t : Term) : Prop where
  wellFormed : t.IsWellFormed
  pathLengths_le : ∀ n ∈ t.pathLengths, opened + n ≤ limit

variable {limit opened : ℕ}

lemma fitsAt_ofName {s : String} (hname : IsName s) (hopened : opened ≤ limit) :
    (ofName s).FitsAt limit opened := by
  refine ⟨isWellFormed_ofName hname, ?_⟩
  rw [pathLengths_ofName, List.forall_mem_singleton]
  exact hopened

/-- Arguments that fit inside an application make it fit. -/
lemma fitsAt_app {f : String} {args : List Term} (hname : IsName f) (hne : args ≠ [])
    (hopened : opened + 1 ≤ limit) (hargs : ∀ t ∈ args, t.FitsAt limit (opened + 1)) :
    (app f args).FitsAt limit opened := by
  refine ⟨.app hname hne fun t ht => (hargs t ht).wellFormed, ?_⟩
  rw [pathLengths_app, List.forall_mem_cons, List.forall_mem_map]
  refine ⟨hopened, fun n hn => ?_⟩
  obtain ⟨t, ht, hn⟩ := List.mem_flatMap.mp hn
  have hle := (hargs t ht).pathLengths_le n hn
  omega

end Term

/-! ## Tokens -/

namespace Token

/-- The names in a list of tokens are names, and where applications open no more than `limit` are
open, `opened` of them before the first token. -/
def Within (limit : ℕ) : List Token → (opened : ℕ) → Prop
  | [], _ => True
  | .name s :: rest, opened => IsName s ∧ Within limit rest opened
  | .call f :: rest, opened => IsName f ∧ opened + 1 ≤ limit ∧ Within limit rest (opened + 1)
  | .comma :: rest, opened => Within limit rest opened
  | .close :: rest, opened => Within limit rest (opened - 1)

variable {limit opened : ℕ} {word cs : List Char} {tokens : List Token}

/-- The characters of a word, which are kept backwards, make a name. -/
lemma isName_ofList_reverse (hne : ¬ word.isEmpty) (hword : ∀ c ∈ word, isWordChar c = true) :
    IsName (String.ofList word.reverse) := by
  rw [IsName, String.toList_ofList, Ne, List.reverse_eq_nil_iff, ← List.isEmpty_iff]
  exact ⟨hne, fun c hc => hword c (List.mem_reverse.mp hc)⟩

/-- The word before a token is a name, unless it is empty. -/
lemma within_endWord (hword : ∀ c ∈ word, isWordChar c = true) (h : Within limit tokens opened) :
    Within limit (endWord word tokens) opened := by
  unfold endWord
  split
  · exact h
  · rename_i hne
    exact ⟨isName_ofList_reverse hne hword, h⟩

/-- Spacing is blank. -/
lemma isBlank_of_isSpacing {c : Char} (hc : isSpacing c = true) : isBlank c = true := by
  simp only [isSpacing, Bool.or_eq_true, beq_iff_eq] at hc
  rcases hc with ((rfl | rfl) | rfl) | rfl <;> decide

/-- What a character does to the tokens: it goes on with a word, or it ends the word before it. -/
lemma scanFrom_cons_cases {c : Char} (h : scanFrom word (c :: cs) = some tokens) :
    isWordChar c = true ∧ scanFrom (c :: word) cs = some tokens ∨
      ∃ rest, scan cs = some rest ∧
        (c = '(' ∧ ¬ word.isEmpty ∧ tokens = .call (String.ofList word.reverse) :: rest ∨
          c = ',' ∧ tokens = endWord word (.comma :: rest) ∨
          c = ')' ∧ tokens = endWord word (.close :: rest) ∨
          isBlank c = true ∧ tokens = endWord word rest) := by
  rw [scanFrom] at h
  split at h
  · rename_i hc
    exact Or.inl ⟨hc, h⟩
  · split at h
    · rename_i hopen
      split at h
      · cases h
      · rename_i hempty
        obtain ⟨rest, hrest, rfl⟩ := Option.map_eq_some_iff.mp h
        exact Or.inr ⟨rest, hrest, Or.inl ⟨hopen, hempty, rfl⟩⟩
    · split at h
      · rename_i hcomma
        obtain ⟨rest, hrest, rfl⟩ := Option.map_eq_some_iff.mp h
        exact Or.inr ⟨rest, hrest, Or.inr (Or.inl ⟨hcomma, rfl⟩)⟩
      · split at h
        · rename_i hclose
          obtain ⟨rest, hrest, rfl⟩ := Option.map_eq_some_iff.mp h
          exact Or.inr ⟨rest, hrest, Or.inr (Or.inr (Or.inl ⟨hclose, rfl⟩))⟩
        · split at h
          · rename_i hspacing
            obtain ⟨rest, hrest, rfl⟩ := Option.map_eq_some_iff.mp h
            exact Or.inr ⟨rest, hrest,
              Or.inr (Or.inr (Or.inr ⟨isBlank_of_isSpacing hspacing, rfl⟩))⟩
          · cases h

/-- The tokens of a text open no more applications than the text opens parentheses. -/
lemma within_of_scanFrom (h : scanFrom word cs = some tokens)
    (hword : ∀ c ∈ word, isWordChar c = true) (hdeep : deepest cs opened ≤ limit) :
    Within limit tokens opened := by
  induction cs generalizing word tokens opened with
  | nil =>
    cases h
    exact within_endWord hword trivial
  | cons c cs ih =>
    have hpass : c ∉ marks → deepest cs opened ≤ limit := by
      intro hmark
      obtain ⟨hopen, hclose⟩ := ne_of_notMem_marks hmark
      rwa [deepest, if_neg hopen, if_neg hclose] at hdeep
    rcases scanFrom_cons_cases h with ⟨hc, h⟩ | ⟨rest, hrest, hcases⟩
    · exact ih h (List.forall_mem_cons.mpr ⟨hc, hword⟩) (hpass (notMem_marks_of_isWordChar hc))
    · have hnext : ∀ opened, deepest cs opened ≤ limit → Within limit rest opened :=
        fun opened => ih hrest fun c hc => absurd hc List.not_mem_nil
      rcases hcases with ⟨rfl, hempty, rfl⟩ | ⟨rfl, rfl⟩ | ⟨rfl, rfl⟩ | ⟨hc, rfl⟩
      · rw [deepest, if_pos rfl] at hdeep
        exact ⟨isName_ofList_reverse hempty hword, by omega, hnext _ (by omega)⟩
      · refine within_endWord hword ?_
        rw [Within]
        exact hnext opened (hpass (by decide))
      · refine within_endWord hword ?_
        rw [Within]
        exact hnext _ hdeep
      · exact within_endWord hword (hnext opened (hpass (notMem_marks_of_isBlank hc)))

end Token

/-! ## Reading -/

namespace Term

/-- The applications that are open can be completed: each has a name, and the terms read before it
fit where they stand. -/
def StackFits (limit : ℕ) : List (String × List Term) → Prop
  | [] => True
  | (f, before) :: outer =>
      IsName f ∧ outer.length + 1 ≤ limit ∧ (∀ t ∈ before, t.FitsAt limit outer.length) ∧
        StackFits limit outer

variable {limit : ℕ} {tokens : List Token} {expecting : Expecting}
  {outer : List (String × List Term)} {before ts : List Term}

/-- Terms that are read fit, if the terms read before and the open applications do. -/
lemma fitsAt_of_assemble (h : assemble tokens expecting outer before = some ts)
    (htokens : Token.Within limit tokens outer.length) (hlevel : outer.length ≤ limit)
    (houter : StackFits limit outer) (hbefore : ∀ t ∈ before, t.FitsAt limit outer.length)
    (hne : expecting = .separator → before ≠ []) : ts ≠ [] ∧ ∀ t ∈ ts, t.FitsAt limit 0 := by
  fun_induction assemble tokens expecting outer before with
  | case1 before =>
    obtain rfl := Option.some.inj h
    refine ⟨fun hnil => hne rfl (List.reverse_eq_nil_iff.mp hnil), fun t ht => ?_⟩
    exact hbefore t (List.mem_reverse.mp ht)
  | case2 s rest outer before ih =>
    obtain ⟨hname, hrest⟩ := htokens
    refine ih h hrest hlevel houter ?_ (fun _ => List.cons_ne_nil _ _)
    exact List.forall_mem_cons.mpr ⟨fitsAt_ofName hname hlevel, hbefore⟩
  | case3 f rest outer before ih =>
    obtain ⟨hname, hopened, hrest⟩ := htokens
    refine ih h hrest hopened ⟨hname, hopened, hbefore, houter⟩ ?_
      (fun heq => absurd heq (by decide))
    exact fun t ht => absurd ht List.not_mem_nil
  | case4 rest outer before ih =>
    exact ih h htokens hlevel houter hbefore (fun heq => absurd heq (by decide))
  | case5 rest f before outer inner ih =>
    obtain ⟨hname, hopened, hbefore', houter'⟩ := houter
    have hargs : ∀ t ∈ inner.reverse, t.FitsAt limit (outer.length + 1) :=
      fun t ht => hbefore t (List.mem_reverse.mp ht)
    have happ :=
      fitsAt_app hname (fun hnil => hne rfl (List.reverse_eq_nil_iff.mp hnil)) hopened hargs
    refine ih h htokens (Nat.le_of_succ_le hopened) houter' ?_ (fun _ => List.cons_ne_nil _ _)
    exact List.forall_mem_cons.mpr ⟨happ, hbefore'⟩
  | case6 => cases h

/-- The terms that a text lists are well formed and nested no deeper than its parentheses. -/
lemma fitsAt_of_listOfText? {s : String} (h : listOfText? s = some ts) :
    ts ≠ [] ∧ ∀ t ∈ ts, t.FitsAt (deepest s.toList 0) 0 := by
  obtain ⟨tokens, htokens, hts⟩ := Option.bind_eq_some_iff.mp h
  have hnil : ∀ c ∈ ([] : List Char), isWordChar c = true := fun c hc => absurd hc List.not_mem_nil
  refine fitsAt_of_assemble hts (Token.within_of_scanFrom htokens hnil (Nat.le_refl _))
    (Nat.zero_le _) trivial (fun t ht => absurd ht List.not_mem_nil)
    (fun heq => absurd heq (by decide))

/-! ## Reading a text piece by piece -/

/-- Reads the terms that a text lists where some applications are open and some terms are read. -/
def assembleText (cs : List Char) (expecting : Expecting) (outer : List (String × List Term))
    (before : List Term) : Option (List Term) :=
  (Token.scan cs).bind (assemble · expecting outer before)

/-- A text that can stand behind a term: there is nothing more, or a comma or a closing parenthesis
comes next. -/
def EndsTerm (rest : List Char) : Prop :=
  ∀ c ∈ rest.head?, c = ',' ∨ c = ')'

variable {f : String} {word name rest : List Char}

lemma scanFrom_comma (word rest : List Char) : Token.scanFrom word (',' :: rest) =
    (Token.scan rest).map fun tokens => Token.endWord word (.comma :: tokens) :=
  rfl

lemma scanFrom_close (word rest : List Char) : Token.scanFrom word (')' :: rest) =
    (Token.scan rest).map fun tokens => Token.endWord word (.close :: tokens) :=
  rfl

/-- Word characters are added to the word that is read. -/
lemma scanFrom_append (hname : ∀ c ∈ name, isWordChar c = true) :
    Token.scanFrom word (name ++ rest) = Token.scanFrom (name.reverse ++ word) rest := by
  induction name generalizing word with
  | nil => rfl
  | cons c name ih =>
    obtain ⟨hc, hname⟩ := List.forall_mem_cons.mp hname
    rw [List.cons_append, Token.scanFrom, if_pos hc, ih hname, List.reverse_cons, List.append_assoc]
    rfl

/-- A word ends where a comma, a closing parenthesis or nothing comes next. -/
lemma scanFrom_of_endsTerm (hword : word ≠ []) (hrest : EndsTerm rest) :
    Token.scanFrom word rest =
      (Token.scan rest).map (.name (String.ofList word.reverse) :: ·) := by
  have hend : ∀ tokens, Token.endWord word tokens = .name (String.ofList word.reverse) :: tokens :=
    fun tokens => if_neg (by rwa [List.isEmpty_iff])
  cases rest with
  | nil => exact congrArg some (hend [])
  | cons c rest =>
    rcases hrest c rfl with rfl | rfl
    · rw [Token.scan, scanFrom_comma, scanFrom_comma, Option.map_map]
      exact congrArg (Option.map · _) (funext fun tokens => hend (.comma :: tokens))
    · rw [Token.scan, scanFrom_close, scanFrom_close, Option.map_map]
      exact congrArg (Option.map · _) (funext fun tokens => hend (.close :: tokens))

/-- A name that stands alone. -/
lemma assembleText_name (hname : IsName f) (hrest : EndsTerm rest) :
    assembleText (f.toList ++ rest) .term outer before =
      assembleText rest .separator outer (ofName f :: before) := by
  have hword : f.toList.reverse ++ [] ≠ [] := by
    rw [List.append_nil, Ne, List.reverse_eq_nil_iff]
    exact hname.1
  rw [assembleText, Token.scan, scanFrom_append hname.2, scanFrom_of_endsTerm hword hrest,
    List.append_nil, List.reverse_reverse, String.ofList_toList, Option.bind_map]
  rfl

/-- A name with an opening parenthesis. -/
lemma assembleText_call (hname : IsName f) :
    assembleText (f.toList ++ '(' :: rest) .term outer before =
      assembleText rest .term ((f, before) :: outer) [] := by
  have hword : f.toList.reverse.isEmpty = false := by
    rw [List.isEmpty_reverse, List.isEmpty_eq_false_iff]
    exact hname.1
  rw [assembleText, Token.scan, scanFrom_append hname.2, List.append_nil, Token.scanFrom,
    if_neg (by decide), if_pos rfl, hword, if_neg Bool.false_ne_true, List.reverse_reverse,
    String.ofList_toList, Option.bind_map]
  rfl

/-- A comma and the blank after it. -/
lemma assembleText_comma :
    assembleText (',' :: ' ' :: rest) .separator outer before =
      assembleText rest .term outer before := by
  have hblank : Token.scan (' ' :: rest) = Token.scan rest := by
    rw [Token.scan, Token.scanFrom]
    exact Option.map_id'
  rw [assembleText, Token.scan, scanFrom_comma, hblank, Option.bind_map]
  rfl

/-- A closing parenthesis. -/
lemma assembleText_close {inner : List Term} :
    assembleText (')' :: rest) .separator ((f, before) :: outer) inner =
      assembleText rest .separator outer (.app f inner.reverse :: before) := by
  rw [assembleText, Token.scan, scanFrom_close, Option.bind_map]
  rfl

/-- The characters of terms that are listed. -/
def listChars (ts : List Term) : List Char :=
  [',', ' '].intercalate (ts.map fun t => t.text.toList)

lemma toList_intercalate_text (ts : List Term) :
    (", ".intercalate (ts.map text)).toList = listChars ts := by
  rw [String.toList_intercalate, List.map_map]
  rfl

lemma toList_text_app (f : String) (args : List Term) :
    (app f args).text.toList = f.toList ++ '(' :: (listChars args ++ [')']) := by
  rw [text_app, String.toList_append, String.toList_append, String.toList_append,
    toList_intercalate_text, List.append_assoc]
  simp

lemma listChars_cons {t : Term} {ts : List Term} (hts : ts ≠ []) :
    listChars (t :: ts) = t.text.toList ++ ',' :: ' ' :: listChars ts := by
  obtain ⟨u, ts, rfl⟩ := List.exists_cons_of_ne_nil hts
  rw [listChars, List.map_cons, List.map_cons, List.intercalate_cons_cons, List.append_assoc]
  rfl

/-- What a text of terms one after the other does to reading. -/
lemma assembleText_listChars {ts : List Term} (hne : ts ≠ [])
    (hts : ∀ t ∈ ts, ∀ rest, EndsTerm rest → ∀ outer before,
      assembleText (t.text.toList ++ rest) .term outer before =
        assembleText rest .separator outer (t :: before))
    (hrest : EndsTerm rest) (before : List Term) :
    assembleText (listChars ts ++ rest) .term outer before =
      assembleText rest .separator outer (ts.reverse ++ before) := by
  induction ts generalizing before with
  | nil => exact absurd rfl hne
  | cons t ts ih =>
    obtain ⟨ht, hts⟩ := List.forall_mem_cons.mp hts
    by_cases hnil : ts = []
    · subst hnil
      rw [listChars, List.map_singleton, List.intercalate_singleton]
      exact ht rest hrest outer before
    · have hends : EndsTerm (',' :: ' ' :: (listChars ts ++ rest)) := by
        rintro c ⟨⟩
        exact Or.inl rfl
      rw [listChars_cons hnil, List.append_assoc, List.cons_append, List.cons_append,
        ht _ hends, assembleText_comma, ih hnil hts, List.reverse_cons, List.append_assoc]
      rfl

/-- The text of a well-formed term is read as this term. -/
lemma assembleText_text {t : Term} (ht : t.IsWellFormed) (rest : List Char) (hrest : EndsTerm rest)
    (outer : List (String × List Term)) (before : List Term) :
    assembleText (t.text.toList ++ rest) .term outer before =
      assembleText rest .separator outer (t :: before) := by
  induction ht generalizing rest outer before with
  | var hname hlower =>
    rw [text_var, assembleText_name hname hrest, ofName_eq, if_pos hlower]
  | const hname hlower =>
    rw [text_const, assembleText_name hname hrest, ofName_eq, hlower, if_neg Bool.false_ne_true]
  | @app f args hname hne hargs ih =>
    have hclose : EndsTerm (')' :: rest) := by
      rintro c ⟨⟩
      exact Or.inr rfl
    rw [toList_text_app, List.append_assoc, List.cons_append, List.append_assoc,
      List.singleton_append, assembleText_call hname, assembleText_listChars hne ih hclose,
      List.append_nil, assembleText_close, List.reverse_reverse]

/-- The texts of well-formed terms, separated by commas, list these terms. -/
lemma listOfText?_intercalate {ts : List Term} (hne : ts ≠ []) (hts : ∀ t ∈ ts, t.IsWellFormed) :
    listOfText? (", ".intercalate (ts.map text)) = some ts := by
  have hnil : EndsTerm [] := fun c hc => absurd hc (Option.not_mem_none c)
  have hlist : assembleText (listChars ts ++ []) .term [] [] =
      assembleText [] .separator [] (ts.reverse ++ []) :=
    assembleText_listChars hne (fun t ht => assembleText_text (hts t ht)) hnil []
  rw [List.append_nil, List.append_nil] at hlist
  rw [listOfText?, toList_intercalate_text]
  refine hlist.trans ?_
  rw [assembleText, Token.scan]
  exact congrArg some (List.reverse_reverse ts)

/-! ## The shape of argument lists -/

/-- A word is the first thing in an entry, and nothing but a separator can follow it. -/
lemma exists_assemble_of_endWord
    (h : assemble (Token.endWord word tokens) expecting outer before = some ts) :
    ∃ expecting' before', assemble tokens expecting' outer before' = some ts ∧
      decide (expecting' = .term) = (decide (expecting = .term) && word.isEmpty) := by
  unfold Token.endWord at h
  split at h
  · rename_i hempty
    exact ⟨expecting, before, h, by rw [hempty, Bool.and_true]⟩
  · rename_i hempty
    cases expecting with
    | separator => cases h
    | term => exact ⟨.separator, _, h, by simp [hempty]⟩

@[simp] lemma shapeFault_open (cs : List Char) (depth : ℕ) (entryEmpty : Bool) :
    shapeFault ('(' :: cs) depth entryEmpty = shapeFault cs (depth + 1) true := by
  cases depth <;> rfl

@[simp] lemma shapeFault_close (cs : List Char) (depth : ℕ) :
    shapeFault (')' :: cs) (depth + 1) false = shapeFault cs depth false :=
  rfl

@[simp] lemma shapeFault_comma (cs : List Char) (depth : ℕ) :
    shapeFault (',' :: cs) depth false = shapeFault cs depth true := by
  cases depth <;> rfl

/-- A word character begins an entry or goes on with it. -/
lemma shapeFault_word {c : Char} (hc : isWordChar c = true) (cs : List Char) (depth : ℕ)
    (entryEmpty : Bool) : shapeFault (c :: cs) depth entryEmpty = shapeFault cs depth false := by
  obtain ⟨hopen, hclose⟩ := ne_of_notMem_marks (notMem_marks_of_isWordChar hc)
  have hcomma : c ≠ ',' := fun heq => absurd (heq ▸ hc) (by decide)
  have hblank := isBlank_of_isWordChar hc
  cases depth <;> simp [shapeFault, hopen, hclose, hcomma, hblank]

/-- A blank makes no difference. -/
lemma shapeFault_blank {c : Char} (hc : isBlank c = true) (cs : List Char) (depth : ℕ)
    (entryEmpty : Bool) :
    shapeFault (c :: cs) depth entryEmpty = shapeFault cs depth entryEmpty := by
  obtain ⟨hopen, hclose⟩ := ne_of_notMem_marks (notMem_marks_of_isBlank hc)
  have hcomma : c ≠ ',' := fun heq => absurd (heq ▸ hc) (by decide)
  cases depth <;> simp [shapeFault, hopen, hclose, hcomma, hc]

/-- A text that lists terms has the shape of an argument list.  An entry is empty as long as a term
is expected and no word has begun. -/
lemma shapeFault_eq_none {cs : List Char} (hscan : Token.scanFrom word cs = some tokens)
    (h : assemble tokens expecting outer before = some ts) :
    shapeFault cs outer.length (decide (expecting = .term) && word.isEmpty) = none := by
  induction cs generalizing word tokens expecting outer before with
  | nil =>
    cases hscan
    obtain ⟨expecting', before', h, hempty⟩ := exists_assemble_of_endWord h
    rw [← hempty]
    cases expecting' with
    | term => cases h
    | separator =>
      cases outer with
      | nil => rfl
      | cons _ _ => cases h
  | cons c cs ih =>
    rcases Token.scanFrom_cons_cases hscan with ⟨hc, hscan⟩ | ⟨rest, hrest, hcases⟩
    · have hnext := ih hscan h
      rw [List.isEmpty_cons, Bool.and_false] at hnext
      rwa [shapeFault_word hc]
    · rcases hcases with ⟨rfl, -, rfl⟩ | ⟨rfl, rfl⟩ | ⟨rfl, rfl⟩ | ⟨hc, rfl⟩
      · rw [shapeFault_open]
        cases expecting with
        | term => exact ih hrest h
        | separator => cases h
      · obtain ⟨expecting', before', h, hempty⟩ := exists_assemble_of_endWord h
        rw [← hempty]
        cases expecting' with
        | term => cases h
        | separator => exact (shapeFault_comma _ _).trans (ih hrest h)
      · obtain ⟨expecting', before', h, hempty⟩ := exists_assemble_of_endWord h
        rw [← hempty]
        cases expecting' with
        | term => cases h
        | separator =>
          cases outer with
          | nil => cases h
          | cons _ outer => exact (shapeFault_close _ _).trans (ih hrest h)
      · obtain ⟨expecting', before', h, hempty⟩ := exists_assemble_of_endWord h
        have hnext := ih hrest h
        rw [List.isEmpty_nil, Bool.and_true, hempty] at hnext
        rwa [shapeFault_blank hc]

lemma shapeFault_of_listOfText? {s : String} (h : listOfText? s = some ts) :
    shapeFault s.toList 0 true = none := by
  obtain ⟨tokens, htokens, hts⟩ := Option.bind_eq_some_iff.mp h
  exact shapeFault_eq_none htokens hts

/-- Blank text is an empty entry. -/
lemma shapeFault_of_forall_isBlank {cs : List Char} (h : ∀ c ∈ cs, isBlank c = true) :
    shapeFault cs 0 true = some .emptyEntry := by
  induction cs with
  | nil => rfl
  | cons c cs ih =>
    obtain ⟨hc, hcs⟩ := List.forall_mem_cons.mp h
    rw [shapeFault_blank hc]
    exact ih hcs

/-- The arguments of a predicate are the terms that their text lists, and there are none if it is
blank. -/
lemma readArguments_eq_ok_iff {predicate arguments : String} :
    readArguments predicate arguments = .ok ts ↔
      ts = [] ∧ (∀ c ∈ arguments.toList, isBlank c = true) ∨ listOfText? arguments = some ts := by
  unfold readArguments
  cases hblank : arguments.toList.all isBlank with
  | true =>
    rw [List.all_eq_true] at hblank
    have hnot : listOfText? arguments ≠ some ts := by
      intro hlist
      have hshape := shapeFault_of_listOfText? hlist
      rw [shapeFault_of_forall_isBlank hblank] at hshape
      cases hshape
    rw [if_pos rfl, or_iff_left hnot, and_iff_left hblank, Except.ok.injEq, eq_comm]
  | false =>
    have hnot : ¬ ∀ c ∈ arguments.toList, isBlank c = true := by
      rw [← List.all_eq_true, hblank]
      exact Bool.false_ne_true
    rw [if_neg Bool.false_ne_true, or_iff_right fun h => hnot h.2]
    constructor
    · intro h
      split at h
      · cases h
      · cases h
      · split at h
        · rename_i hlist
          rw [hlist, Except.ok.inj h]
        · cases h
    · intro hlist
      rw [shapeFault_of_listOfText? hlist, hlist]

/-! ## Reading and writing -/

/-- A text is read as a single term if it lists this term and no other. -/
lemma read_eq_ok_iff {s : String} {t : Term} : read s = .ok t ↔ listOfText? s = some [t] := by
  unfold read
  constructor
  · intro h
    split at h
    · rename_i u hlist
      rw [hlist, Except.ok.inj h]
    · cases h
  · intro hlist
    rw [hlist]

/-- Every term that is read is well formed, and every well-formed term is read from its text.  The
texts of well-formed terms, separated by commas, have the shape of an argument list and are read as
these terms, whatever the predicate is. -/
theorem read_text_and_readArguments_texts :
    (∀ (s : String) (t : Term), read s = .ok t → t.IsWellFormed) ∧
    (∀ t : Term, t.IsWellFormed → read t.text = .ok t) ∧
    ∀ (predicate : String) (ts : List Term), ts ≠ [] → (∀ t ∈ ts, t.IsWellFormed) →
      shapeFault (", ".intercalate (ts.map text)).toList 0 true = none ∧
        readArguments predicate (", ".intercalate (ts.map text)) = .ok ts := by
  refine ⟨fun s t h => ?_, fun t ht => ?_, fun predicate ts hne hts => ?_⟩
  · have hlist := read_eq_ok_iff.mp h
    exact ((fitsAt_of_listOfText? hlist).2 t (List.mem_singleton.mpr rfl)).wellFormed
  · have hlist := listOfText?_intercalate (List.cons_ne_nil t []) (List.forall_mem_singleton.mpr ht)
    exact read_eq_ok_iff.mpr hlist
  · have hlist := listOfText?_intercalate hne hts
    exact ⟨shapeFault_of_listOfText? hlist, readArguments_eq_ok_iff.mpr (Or.inr hlist)⟩

/-- The term `f(x, g(A))`. -/
def fxgA : Term :=
  .app "f" [.var "x", .app "g" [.const "A"]]

/-- Spacing is lost when the term `f(x, g(A))` is read, so that its text is another one. -/
theorem read_text_and_readArguments_fxgA :
    read " f( x ,g(A) ) " = .ok fxgA ∧ fxgA.IsWellFormed ∧ read fxgA.text = .ok fxgA ∧
      readArguments "P" (", ".intercalate ([fxgA, .const "B"].map text)) =
        .ok [fxgA, .const "B"] := by
  obtain ⟨hread, htext, harguments⟩ := read_text_and_readArguments_texts
  have hfxgA : read " f( x ,g(A) ) " = .ok fxgA := rfl
  have hB : (const "B").IsWellFormed := hread "B" _ rfl
  have hboth : ∀ t ∈ [fxgA, .const "B"], t.IsWellFormed :=
    List.forall_mem_cons.mpr ⟨hread _ _ hfxgA, List.forall_mem_singleton.mpr hB⟩
  exact ⟨hfxgA, hread _ _ hfxgA, htext _ (hread _ _ hfxgA),
    (harguments "P" _ (List.cons_ne_nil _ _) hboth).2⟩

end Term

end Clausal
