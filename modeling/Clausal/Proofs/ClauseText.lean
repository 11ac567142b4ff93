import Clausal.Proofs.NameClasses
import Clausal.Proofs.NameHygiene
import Clausal.Proofs.RoundTrip

/-!
# Reading the text of a clause

The clauses of a log are written as disjunctions of literals.  Such a text is a text of a formula: a
literal is written like an atom without a quantifier, and the disjuncts nest to the right.  A
disjunction of literals is its own prenex form and its own clause form, so what comes out is the
clause that was written.  The names have to be of the right class for this, which
`Attempt.Reached.isWellFormed_of_mem` says of every clause of every attempt.
-/

namespace Clausal

open Text

/-! ## Literals -/

namespace WrittenAtom

/-- The atom with the given sign and name and the texts of the given terms. -/
def ofTerms (negated : Bool) (name : String) (args : List Term) : WrittenAtom where
  binder := none
  negated := negated
  name := name
  arguments := if args.isEmpty then none else some (", ".intercalate (args.map Term.text))

variable {negated : Bool} {name : String} {args : List Term}

lemma ofTerms_of_ne_nil (hne : args ≠ []) :
    (ofTerms negated name args).arguments = some (", ".intercalate (args.map Term.text)) :=
  if_neg (by rwa [List.isEmpty_iff])

/-- Phrases with commas between them make a phrase. -/
lemma isPhrase_listChars (hne : args ≠ []) (hargs : ∀ t ∈ args, IsPhrase t.text.toList) :
    IsPhrase (Term.listChars args) := by
  induction args with
  | nil => exact absurd rfl hne
  | cons t ts ih =>
    obtain ⟨ht, hts⟩ := List.forall_mem_cons.mp hargs
    by_cases hnil : ts = []
    · subst hnil
      rw [Term.listChars, List.map_singleton, List.intercalate_singleton]
      exact ht
    · have hlist := ih hnil hts
      rw [Term.listChars_cons hnil]
      refine ⟨ht.trimmed.append hlist.trimmed [',', ' '], ht.balanced.append ?_⟩
      exact (hlist.balanced.cons (by decide) (by decide)).cons (by decide) (by decide)

/-- An atom that is made of a name and phrases can be read. -/
lemma isReadable_ofTerms (hname : IsName name) (hargs : ∀ t ∈ args, IsPhrase t.text.toList) :
    (ofTerms negated name args).IsReadable := by
  refine ⟨fun b hb => absurd hb (Option.not_mem_none b), hname.1, hname.2, fun s hs => ?_⟩
  by_cases hnil : args = []
  · subst hnil
    cases hs
  · rw [ofTerms_of_ne_nil hnil] at hs
    obtain rfl := Option.some.inj hs
    have hlist := isPhrase_listChars hnil hargs
    rw [← Term.toList_intercalate_text] at hlist
    refine ⟨hlist.balanced, ?_⟩
    rw [trim, hlist.trimmed.trim_eq, String.ofList_toList]

end WrittenAtom

/-- The text of a well-formed term is a phrase. -/
lemma Term.IsWellFormed.isPhrase {t : Term} (h : t.IsWellFormed) : IsPhrase t.text.toList := by
  induction h with
  | var hname hlower =>
    rw [text_var]
    exact (isOperand_of_forall_isWordChar hname.1 hname.2).toIsPhrase
  | const hname hlower =>
    rw [text_const]
    exact (isOperand_of_forall_isWordChar hname.1 hname.2).toIsPhrase
  | @app f args hname hne hargs ih =>
    -- an application looks like an atom
    have hatom : (Term.app f args).text.toList =
        f.toList ++ Statement.argumentChars (WrittenAtom.ofTerms false f args).arguments := by
      rw [toList_text_app, WrittenAtom.ofTerms_of_ne_nil hne, Statement.argumentChars,
        toList_intercalate_text]
      rfl
    rw [hatom]
    exact (Statement.isOperand_predicate (WrittenAtom.isReadable_ofTerms hname ih)).toIsPhrase

namespace Literal

/-- The atom as which a literal is written. -/
def written (l : Literal) : WrittenAtom :=
  .ofTerms (!l.positive) l.predicate l.args

lemma text_written (l : Literal) : l.written.text = l.text := by
  obtain ⟨predicate, args, positive⟩ := l
  cases args <;> cases positive <;>
    simp [written, WrittenAtom.ofTerms, WrittenAtom.text, text, String.append_assoc]

variable {l : Literal}

lemma IsWellFormed.isReadable_written (h : l.IsWellFormed) : l.written.IsReadable :=
  WrittenAtom.isReadable_ofTerms h.predicate fun t ht => (h.args t ht).isPhrase

/-- The text of a literal can stand beside a connective. -/
lemma IsWellFormed.isOperand (h : l.IsWellFormed) : IsOperand l.text.toList := by
  rw [← text_written]
  exact h.isReadable_written.isOperand

/-- The text of a literal is read as its atom.  There is no quantifier that could run together with
the name. -/
lemma IsWellFormed.writes (h : l.IsWellFormed) :
    Statement.Writes l.text.toList (.atom l.written) l.written.textLevels False := by
  have hapart : ¬ l.written.RunsTogether := fun hruns => absurd hruns.1 Bool.false_ne_true
  rw [← text_written]
  exact h.isReadable_written.writes.congr (iff_of_false hapart not_false)

/-- Lowering the atom of a literal gives the literal again. -/
lemma IsWellFormed.ofAtom_written (h : l.IsWellFormed) :
    Formula.ofAtom l.written = .ok (.atom l) := by
  have hargs : Term.readArguments l.written.name (l.written.arguments.getD "") = .ok l.args := by
    rw [Term.readArguments_eq_ok_iff]
    by_cases hnil : l.args = []
    · have hnone : l.written.arguments = none := by
        rw [written, hnil]
        rfl
      rw [hnone]
      exact Or.inl ⟨hnil, fun c hc => absurd hc List.not_mem_nil⟩
    · rw [written, WrittenAtom.ofTerms_of_ne_nil hnil]
      exact Or.inr (Term.listOfText?_intercalate hnil h.args)
  have hliteral : Literal.mk l.written.name l.args (!l.written.negated) = l := by
    rw [written, WrittenAtom.ofTerms, Bool.not_not]
  refine Formula.ofAtom_eq_ok_iff.mpr ⟨l.args, hargs, ?_⟩
  rw [hliteral]
  rfl

end Literal

/-! ## Disjunctions of literals -/

namespace Formula

/-- The disjunction of literals, nested to the right. -/
def disjunction (l : Literal) : List Literal → Formula
  | [] => .atom l
  | m :: rest => .or (.atom l) (disjunction m rest)

lemma isDisjunctive_disjunction (l : Literal) (rest : List Literal) :
    (disjunction l rest).IsDisjunctive := by
  induction rest generalizing l with
  | nil => exact trivial
  | cons m rest ih => exact ⟨trivial, ih m⟩

lemma productClauses_disjunction (l : Literal) (rest : List Literal) :
    (disjunction l rest).productClauses = [l :: rest] := by
  induction rest generalizing l with
  | nil => rfl
  | cons m rest ih =>
    rw [disjunction, productClauses, ih]
    rfl

namespace IsDisjunctive

variable {f : Formula}

lemma isMatrix (h : f.IsDisjunctive) : f.IsMatrix := by
  induction f with
  | atom l => exact trivial
  | or f g ihf ihg => exact ⟨ihf h.1, ihg h.2⟩
  | not | and | implies | quantified => exact h.elim

lemma eliminateImplications_eq (h : f.IsDisjunctive) : f.eliminateImplications = f := by
  induction f with
  | atom l => rfl
  | or f g ihf ihg => rw [eliminateImplications, ihf h.1, ihg h.2]
  | not | and | implies | quantified => exact h.elim

lemma negationNormal_eq (h : f.IsDisjunctive) : f.negationNormal false = f := by
  induction f with
  | atom l => rfl
  | or f g ihf ihg => rw [negationNormal, ihf h.1, ihg h.2]
  | not | and | implies | quantified => exact h.elim

lemma pullQuantifiers_eq (h : f.IsDisjunctive) (taken : List String) :
    f.pullQuantifiers taken = (⟨[], f⟩, taken) := by
  induction f generalizing taken with
  | atom l => simp only [pullQuantifiers]
  | or f g ihf ihg => simp only [pullQuantifiers, ihf h.1, ihg h.2, List.append_nil]
  | not | and | implies | quantified => exact h.elim

/-- A disjunction of literals is its own prenex form. -/
lemma toPrenex_eq (h : f.IsDisjunctive) : f.toPrenex = ⟨[], f⟩ := by
  rw [toPrenex, pushNegations, h.eliminateImplications_eq, h.negationNormal_eq,
    h.pullQuantifiers_eq]

end IsDisjunctive

/-- The only clause of a disjunction consists of its literals. -/
lemma clauses_disjunction (l : Literal) (rest : List Literal) (supply : SkolemSupply) :
    (disjunction l rest).clauses none supply =
      (.ok [Clause.ofLiterals (l :: rest) (.given .input)], supply) := by
  have hdisjunctive := isDisjunctive_disjunction l rest
  have hsplit := hdisjunctive.isMatrix.split_distribute
  rw [productClauses_disjunction] at hsplit
  rw [clauses]
  simp only [hdisjunctive.toPrenex_eq, Prenex.skolemize, skolemizeFrom, hsplit]
  rfl

end Formula

namespace Statement

/-- The statement as which the disjunction of literals is read. -/
def disjunction (l : Literal) : List Literal → Statement
  | [] => .atom l.written
  | m :: rest => join .or (.atom l.written) (disjunction m rest)

/-- The text of a disjunction of literals. -/
def disjunctionChars (l : Literal) : List Literal → List Char
  | [] => l.text.toList
  | m :: rest => l.text.toList ++ ' ' :: '∨' :: ' ' :: disjunctionChars m rest

/-- The levels that the text of a disjunction takes.  The operands of each connective stand one
level deeper than the connective. -/
def disjunctionLevels (l : Literal) : List Literal → ℕ
  | [] => l.written.textLevels
  | m :: rest => 1 + max l.written.textLevels (disjunctionLevels m rest)

variable {l : Literal} {rest : List Literal}

lemma isPhrase_disjunctionChars (h : ∀ m ∈ l :: rest, m.IsWellFormed) :
    IsPhrase (disjunctionChars l rest) := by
  induction rest generalizing l with
  | nil => exact (h l List.mem_cons_self).isOperand.toIsPhrase
  | cons m rest ih =>
    obtain ⟨hl, hrest⟩ := List.forall_mem_cons.mp h
    exact hl.isOperand.toIsPhrase.join (ih hrest) .or

/-- The text of a disjunction is read as a disjunction of the atoms of its literals. -/
lemma writes_disjunction (h : ∀ m ∈ l :: rest, m.IsWellFormed) :
    Writes (disjunctionChars l rest) (disjunction l rest) (disjunctionLevels l rest) False := by
  induction rest generalizing l with
  | nil => exact (h l List.mem_cons_self).writes
  | cons m rest ih =>
    obtain ⟨hl, hrest⟩ := List.forall_mem_cons.mp h
    have hjoin := hl.writes.join (ih hrest) hl.isOperand (isPhrase_disjunctionChars hrest) .or
    exact hjoin.congr or_self_iff

/-- Lowering the disjunction of the atoms of literals gives the disjunction of the literals. -/
lemma ofStatement_disjunction (h : ∀ m ∈ l :: rest, m.IsWellFormed) :
    Formula.ofStatement (disjunction l rest) = .ok (Formula.disjunction l rest) := by
  induction rest generalizing l with
  | nil => exact (h l List.mem_cons_self).ofAtom_written
  | cons m rest ih =>
    obtain ⟨hl, hrest⟩ := List.forall_mem_cons.mp h
    exact Formula.ofStatement_joined_eq_ok_iff.mpr
      ⟨.or, .atom l, Formula.disjunction m rest, rfl, hl.ofAtom_written, ih hrest, rfl⟩

/-- The clause form of the disjunction of the atoms of literals is one clause of these literals. -/
lemma clauses_disjunction (h : ∀ m ∈ l :: rest, m.IsWellFormed) (supply : SkolemSupply) :
    (disjunction l rest).clauses none supply =
      (.ok [Clause.ofLiterals (l :: rest) (.given .input)],
        supply.reserve (Formula.disjunction l rest)) := by
  rw [clauses, ofStatement_disjunction h]
  exact Formula.clauses_disjunction l rest _

/-- The texts of literals with `∨` between them make the text of their disjunction. -/
lemma toList_intercalate_text (l : Literal) (rest : List Literal) :
    (" ∨ ".intercalate ((l :: rest).map Literal.text)).toList = disjunctionChars l rest := by
  rw [String.toList_intercalate]
  induction rest generalizing l with
  | nil => exact List.intercalate_singleton
  | cons m rest ih =>
    have ih := ih m
    rw [List.map_cons, List.map_cons] at ih
    rw [List.map_cons, List.map_cons, List.map_cons, List.map_cons, List.intercalate_cons_cons, ih,
      List.append_assoc]
    rfl

end Statement

/-! ## Clauses -/

namespace Clause

/-- The levels that the text of a clause takes. -/
def textLevels (c : Clause) : ℕ :=
  match c.literals with
  | [] => 0
  | l :: rest => Statement.disjunctionLevels l rest

/-- How the text of a well-formed clause that is not empty is read as a whole. -/
lemma IsWellFormed.exists_parse_text {c : Clause} (h : c.IsWellFormed) (hne : c.isEmpty = false) :
    ∃ st d result, Statement.parse c.text = result.map some ∧
      Statement.Rereads st c.textLevels False 0 result ∧ (st.clauses none .initial).1 = .ok [d] ∧
      d.literals = c.literals := by
  obtain ⟨l, rest, hliterals⟩ := List.exists_cons_of_ne_nil (List.isEmpty_eq_false_iff.mp hne)
  have hwell : ∀ m ∈ l :: rest, m.IsWellFormed := hliterals ▸ h.literals
  have htext : c.text.toList = Statement.disjunctionChars l rest := by
    rw [text, hne, if_neg Bool.false_ne_true, hliterals]
    exact Statement.toList_intercalate_text l rest
  have hphrase : IsPhrase c.text.toList := by
    rw [htext]
    exact Statement.isPhrase_disjunctionChars hwell
  have hclauses := congrArg Prod.fst (Statement.clauses_disjunction hwell .initial)
  have hnodup : (l :: rest).eraseDups = l :: rest := eraseDups_of_nodup (hliterals ▸ h.nodup)
  rw [textLevels, hliterals, Statement.parse_of_isPhrase hphrase, htext]
  exact ⟨_, _, _, rfl, Statement.writes_disjunction hwell 0 0, hclauses, hnodup⟩

/-- The text of a clause of an attempt that can be reached, be it given or derived, is read back
unless it is nested too deeply.  The statement that is read has one clause, which has the same
literals in the same order. -/
theorem parse_text_of_reached {settings : Settings} {a : Attempt}
    {tried : List ParentPair} {c : Clause} (h : Attempt.Reached settings a tried)
    (hc : c ∈ a.registry.clauses.toList)
    (hne : c.isEmpty = false) :
    (Statement.maxNesting ≤ c.textLevels ∧
        ∃ position, Statement.parse c.text = .error ⟨.tooDeep, position⟩) ∨
      (c.textLevels < Statement.maxNesting ∧ ∃ st d, Statement.parse c.text = .ok (some st) ∧
        (st.clauses none .initial).1 = .ok [d] ∧ d.literals = c.literals) := by
  obtain ⟨st, d, result, hparse, hread, hclauses, hliterals⟩ :=
    (h.isWellFormed_of_mem c hc).exists_parse_text hne
  rw [hparse]
  cases hread with
  | same hfits _ => exact Or.inr ⟨by omega, st, d, rfl, hclauses, hliterals⟩
  | tooDeep position hdeep => exact Or.inl ⟨by omega, position, rfl⟩
  | badBoundVariable _ hmerges => exact hmerges.elim

/-- Two given clauses and a derived one are read back after the first step of the attempt at `P ∨ Q`
and `¬P`. -/
theorem parse_text_orPQ_notP :
    ∃ a tried, Attempt.Reached .standard a tried ∧
      a.registry.clauses.toList.map text = ["P ∨ Q", "¬P", "Q"] ∧
      ∀ c ∈ a.registry.clauses.toList, ∃ st d, Statement.parse c.text = .ok (some st) ∧
        (st.clauses none .initial).1 = .ok [d] ∧ d.literals = c.literals := by
  have hstart : intakePQ.start = .ok searchPQ :=
    Intake.start_eq clausesFrom_intakePQ (List.cons_ne_nil _ _)
  have hresult : searchPQ.step = (searchPQ.step.1, none) := Prod.ext rfl step_searchPQ
  have hstep : (Attempt.collecting intakePQ).step.2 = .searching searchPQ.step.1 := by
    rw [Attempt.step, hstart]
    exact congrArg (fun result => (Attempt.ofStep result).2) hresult
  have hreached := (Attempt.Reached.new.addAll addAll_intakePQ).step
  rw [hstep] at hreached
  have hclauses : (Attempt.searching searchPQ.step.1).registry.clauses.toList = _ :=
    clauses_step_searchPQ
  refine ⟨_, _, hreached, ?_, fun c hc => ?_⟩
  · rw [hclauses]
    rfl
  · have hfits : c.isEmpty = false ∧ c.textLevels < Statement.maxNesting := by
      rw [hclauses] at hc
      revert c
      decide
    rcases parse_text_of_reached hreached hc hfits.1 with ⟨hdeep, -⟩ | ⟨-, hread⟩
    · exact absurd hfits.2 (Nat.not_lt.mpr hdeep)
    · exact hread

end Clause

end Clausal
