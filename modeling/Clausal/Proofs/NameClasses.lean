import Clausal.Proofs.Calls
import Clausal.Proofs.MostGeneralUnifier
import Clausal.Proofs.NestingLimit
import Clausal.Proofs.Saturation

/-!
# Classes of names

Names consist of word characters, and the first character of a name tells variables from constants.
The names that a text gives are in these classes.  So are all names that are made later: the
variants of bound variables, the variables with the number of their formula, the Skolem symbols, and
the variables of clauses that are renamed apart.  Each pass keeps the classes, so every clause of
every attempt is made of well-formed literals.

A bound variable is only known to be lowercase when it is read, but it may become an argument of a
Skolem function.  That lowercase characters are word characters is seen by comparing the two sets
interval by interval.
-/

namespace Clausal

open Text

/-! ## Sets of code points -/

namespace CodePointSet

/-- The boundaries without the intervals at the beginning that end at or before a point. -/
def dropBelow (n : ℕ) : List ℕ → List ℕ
  | first :: stop :: rest =>
      if first ≤ stop ∧ stop ≤ n then dropBelow n rest else first :: stop :: rest
  | boundaries => boundaries

/-- Whether each interval of the first boundaries lies in an interval of the second ones. -/
def nestedIn : List ℕ → List ℕ → Bool
  | [], _ => true
  | [_], _ => false
  | first :: stop :: rest, boundaries =>
      match dropBelow first boundaries with
      | low :: high :: more =>
          decide (low ≤ first) && decide (stop ≤ high) && nestedIn rest (low :: high :: more)
      | _ => false

variable {n : ℕ}

/-- A point lies in the first interval or further on. -/
lemma inside_cons_cons_iff {first stop : ℕ} {rest : List ℕ} :
    inside (first :: stop :: rest) n = true ↔ first ≤ n ∧ (n < stop ∨ inside rest n = true) := by
  rcases Nat.lt_or_ge n stop with hlt | hge
  · simp [inside, hlt, Nat.not_le.mpr hlt]
  · simp [inside, hge, Nat.not_lt.mpr hge]

lemma inside_of_dropBelow {m : ℕ} {boundaries : List ℕ} (hmn : m ≤ n)
    (h : inside (dropBelow m boundaries) n = true) : inside boundaries n = true := by
  fun_induction dropBelow m boundaries with
  | case1 first stop rest hbelow ih =>
    have hfirst : first ≤ n := hbelow.1.trans (hbelow.2.trans hmn)
    exact inside_cons_cons_iff.mpr ⟨hfirst, Or.inr (ih h)⟩
  | case2 first stop rest hbelow => exact h
  | case3 boundaries hshort => exact h

/-- The points of a set lie in a set in which its intervals are nested. -/
lemma inside_of_nestedIn {as bs : List ℕ} (h : nestedIn as bs = true) (hn : inside as n = true) :
    inside bs n = true := by
  fun_induction nestedIn as bs with
  | case1 bs => cases hn
  | case2 a bs => cases h
  | case3 first stop rest bs low high more hdrop ih =>
    simp only [Bool.and_eq_true, decide_eq_true_eq] at h
    obtain ⟨⟨hlow, hhigh⟩, hrest⟩ := h
    obtain ⟨hfirst, hn⟩ := inside_cons_cons_iff.mp hn
    refine inside_of_dropBelow hfirst ?_
    rw [hdrop]
    rcases hn with hlt | hn
    · exact inside_cons_cons_iff.mpr ⟨hlow.trans hfirst, Or.inl (Nat.lt_of_lt_of_le hlt hhigh)⟩
    · exact ih hrest hn
  | case4 first stop rest bs hshort => cases h

set_option maxRecDepth 100000 in
lemma nestedIn_lowercase_alphabetic :
    nestedIn lowercase.boundaries alphabetic.boundaries = true := by
  decide

end CodePointSet

/-! ## Names of variables -/

namespace Text

/-- Lowercase characters are word characters. -/
lemma isWordChar_of_isLowercase {c : Char} (h : isLowercase c = true) : isWordChar c = true := by
  have halphabetic : CodePointSet.alphabetic.contains c = true :=
    CodePointSet.inside_of_nestedIn CodePointSet.nestedIn_lowercase_alphabetic h
  rw [isWordChar, halphabetic]
  rfl

/-- Digits are word characters. -/
lemma isWordChar_of_isDigit {c : Char} (h : c.isDigit = true) : isWordChar c = true := by
  simp only [Char.isDigit, Bool.and_eq_true, decide_eq_true_eq] at h
  have hdigits : CodePointSet.inside [48, 58] c.toNat = true :=
    CodePointSet.inside_cons_cons_iff.mpr ⟨h.1, Or.inl (Nat.lt_succ_of_le h.2)⟩
  have hnumeric : isNumeric c = true := CodePointSet.inside_of_nestedIn (by decide) hdigits
  rw [isWordChar, hnumeric, Bool.or_true]
  rfl

/-- The characters of a number are word characters. -/
lemma isWordChar_of_mem_toString {n : ℕ} : ∀ c ∈ (toString n).toList, isWordChar c = true := by
  intro c hc
  rw [Nat.toString_eq_repr, Nat.toList_repr] at hc
  exact isWordChar_of_isDigit (Nat.isDigit_of_mem_toDigits (by decide) (by decide) hc)

variable {v s : String}

lemma IsName.append (h : IsName v) (hs : ∀ c ∈ s.toList, isWordChar c = true) :
    IsName (v ++ s) := by
  rw [IsName, String.toList_append, List.forall_mem_append]
  exact ⟨List.append_ne_nil_of_left_ne_nil h.1 _, h.2, hs⟩

/-- What a name begins with does not depend on what is put behind it. -/
lemma beginsLowercase_append (h : IsName v) : beginsLowercase (v ++ s) = beginsLowercase v := by
  obtain ⟨c, rest, hv⟩ := List.exists_cons_of_ne_nil h.1
  rw [beginsLowercase, beginsLowercase, String.toList_append, hv]
  rfl

/-- A name that begins with a lowercase character. -/
structure IsVariableName (v : String) : Prop where
  isName : IsName v
  beginsLowercase : beginsLowercase v = true

lemma IsVariableName.append (h : IsVariableName v) (hs : ∀ c ∈ s.toList, isWordChar c = true) :
    IsVariableName (v ++ s) :=
  ⟨h.isName.append hs, (beginsLowercase_append h.isName).trans h.beginsLowercase⟩

lemma IsVariableName.append_toString (h : IsVariableName v) (n : ℕ) :
    IsVariableName (v ++ toString n) :=
  h.append isWordChar_of_mem_toString

lemma IsVariableName.append_underscore (h : IsVariableName v) : IsVariableName (v ++ "_") :=
  h.append (List.all_eq_true.mp (by decide))

end Text

/-! ## Terms and literals -/

/-- A replacement gives a well-formed term for each name of a variable. -/
def KeepsClasses (σ : String → Term) : Prop :=
  ∀ v, IsVariableName v → (σ v).IsWellFormed

lemma Text.IsVariableName.isWellFormed {v : String} (h : IsVariableName v) :
    (Term.var v).IsWellFormed :=
  .var h.isName h.beginsLowercase

lemma keepsClasses_binding {r : Term} (h : r.IsWellFormed) (v : String) :
    KeepsClasses (Term.binding v r) := by
  intro w hw
  rw [Term.binding]
  split
  · exact h
  · exact hw.isWellFormed

lemma keepsClasses_rename {ρ : String → String} (h : ∀ v, IsVariableName v → IsVariableName (ρ v)) :
    KeepsClasses fun v => .var (ρ v) :=
  fun v hv => (h v hv).isWellFormed

lemma Term.IsWellFormed.subst {t : Term} {σ : String → Term} (h : t.IsWellFormed)
    (hσ : KeepsClasses σ) : (t.subst σ).IsWellFormed := by
  induction h with
  | var hname hlower => exact hσ _ ⟨hname, hlower⟩
  | const hname hlower => exact .const hname hlower
  | app hname hne hargs ih =>
    rw [Term.subst_app]
    exact .app hname (fun hnil => hne (List.map_eq_nil_iff.mp hnil)) (List.forall_mem_map.mpr ih)

namespace Literal

/-- A literal as it can be written. -/
structure IsWellFormed (l : Literal) : Prop where
  predicate : IsName l.predicate
  args : ∀ t ∈ l.args, t.IsWellFormed

variable {l : Literal}

lemma IsWellFormed.subst {σ : String → Term} (h : l.IsWellFormed) (hσ : KeepsClasses σ) :
    (l.subst σ).IsWellFormed :=
  ⟨h.predicate, List.forall_mem_map.mpr fun t ht => (h.args t ht).subst hσ⟩

lemma IsWellFormed.complement (h : l.IsWellFormed) : l.complement.IsWellFormed :=
  ⟨h.predicate, h.args⟩

end Literal

/-! ## Formulas -/

namespace Formula

/-- A formula of well-formed literals under binders with names of variables. -/
def IsWellFormed : Formula → Prop
  | .atom l => l.IsWellFormed
  | .not f => f.IsWellFormed
  | .and f g | .or f g | .implies f g => f.IsWellFormed ∧ g.IsWellFormed
  | .quantified _ v f => IsVariableName v ∧ f.IsWellFormed

variable {f g : Formula}

lemma IsWellFormed.replace (h : f.IsWellFormed) (v : String) {r : Term} (hr : r.IsWellFormed) :
    (f.replace v r).IsWellFormed := by
  induction f with
  | atom l => exact Literal.IsWellFormed.subst h (keepsClasses_binding hr v)
  | not f ih => exact ih h
  | and f g ihf ihg | or f g ihf ihg | implies f g ihf ihg => exact ⟨ihf h.1, ihg h.2⟩
  | quantified q w f ih =>
    refine ⟨h.1, ?_⟩
    split
    · exact h.2
    · exact ih h.2

lemma IsWellFormed.mapLiterals (h : f.IsWellFormed) {k : Literal → Literal}
    (hk : ∀ l : Literal, l.IsWellFormed → (k l).IsWellFormed) : (f.mapLiterals k).IsWellFormed := by
  induction f with
  | atom l => exact hk l h
  | not f ih => exact ih h
  | and f g ihf ihg | or f g ihf ihg | implies f g ihf ihg => exact ⟨ihf h.1, ihg h.2⟩
  | quantified q w f ih => exact ⟨h.1, ih h.2⟩

lemma IsWellFormed.bindAll (h : f.IsWellFormed) {binders : List Binder}
    (hbinders : ∀ b ∈ binders, IsVariableName b.var) : (bindAll binders f).IsWellFormed := by
  induction binders with
  | nil => exact h
  | cons b binders ih =>
    obtain ⟨hb, hrest⟩ := List.forall_mem_cons.mp hbinders
    exact ⟨hb, ih hrest⟩

lemma IsWellFormed.withLead (h : f.IsWellFormed) (negated : Bool) {binders : List Binder}
    (hbinders : ∀ b ∈ binders, IsVariableName b.var) :
    (withLead negated binders f).IsWellFormed := by
  cases negated with
  | false => exact h.bindAll hbinders
  | true => exact h.bindAll hbinders

lemma IsWellFormed.join (hf : f.IsWellFormed) (hg : g.IsWellFormed) (c : Connective) :
    (join c f g).IsWellFormed := by
  cases c <;> exact ⟨hf, hg⟩

/-! ### Reading -/

lemma isVariableName_of_isReadable {b : Binder} (h : b.IsReadable) : IsVariableName b.var := by
  obtain ⟨c, hc, heq⟩ := h
  have hchars : b.var.toList = [c] := by simp [heq]
  refine ⟨⟨?_, ?_⟩, ?_⟩
  · rw [hchars]
    exact List.cons_ne_nil _ _
  · rw [hchars, List.forall_mem_singleton]
    exact isWordChar_of_isLowercase hc
  · rw [beginsLowercase, hchars]
    exact hc

/-- The arguments of a predicate are read as well-formed terms. -/
lemma isWellFormed_of_readArguments {predicate arguments : String} {args : List Term}
    (h : Term.readArguments predicate arguments = .ok args) : ∀ t ∈ args, t.IsWellFormed := by
  rcases Term.readArguments_eq_ok_iff.mp h with ⟨rfl, -⟩ | hlist
  · exact fun t ht => absurd ht List.not_mem_nil
  · exact fun t ht => ((Term.fitsAt_of_listOfText? hlist).2 t ht).wellFormed

/-- A readable statement says a well-formed formula. -/
lemma isWellFormed_of_ofStatement {st : Statement} (hst : st.IsReadable)
    (h : ofStatement st = .ok f) : f.IsWellFormed := by
  induction st generalizing f with
  | atom a =>
    obtain ⟨args, hargs, rfl⟩ := ofAtom_eq_ok_iff.mp h
    have hatom : WrittenAtom.IsReadable a := hst
    have hliteral :
        (Formula.atom { predicate := a.name, args, positive := !a.negated }).IsWellFormed :=
      ⟨⟨hatom.name_ne_nil, hatom.name⟩, isWellFormed_of_readArguments hargs⟩
    exact hliteral.bindAll fun b hb =>
      isVariableName_of_isReadable (hatom.binder b (Option.mem_toList.mp hb))
  | «scoped» negated binders connective operand ih =>
    obtain ⟨-, g, hg, rfl⟩ := ofStatement_scoped_eq_ok_iff.mp h
    obtain ⟨-, -, hbinders, -, hoperand⟩ := hst
    exact (ih hoperand hg).withLead negated fun b hb => isVariableName_of_isReadable (hbinders b hb)
  | joined negated binders connective left right ihl ihr =>
    obtain ⟨c, g, k, -, hg, hk, rfl⟩ := ofStatement_joined_eq_ok_iff.mp h
    obtain ⟨-, hbinders, hleft, hright⟩ := hst
    exact ((ihl hleft hg).join (ihr hright hk) c).withLead negated fun b hb =>
      isVariableName_of_isReadable (hbinders b hb)

/-- A text says a well-formed formula. -/
lemma isWellFormed_of_readFormula? {text : String} (h : readFormula? text = some (some f)) :
    f.IsWellFormed := by
  obtain ⟨st, hparse, hlower⟩ := exists_statement_of_readFormula? h
  exact isWellFormed_of_ofStatement (Statement.isReadable_of_parse hparse) hlower

/-! ### Normal forms -/

lemma IsWellFormed.eliminateImplications (h : f.IsWellFormed) :
    f.eliminateImplications.IsWellFormed := by
  induction f with
  | atom l => exact h
  | not f ih => exact ih h
  | and f g ihf ihg | or f g ihf ihg | implies f g ihf ihg => exact ⟨ihf h.1, ihg h.2⟩
  | quantified q w f ih => exact ⟨h.1, ih h.2⟩

lemma IsWellFormed.negationNormal (h : f.IsWellFormed) (negate : Bool) :
    (f.negationNormal negate).IsWellFormed := by
  induction f generalizing negate with
  | atom l =>
    cases negate with
    | false => exact h
    | true => exact Literal.IsWellFormed.complement h
  | not f ih => exact ih h _
  | and f g ihf ihg | or f g ihf ihg | implies f g ihf ihg =>
    cases negate <;> exact ⟨ihf h.1 _, ihg h.2 _⟩
  | quantified q w f ih => exact ⟨h.1, ih h.2 _⟩

end Formula

/-- A prenex form with names of variables in its binders and well-formed literals in its matrix. -/
structure Prenex.IsWellFormed (p : Prenex) : Prop where
  binders : ∀ b ∈ p.binders, IsVariableName b.var
  matrix : p.matrix.IsWellFormed

namespace Formula

variable {f g : Formula}

lemma isVariableName_freshVariant {v : String} (h : IsVariableName v) (taken : List String) :
    IsVariableName (freshVariant v taken) := by
  obtain ⟨k, heq⟩ := exists_freshVariant_eq v taken
  rw [heq]
  exact h.append_toString _

/-- Pulling quantifiers keeps the classes of names, those of the variants included. -/
lemma IsWellFormed.pullQuantifiers (h : f.IsWellFormed) (taken : List String) :
    (f.pullQuantifiers taken).1.IsWellFormed := by
  -- the body of a quantifier may be renamed before it is pulled, so the induction is on the size
  induction hsize : f.size using Nat.strongRecOn generalizing f taken with
  | ind n ih =>
  subst hsize
  have hnil : ∀ b ∈ ([] : List Binder), IsVariableName b.var :=
    fun b hb => absurd hb List.not_mem_nil
  cases f with
  | atom l | not f | implies f g =>
    simp only [Formula.pullQuantifiers]
    exact ⟨hnil, h⟩
  | and f g | or f g =>
    rw [Formula.pullQuantifiers]
    have hf := ih f.size (by simp only [size]; omega) h.1 taken rfl
    have hg := ih g.size (by simp only [size]; omega) h.2 (f.pullQuantifiers taken).2 rfl
    exact ⟨List.forall_mem_append.mpr ⟨hf.binders, hg.binders⟩, hf.matrix, hg.matrix⟩
  | quantified q v f =>
    obtain ⟨hv, hbody⟩ := h
    rw [Formula.pullQuantifiers]
    by_cases htaken : v ∈ taken
    · have hw := isVariableName_freshVariant hv taken
      have hp := ih (f.replace v (.var (freshVariant v taken))).size
        (by simp only [size, size_replace]; omega)
        (hbody.replace v hw.isWellFormed) (freshVariant v taken :: taken) rfl
      simp only [if_pos htaken]
      exact ⟨List.forall_mem_cons.mpr ⟨hw, hp.binders⟩, hp.matrix⟩
    · have hp := ih f.size (by simp only [size]; omega) hbody (v :: taken) rfl
      simp only [if_neg htaken]
      exact ⟨List.forall_mem_cons.mpr ⟨hv, hp.binders⟩, hp.matrix⟩

lemma IsWellFormed.toPrenex (h : f.IsWellFormed) : f.toPrenex.IsWellFormed :=
  (h.eliminateImplications.negationNormal false).pullQuantifiers _

/-- The literals of the clauses of a formula are literals of the formula. -/
lemma IsWellFormed.of_mem_productClauses (h : f.IsWellFormed) {c : List Literal}
    (hc : c ∈ f.productClauses) : ∀ l ∈ c, l.IsWellFormed := by
  induction f generalizing c with
  | atom l =>
    rw [productClauses, List.mem_singleton] at hc
    rw [hc, List.forall_mem_singleton]
    exact h
  | and f g ihf ihg =>
    rcases List.mem_append.mp hc with hc | hc
    · exact ihf h.1 hc
    · exact ihg h.2 hc
  | or f g ihf ihg =>
    obtain ⟨d, hd, e, he, rfl⟩ := mem_joinAll.mp hc
    exact List.forall_mem_append.mpr ⟨ihf h.1 hd, ihg h.2 he⟩
  | not f ih => cases hc
  | implies f g ihf ihg => cases hc
  | quantified q v f ih => cases hc

end Formula

/-- Putting the number of the formula behind each variable keeps the classes of names. -/
lemma Prenex.IsWellFormed.standardize {p : Prenex} (h : p.IsWellFormed) (index : ℕ) :
    (p.standardize index).IsWellFormed := by
  have hrename : ∀ v, IsVariableName v → IsVariableName (v ++ "_" ++ toString index) :=
    fun v hv => hv.append_underscore.append_toString index
  exact ⟨List.forall_mem_map.mpr fun b hb => hrename b.var (h.binders b hb),
    h.matrix.mapLiterals fun l hl => hl.subst (keepsClasses_rename hrename)⟩

/-- A Skolem term that depends on names of variables is well-formed. -/
lemma SkolemSupply.isWellFormed_takeTerm {universals : List String}
    (h : ∀ v ∈ universals, IsVariableName v) (supply : SkolemSupply) :
    (supply.takeTerm universals).1.IsWellFormed := by
  have hC : IsName "C" := ⟨by decide, List.all_eq_true.mp (by decide)⟩
  have hf : IsName "f" := ⟨by decide, List.all_eq_true.mp (by decide)⟩
  unfold takeTerm
  split
  · exact .const (hC.append isWordChar_of_mem_toString)
      ((beginsLowercase_append hC).trans (by decide))
  · rename_i hempty
    refine .app (hf.append isWordChar_of_mem_toString) ?_ ?_
    · exact fun hnil => hempty (List.isEmpty_iff.mpr (List.map_eq_nil_iff.mp hnil))
    · exact List.forall_mem_map.mpr fun v hv => (h v hv).isWellFormed

/-- Skolemizing keeps the classes of names, those of the Skolem symbols included. -/
lemma isWellFormed_skolemizeFrom {binders : List Binder} {universals : List String}
    {matrix : Formula} {supply : SkolemSupply} (hbinders : ∀ b ∈ binders, IsVariableName b.var)
    (huniversals : ∀ v ∈ universals, IsVariableName v) (hmatrix : matrix.IsWellFormed) :
    (skolemizeFrom binders universals matrix supply).1.matrix.IsWellFormed := by
  induction binders generalizing universals matrix supply with
  | nil => exact hmatrix
  | cons b binders ih =>
    obtain ⟨hb, hrest⟩ := List.forall_mem_cons.mp hbinders
    rw [skolemizeFrom]
    cases b.quantifier with
    | universal =>
      have hmore : ∀ v ∈ universals ++ [b.var], IsVariableName v :=
        List.forall_mem_append.mpr ⟨huniversals, List.forall_mem_singleton.mpr hb⟩
      exact ih hrest hmore hmatrix
    | existential =>
      exact ih hrest huniversals
        (hmatrix.replace b.var (SkolemSupply.isWellFormed_takeTerm huniversals supply))

/-! ## Clauses -/

/-- A clause of well-formed literals, none of them twice. -/
structure Clause.IsWellFormed (c : Clause) : Prop where
  nodup : c.literals.Nodup
  literals : ∀ l ∈ c.literals, l.IsWellFormed

/-- The clauses of a well-formed formula are well-formed. -/
lemma PendingFormula.isWellFormed_of_mem_clauses {p : PendingFormula} (h : p.formula.IsWellFormed)
    {supply : SkolemSupply} {c : Clause} (hc : c ∈ p.clauses supply) : c.IsWellFormed := by
  refine ⟨nodup_of_mem_clauses hc, fun l hl => ?_⟩
  obtain ⟨literals, hliterals, rfl⟩ := List.mem_map.mp hc
  have hprenex := h.toPrenex.standardize p.number
  have hnil : ∀ v ∈ ([] : List String), IsVariableName v := fun v hv => absurd hv List.not_mem_nil
  have hskolem : (p.formula.skolemForm p.number supply).1.matrix.IsWellFormed :=
    isWellFormed_skolemizeFrom hprenex.binders hnil hprenex.matrix
  exact hskolem.of_mem_productClauses hliterals l
    (Clause.mem_literals_ofLiterals.mp (Clause.mem_literals_ofLiterals.mp hl))

/-! ### Unifiers -/

/-- Solving equations between well-formed terms binds variables to well-formed terms. -/
lemma Equations.isWellFormed_of_solve {eqs : Equations} {s r : Substitution}
    (heqs : ∀ e ∈ eqs, e.1.IsWellFormed ∧ e.2.IsWellFormed)
    (hs : ∀ b ∈ s.bindings, b.2.IsWellFormed) (h : solve eqs s = .ok r) :
    ∀ b ∈ r.bindings, b.2.IsWellFormed := by
  have hbind : ∀ {s : Substitution} (v : String) {t : Term}, t.IsWellFormed →
      (∀ b ∈ s.bindings, b.2.IsWellFormed) → ∀ b ∈ (s.bind v t).bindings, b.2.IsWellFormed := by
    intro s v t ht hs b hb
    rcases Substitution.eq_or_mem_of_mem_insertBinding hb with rfl | hb
    · exact ht
    · exact hs b hb
  have hreplace : ∀ {rest : Equations} (v : String) {t : Term}, t.IsWellFormed →
      (∀ e ∈ rest, e.1.IsWellFormed ∧ e.2.IsWellFormed) →
      ∀ e ∈ replace rest v t, e.1.IsWellFormed ∧ e.2.IsWellFormed := by
    intro rest v t ht hrest
    exact List.forall_mem_map.mpr fun e he =>
      ⟨(hrest e he).1.subst (keepsClasses_binding ht v),
        (hrest e he).2.subst (keepsClasses_binding ht v)⟩
  -- the cases are the moves of the solver; a move that fails leaves nothing to prove
  fun_induction solve eqs s with
  | case1 s =>
    cases h
    exact hs
  | case2 b rest s ih => exact ih (List.forall_mem_cons.mp heqs).2 hs h
  | case4 rest s v t hv _ ih =>
    obtain ⟨hhead, hrest⟩ := List.forall_mem_cons.mp heqs
    exact ih (hreplace v hhead.2 hrest) (hbind v hhead.2 hs) h
  | case6 rest s t v _ hv _ ih =>
    obtain ⟨hhead, hrest⟩ := List.forall_mem_cons.mp heqs
    exact ih (hreplace v hhead.1 hrest) (hbind v hhead.1 hs) h
  | case10 rest s f ss g ts hfg hlength _ ih =>
    obtain ⟨⟨hleft, hright⟩, hrest⟩ := List.forall_mem_cons.mp heqs
    cases hleft with
    | app _ _ hss =>
    cases hright with
    | app _ _ hts =>
    refine ih (List.forall_mem_append.mpr ⟨fun e he => ?_, hrest⟩) hs h
    obtain ⟨hs, ht⟩ := List.of_mem_zip he
    exact ⟨hss _ hs, hts _ ht⟩
  | case3 | case5 | case7 | case8 | case9 | case11 | case12 => cases h

/-- What variables stand for is well-formed if the terms bound to them are. -/
lemma Substitution.keepsClasses_valueFrom {available : List (String × Term)}
    (h : ∀ b ∈ available, b.2.IsWellFormed) (n : ℕ) : KeepsClasses (valueFrom n available) := by
  induction n generalizing available with
  | zero => exact fun v hv => hv.isWellFormed
  | succ n ih =>
    intro v hv
    rw [valueFrom]
    cases ht : available.lookup v with
    | none => exact hv.isWellFormed
    | some t =>
      have hrest : ∀ b ∈ available.filter (·.1 ≠ v), b.2.IsWellFormed :=
        fun b hb => h b (List.mem_of_mem_filter hb)
      exact (h _ (mem_of_lookup_eq_some ht)).subst (ih hrest)

/-- A unifier of well-formed terms keeps the classes of names. -/
lemma keepsClasses_of_unify {left right : List Term} {s : Substitution}
    (hleft : ∀ t ∈ left, t.IsWellFormed) (hright : ∀ t ∈ right, t.IsWellFormed)
    (h : unify left right = .ok s) : KeepsClasses s.value := by
  unfold unify at h
  split at h
  · cases h
  · refine Substitution.keepsClasses_valueFrom (Equations.isWellFormed_of_solve ?_ ?_ h) _
    · intro e he
      obtain ⟨hs, ht⟩ := List.of_mem_zip he
      exact ⟨hleft _ hs, hright _ ht⟩
    · exact fun b hb => absurd hb List.not_mem_nil

/-! ### Renaming apart -/

namespace Clause

lemma isVariableName_apartCandidate {v : String} (h : IsVariableName v) (id k : ℕ) :
    IsVariableName (apartCandidate id v k) := by
  have hnumber : IsVariableName (v ++ "_c" ++ toString id) :=
    (h.append (List.all_eq_true.mp (by decide))).append_toString id
  cases k with
  | zero => exact hnumber
  | succ k => exact hnumber.append_underscore.append_toString (k + 1)

/-- A new name is one of the candidates for the variable. -/
lemma exists_apartCandidate_of_mem_apartNames {id : ℕ} {vars taken : List String} {v w : String}
    (h : (v, w) ∈ apartNames id vars taken) : ∃ k, w = apartCandidate id v k := by
  induction vars generalizing taken with
  | nil => exact absurd h List.not_mem_nil
  | cons u vars ih =>
    rw [apartNames] at h
    rcases List.mem_cons.mp h with heq | h
    · obtain ⟨rfl, rfl⟩ := Prod.mk.inj heq
      exact ⟨_, rfl⟩
    · exact ih h

lemma isVariableName_apartRenaming (c : Clause) (id : ℕ) (other : Clause) {v : String}
    (h : IsVariableName v) : IsVariableName (c.apartRenaming id other v) := by
  rw [apartRenaming]
  cases hw : (apartNames id (c.sharedVariables other) (other.vars ++ c.vars)).lookup v with
  | none => exact h
  | some w =>
    obtain ⟨k, rfl⟩ := exists_apartCandidate_of_mem_apartNames (mem_of_lookup_eq_some hw)
    exact isVariableName_apartCandidate h id k

end Clause

/-- The resolvents of well-formed clauses are well-formed. -/
lemma ParentPair.isWellFormed_of_mem_resolvents {p : ParentPair} {step : ℕ} {r : Resolvent}
    (hleft : p.left.IsWellFormed) (hright : p.right.IsWellFormed) (h : r ∈ p.resolvents step) :
    r.clause.IsWellFormed := by
  refine ⟨nodup_of_mem_resolvents h, ?_⟩
  obtain ⟨i, j, l, m, unifier, hresolves, rfl⟩ := mem_resolvents_iff.mp h
  have hapart : ∀ l ∈ p.apart.literals, l.IsWellFormed := List.forall_mem_map.mpr fun l hl =>
    (hright.literals l hl).subst
      (keepsClasses_rename fun v hv => p.right.isVariableName_apartRenaming p.rightId p.left hv)
  have hunifier : KeepsClasses unifier.value :=
    keepsClasses_of_unify (hleft.literals l (List.mem_of_getElem? hresolves.left)).args
      (hapart m (List.mem_of_getElem? hresolves.right)).args hresolves.unify
  intro l hl
  obtain ⟨k, hk, rfl⟩ := List.mem_map.mp (Clause.mem_literals_ofLiterals.mp hl)
  rcases List.mem_append.mp hk with hk | hk
  · exact (hleft.literals k (List.mem_of_mem_eraseIdx hk)).subst hunifier
  · exact (hapart k (List.mem_of_mem_eraseIdx hk)).subst hunifier

/-! ## Attempts -/

/-- What holds of the clauses of a search, and of each resolvent of clauses that it holds of, holds
of the clauses after a step. -/
lemma Search.forall_mem_step {P : Clause → Prop} {s : Search}
    (hP : ∀ c ∈ s.registry.clauses.toList, P c)
    (keep : ∀ (p : ParentPair) (step id : ℕ), P p.left → P p.right → ∀ res ∈ p.resolvents step,
      P { res.clause with id := some id }) :
    ∀ c ∈ s.step.1.registry.clauses.toList, P c := by
  have hround : ∀ c ∈ s.counted.round.registry.clauses.toList, P c :=
    forall_mem_round hP fun p step id hleft hright => keep p step id (hP _ hleft) (hP _ hright)
  have hstep := s.outcome_step
  generalize s.step = result at hstep ⊢
  obtain ⟨t, verdict⟩ := result
  cases hstep with
  | contradiction => exact hP
  | ceiling => exact hP
  | saturated => exact hround
  | progress => exact hround

/-- The clauses with which a search on well-formed formulas starts are well-formed. -/
lemma Intake.isWellFormed_of_start {i : Intake} {s : Search}
    (h : ∀ p ∈ i.pending, p.formula.IsWellFormed) (hstart : i.start = .ok s) :
    ∀ c ∈ s.registry.clauses.toList, c.IsWellFormed := by
  obtain ⟨cs, hcs⟩ := exists_clausesFrom_eq i.pending i.supply
  have hne : cs ≠ [] := by
    rintro rfl
    rw [start, hcs] at hstart
    cases hstart
  rw [start_eq hcs hne] at hstart
  obtain rfl := Except.ok.inj hstart
  intro c hc
  obtain ⟨p, hp, supply, d, hd, heq⟩ := exists_mem_clauses_of_mem_initial hcs hc
  have hwell := PendingFormula.isWellFormed_of_mem_clauses (h p hp) hd
  exact ⟨heq ▸ hwell.nodup, heq ▸ hwell.literals⟩

namespace Attempt

/-- The formulas that wait, or the clauses of the search, are well-formed. -/
def IsWellFormed : Attempt → Prop
  | .collecting i => ∀ p ∈ i.pending, p.formula.IsWellFormed
  | .searching s => ∀ c ∈ s.registry.clauses.toList, c.IsWellFormed
  | .finished s _ => ∀ c ∈ s.registry.clauses.toList, c.IsWellFormed

lemma IsWellFormed.ofStep {s : Search} (h : ∀ c ∈ s.registry.clauses.toList, c.IsWellFormed) :
    (ofStep s.step).2.IsWellFormed := by
  have hstep := Search.forall_mem_step h fun p step id hleft hright res hres =>
    have hwell := ParentPair.isWellFormed_of_mem_resolvents hleft hright hres
    ⟨hwell.nodup, hwell.literals⟩
  generalize s.step = result at hstep ⊢
  obtain ⟨t, verdict⟩ := result
  cases verdict with
  | none => exact hstep
  | some verdict => exact hstep

/-- Every attempt that can be reached is well-formed. -/
lemma Reached.isWellFormed {settings : Settings} {a : Attempt} {tried : List ParentPair}
    (h : Reached settings a tried) : a.IsWellFormed := by
  induction h with
  | new => exact fun p hp => absurd hp List.not_mem_nil
  | @add a tried _ text origin ih =>
    cases a with
    | searching s => exact ih
    | finished s verdict => exact ih
    | collecting i =>
      obtain ⟨-, e, hadd, -⟩ | ⟨-, hadd⟩ | ⟨f, hread, hadd⟩ := i.add_cases text origin
      · rw [Attempt.add, hadd]
        exact ih
      · rw [Attempt.add, hadd]
        exact ih
      · rw [Attempt.add, hadd]
        have hf := Formula.isWellFormed_of_readFormula? hread
        exact List.forall_mem_append.mpr ⟨ih, List.forall_mem_singleton.mpr hf⟩
  | @step a tried _ ih =>
    cases a with
    | searching s => exact IsWellFormed.ofStep ih
    | finished s verdict => exact ih
    | collecting i =>
      rw [Attempt.step]
      cases hstart : i.start with
      | error e => exact ih
      | ok s => exact IsWellFormed.ofStep (Intake.isWellFormed_of_start ih hstart)

/-- Every registered clause is well-formed. -/
lemma Reached.isWellFormed_of_mem {settings : Settings} {a : Attempt} {tried : List ParentPair}
    (h : Reached settings a tried) : ∀ c ∈ a.registry.clauses.toList, c.IsWellFormed := by
  have hwell := h.isWellFormed
  cases a with
  | collecting i => exact fun c hc => absurd hc List.not_mem_nil
  | searching s => exact hwell
  | finished s verdict => exact hwell

end Attempt

end Clausal
