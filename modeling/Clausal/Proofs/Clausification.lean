import Clausal.Proofs.ConjunctiveForm
import Clausal.Proofs.Intake

/-!
# Clause form of a whole attempt

The clauses with which a search starts have a model exactly when the formulas of the attempt have
one.  A structure in which the clauses are true makes the formulas true as it stands.  In the other
direction the structure is changed at the Skolem symbols of one formula after the other: the symbols
taken for a formula are new with respect to all formulas and to the Skolem forms made before, so
what has been achieved for those is kept.
-/

namespace Clausal

universe u

variable {D : Type u}

/-! ## The clauses of one formula -/

namespace Formula

/-- The Skolem form that an attempt makes of its formula with the given number. -/
def skolemForm (f : Formula) (number : ℕ) (supply : SkolemSupply) : Prenex × SkolemSupply :=
  (f.toPrenex.standardize number).skolemize supply

variable {f : Formula} {supply : SkolemSupply}

/-- The Skolem form of a formula has a matrix of literals, conjunctions and disjunctions. -/
lemma isMatrix_skolemForm (f : Formula) (number : ℕ) (supply : SkolemSupply) :
    (f.skolemForm number supply).1.matrix.IsMatrix := by
  obtain ⟨taken, hpulled⟩ := f.exists_pulledFrom_toPrenex.{0}
  exact isMatrix_skolemizeFrom (hpulled.isMatrix.mapLiterals _)

/-- The Skolem form of a closed formula without quantifiers has no variables. -/
lemma freeVars_skolemForm (hclosed : f.IsClosed) (hbound : f.boundVars = []) (number : ℕ)
    (supply : SkolemSupply) : (f.skolemForm number supply).1.matrix.freeVars = [] := by
  obtain ⟨taken, hpulled⟩ := f.exists_pulledFrom_toPrenex.{0}
  have hbinders : f.toPrenex.binders = [] := by
    rw [← List.length_eq_zero_iff, hpulled.binders_length, hbound, List.length_nil]
  have hbinders' : (f.toPrenex.standardize number).binders = [] := by
    rw [Prenex.standardize, hbinders, List.map_nil]
  have hfree := ((Prenex.isSentence_toPrenex hclosed).standardize number).closed
  rw [hbinders', List.map_nil] at hfree
  rw [skolemForm, Prenex.skolemize, hbinders', skolemizeFrom]
  exact List.subset_nil.mp hfree

/-- The clauses of a formula are those of the matrix of its Skolem form. -/
lemma clauses_eq (f : Formula) (number : ℕ) (supply : SkolemSupply) :
    f.clauses (some number) supply =
      (.ok ((f.skolemForm number supply).1.matrix.productClauses.map fun literals =>
        Clause.ofLiterals literals (.given .input)), (f.skolemForm number supply).2) := by
  have hsplit := (isMatrix_skolemForm f number supply).split_distribute
  unfold clauses
  rw [skolemForm] at hsplit ⊢
  simp only [hsplit]
  rfl

/-- The symbols of a Skolem form are reserved after it is made, besides those that were before. -/
lemma reserved_skolemForm (hsymbols : f.symbols ⊆ supply.reserved) (number : ℕ) :
    supply.reserved ⊆ (f.skolemForm number supply).2.reserved ∧
      (f.skolemForm number supply).1.matrix.symbols ⊆
        (f.skolemForm number supply).2.reserved := by
  refine reserved_skolemizeFrom (List.Subset.trans ?_ hsymbols)
  obtain ⟨taken, hpulled⟩ := f.exists_pulledFrom_toPrenex.{0}
  have hrename := hpulled.isMatrix.symbols_rename (Prenex.indexedName number)
  exact hrename ▸ f.symbols_toPrenex_subset

/-- A structure that makes the Skolem form of a closed formula true under all assignments makes the
formula true. -/
lemma holds_of_holds_skolemForm (hplain : f.HasPlainBinders) (hclosed : f.IsClosed) {number : ℕ}
    {M : Structure D} (h : ∀ ε, (f.skolemForm number supply).1.matrix.Holds M ε) (ε : String → D) :
    f.Holds M ε := by
  rw [← holds_toPrenex hplain]
  exact (Prenex.isSentence_toPrenex hclosed).holds_of_holds_skolemize h ε

/-- A structure that makes a closed formula true can be changed at names that are not reserved so
that it makes the Skolem form true under all assignments. -/
lemma exists_agreesOn_holds_skolemForm (hplain : f.HasPlainBinders) (hclosed : f.IsClosed)
    (hsymbols : f.symbols ⊆ supply.reserved) (number : ℕ) {M : Structure D}
    (h : ∀ ε, f.Holds M ε) :
    ∃ N : Structure D, M.AgreesOn supply.reserved N ∧
      ∀ ε, (f.skolemForm number supply).1.matrix.Holds N ε := by
  refine (Prenex.isSentence_toPrenex hclosed).exists_agreesOn_holds_skolemize
    (List.Subset.trans f.symbols_toPrenex_subset hsymbols) number fun ε => ?_
  exact (holds_toPrenex hplain M ε).mpr (h ε)

end Formula

/-! ## The clauses of all formulas -/

/-- The clauses that a formula gives when the search starts. -/
def PendingFormula.clauses (p : PendingFormula) (supply : SkolemSupply) : List Clause :=
  (p.formula.skolemForm p.number supply).1.matrix.productClauses.map fun literals =>
    Clause.ofLiterals (Clause.ofLiterals literals (.given .input)).literals (.given p.origin)

/-- The clauses of a formula are true exactly when the matrix of its Skolem form is true under all
assignments. -/
lemma PendingFormula.forall_valid_clauses_iff (p : PendingFormula) (supply : SkolemSupply)
    (M : Structure D) :
    (∀ c ∈ p.clauses supply, c.Valid M) ↔
      ∀ ε, (p.formula.skolemForm p.number supply).1.matrix.Holds M ε :=
  (p.formula.isMatrix_skolemForm p.number supply).forall_valid_iff
    (Clause.mem_literals_ofLiterals.trans Clause.mem_literals_ofLiterals) M

/-- The clauses of a formula have each of their literals once. -/
lemma PendingFormula.nodup_of_mem_clauses {p : PendingFormula} {supply : SkolemSupply} {c : Clause}
    (hc : c ∈ p.clauses supply) : c.literals.Nodup := by
  obtain ⟨literals, -, rfl⟩ := List.mem_map.mp hc
  exact nodup_eraseDups _

/-- The clauses of a closed formula without quantifiers have no variables. -/
lemma PendingFormula.vars_of_mem_clauses {p : PendingFormula} (hclosed : p.formula.IsClosed)
    (hbound : p.formula.boundVars = []) {supply : SkolemSupply} {c : Clause}
    (hc : c ∈ p.clauses supply) : c.vars = [] := by
  obtain ⟨literals, hliterals, rfl⟩ := List.mem_map.mp hc
  refine List.flatMap_eq_nil_iff.mpr fun l hl => ?_
  have hmem := Clause.mem_literals_ofLiterals.mp (Clause.mem_literals_ofLiterals.mp hl)
  have hvars := Formula.vars_subset_of_mem_productClauses hliterals hmem
  rw [Formula.freeVars_skolemForm hclosed hbound] at hvars
  exact List.subset_nil.mp hvars

namespace Intake

variable {p : PendingFormula} {pending : List PendingFormula} {supply : SkolemSupply}
  {cs : List Clause}

/-- The clauses of formulas are those of the first and those of the rest, which are made with the
symbols that are left. -/
lemma clausesFrom_cons (p : PendingFormula) (pending : List PendingFormula)
    (supply : SkolemSupply) :
    clausesFrom (p :: pending) supply =
      (clausesFrom pending (p.formula.skolemForm p.number supply).2).map
        (p.clauses supply ++ ·) := by
  rw [clausesFrom, Formula.clauses_eq, PendingFormula.clauses]
  simp only [List.map_map]
  rfl

/-- All formulas have clauses. -/
lemma exists_clausesFrom_eq (pending : List PendingFormula) (supply : SkolemSupply) :
    ∃ cs, clausesFrom pending supply = .ok cs := by
  induction pending generalizing supply with
  | nil => exact ⟨[], rfl⟩
  | cons p pending ih =>
    obtain ⟨more, hmore⟩ := ih (p.formula.skolemForm p.number supply).2
    rw [clausesFrom_cons, hmore]
    exact ⟨_, rfl⟩

/-- There are clauses if there are formulas. -/
lemma clausesFrom_ne_nil (hne : pending ≠ []) (h : clausesFrom pending supply = .ok cs) :
    cs ≠ [] := by
  cases pending with
  | nil => exact absurd rfl hne
  | cons p pending =>
    rw [clausesFrom_cons] at h
    obtain ⟨more, -, rfl⟩ := map_eq_ok h
    refine List.append_ne_nil_of_left_ne_nil ?_ more
    have hclauses := (p.formula.isMatrix_skolemForm p.number supply).productClauses_ne_nil
    simpa [PendingFormula.clauses] using hclauses

/-- Every clause comes from one of the formulas. -/
lemma exists_mem_clauses_of_mem (h : clausesFrom pending supply = .ok cs) {c : Clause}
    (hc : c ∈ cs) : ∃ p ∈ pending, ∃ supply', c ∈ p.clauses supply' := by
  induction pending generalizing supply cs with
  | nil =>
    cases h
    cases hc
  | cons p pending ih =>
    rw [clausesFrom_cons] at h
    obtain ⟨more, hmore, rfl⟩ := map_eq_ok h
    rcases List.mem_append.mp hc with hc | hc
    · exact ⟨p, List.mem_cons_self, supply, hc⟩
    · obtain ⟨q, hq, hsupply⟩ := ih hmore hc
      exact ⟨q, List.mem_cons_of_mem _ hq, hsupply⟩

/-- A structure that makes the clauses of closed formulas true makes the formulas true. -/
lemma holds_of_valid_clausesFrom (hplain : ∀ p ∈ pending, p.formula.HasPlainBinders)
    (hclosed : ∀ p ∈ pending, p.formula.IsClosed) (h : clausesFrom pending supply = .ok cs)
    {M : Structure D} (hvalid : ∀ c ∈ cs, c.Valid M) :
    ∀ p ∈ pending, ∀ ε, p.formula.Holds M ε := by
  induction pending generalizing supply cs with
  | nil => exact fun p hp => absurd hp List.not_mem_nil
  | cons p pending ih =>
    have hp := hplain p List.mem_cons_self
    rw [clausesFrom_cons] at h
    obtain ⟨more, hmore, rfl⟩ := map_eq_ok h
    rw [List.forall_mem_append] at hvalid
    have hskolem := (p.forall_valid_clauses_iff supply M).mp hvalid.1
    rw [List.forall_mem_cons]
    refine ⟨Formula.holds_of_holds_skolemForm hp (hclosed p List.mem_cons_self) hskolem, ?_⟩
    exact ih (fun q hq => hplain q (List.mem_cons_of_mem _ hq))
      (fun q hq => hclosed q (List.mem_cons_of_mem _ hq)) hmore hvalid.2

/-- A structure that makes closed formulas true can be changed at names that are not reserved so
that it makes their clauses true. -/
lemma exists_valid_clausesFrom (hplain : ∀ p ∈ pending, p.formula.HasPlainBinders)
    (hclosed : ∀ p ∈ pending, p.formula.IsClosed)
    (hsymbols : ∀ p ∈ pending, p.formula.symbols ⊆ supply.reserved)
    (h : clausesFrom pending supply = .ok cs) {M : Structure D}
    (hholds : ∀ p ∈ pending, ∀ ε, p.formula.Holds M ε) :
    ∃ N : Structure D, M.AgreesOn supply.reserved N ∧ ∀ c ∈ cs, c.Valid N := by
  induction pending generalizing supply cs M with
  | nil =>
    cases h
    exact ⟨M, .refl _ M, fun c hc => absurd hc List.not_mem_nil⟩
  | cons p pending ih =>
    rw [List.forall_mem_cons] at hplain hclosed hsymbols hholds
    rw [clausesFrom_cons] at h
    obtain ⟨more, hmore, rfl⟩ := map_eq_ok h
    obtain ⟨hkept, hreserved⟩ := Formula.reserved_skolemForm hsymbols.1 p.number
    obtain ⟨N, hN, hskolem⟩ := Formula.exists_agreesOn_holds_skolemForm hplain.1 hclosed.1
      hsymbols.1 p.number hholds.1
    -- the other formulas stay true, as their symbols were reserved
    have hrest : ∀ q ∈ pending, ∀ ε, q.formula.Holds N ε := fun q hq ε =>
      (hN.holds_iff (hsymbols.2 q hq) ε).mp (hholds.2 q hq ε)
    obtain ⟨K, hK, hvalid⟩ := ih hplain.2 hclosed.2
      (fun q hq => List.Subset.trans (hsymbols.2 q hq) hkept) hmore hrest
    refine ⟨K, hN.trans (hK.mono hkept), ?_⟩
    rw [List.forall_mem_append, PendingFormula.forall_valid_clauses_iff]
    -- the first Skolem form stays true, as its symbols are reserved by then
    exact ⟨fun ε => (hK.holds_iff hreserved ε).mp (hskolem ε), hvalid⟩

end Intake

/-! ## Starting the search -/

/-- What is known of the search that an attempt starts on closed formulas: where it stands, what its
clauses are like, and how the models of its clauses and of the formulas are related. -/
structure Search.StartsFrom (settings : Settings) (fs : List Formula) (s : Search) : Prop where
  settings_eq : s.settings = settings
  stepsMade_eq : s.stepsMade = 0
  paired_eq : s.paired = 0
  nodup : ∀ c ∈ s.registry.clauses.toList, c.literals.Nodup
  vars_eq_nil : (∀ f ∈ fs, f.boundVars = []) → ∀ c ∈ s.registry.clauses.toList, c.vars = []
  holds_of_valid : ∀ {D : Type u} (M : Structure D),
    (∀ c ∈ s.registry.clauses.toList, c.Valid M) → ∀ f ∈ fs, ∀ ε, f.Holds M ε
  exists_valid : ∀ {D : Type u} (M : Structure D), (∀ f ∈ fs, ∀ ε, f.Holds M ε) →
    ∃ N : Structure D, ∀ c ∈ s.registry.clauses.toList, c.Valid N

/-- A clause registered at the start has the literals of a clause that comes from a pending
formula. -/
lemma Intake.exists_mem_clauses_of_mem_initial {i : Intake} {cs : List Clause}
    (hcs : clausesFrom i.pending i.supply = .ok cs) {c : Clause}
    (hc : c ∈ (Search.initial i.settings cs).registry.clauses.toList) :
    ∃ p ∈ i.pending, ∃ supply, ∃ d ∈ p.clauses supply, d.literals = c.literals := by
  have hmem := List.mem_map_of_mem (f := Clause.literals) hc
  rw [Search.literals_initial] at hmem
  obtain ⟨d, hd, heq⟩ := List.mem_map.mp hmem
  obtain ⟨p, hp, supply, hd⟩ := exists_mem_clauses_of_mem hcs hd
  exact ⟨p, hp, supply, d, hd, heq⟩

/-- The search on the clauses of closed formulas whose symbols are reserved starts from these. -/
lemma Intake.startsFrom_initial {i : Intake} {cs : List Clause}
    (hplain : ∀ p ∈ i.pending, p.formula.HasPlainBinders)
    (hclosed : ∀ p ∈ i.pending, p.formula.IsClosed)
    (hsymbols : ∀ p ∈ i.pending, p.formula.symbols ⊆ i.supply.reserved)
    (hcs : clausesFrom i.pending i.supply = .ok cs) :
    Search.StartsFrom.{u} i.settings (i.pending.map PendingFormula.formula)
      (Search.initial i.settings cs) where
  settings_eq := rfl
  stepsMade_eq := rfl
  paired_eq := rfl
  nodup c hc := by
    obtain ⟨p, -, supply, d, hd, heq⟩ := exists_mem_clauses_of_mem_initial hcs hc
    exact heq ▸ PendingFormula.nodup_of_mem_clauses hd
  vars_eq_nil hbound c hc := by
    obtain ⟨p, hp, supply, d, hd, heq⟩ := exists_mem_clauses_of_mem_initial hcs hc
    have hvars := PendingFormula.vars_of_mem_clauses (hclosed p hp)
      (hbound _ (List.mem_map_of_mem hp)) hd
    rw [Clause.vars] at hvars ⊢
    rw [← heq]
    exact hvars
  holds_of_valid M hvalid := by
    rw [Clause.forall_valid_iff_of_literals (Search.literals_initial _ cs)] at hvalid
    rw [List.forall_mem_map]
    exact holds_of_valid_clausesFrom hplain hclosed hcs hvalid
  exists_valid M hholds := by
    rw [List.forall_mem_map] at hholds
    obtain ⟨N, -, hvalid⟩ := exists_valid_clausesFrom hplain hclosed hsymbols hcs hholds
    exact ⟨N, (Clause.forall_valid_iff_of_literals (Search.literals_initial _ cs) N).mpr hvalid⟩

/-- An attempt that is given texts which say closed formulas, and are not all blank, accepts the
texts and starts a search on the formulas. -/
lemma exists_startsFrom {inputs : List (String × Origin)} {fs : List Formula}
    (hread : readFormulas? (inputs.map Prod.fst) = some fs) (hclosed : ∀ f ∈ fs, f.IsClosed)
    (hne : fs ≠ []) (settings : Settings) :
    ∃ i s, (Attempt.new settings).addAll inputs = .ok (.collecting i) ∧ i.start = .ok s ∧
      Search.StartsFrom.{u} settings fs s := by
  obtain ⟨i, hadd, hi⟩ := Attempt.exists_extends_addAll hread (.new settings)
  have hplain := hasPlainBinders_of_readFormulas? hread
  obtain rfl : i.pending.map PendingFormula.formula = fs := hi.pending
  obtain rfl : i.settings = settings := hi.settings
  rw [List.forall_mem_map] at hplain hclosed
  have hsymbols : ∀ p ∈ i.pending, p.formula.symbols ⊆ i.supply.reserved := fun p hp =>
    hi.symbols p.formula (List.mem_map_of_mem hp)
  have hpending : i.pending ≠ [] := fun hnil => hne (List.map_eq_nil_iff.mpr hnil)
  obtain ⟨cs, hcs⟩ := Intake.exists_clausesFrom_eq i.pending i.supply
  have hcs_ne := Intake.clausesFrom_ne_nil hpending hcs
  exact ⟨i, _, hadd, Intake.start_eq hcs hcs_ne,
    Intake.startsFrom_initial hplain hclosed hsymbols hcs⟩

/-- The clauses with which a search starts have a model exactly when the formulas that the texts say
have one: all texts are accepted, the search starts, and clause form preserves satisfiability in
both directions. -/
theorem start_satisfiable_iff {inputs : List (String × Origin)} {fs : List Formula}
    (hread : readFormulas? (inputs.map Prod.fst) = some fs) (hclosed : ∀ f ∈ fs, f.IsClosed)
    (hne : fs ≠ []) (settings : Settings) :
    ∃ i s, (Attempt.new settings).addAll inputs = .ok (.collecting i) ∧ i.start = .ok s ∧
      (Clause.Satisfiable.{u} s.registry.clauses.toList ↔ Formula.Satisfiable.{u} fs) := by
  obtain ⟨i, s, hadd, hstart, hs⟩ := exists_startsFrom.{u} hread hclosed hne settings
  refine ⟨i, s, hadd, hstart, ?_, ?_⟩
  · rintro ⟨D, M, ⟨d⟩, hvalid⟩
    exact ⟨D, M, fun _ => d, fun f hf => hs.holds_of_valid M hvalid f hf _⟩
  · rintro ⟨D, M, ε, hholds⟩
    obtain ⟨N, hvalid⟩ := hs.exists_valid M fun f hf δ =>
      ((hclosed f hf).holds_iff ε δ).mp (hholds f hf)
    exact ⟨D, N, ⟨ε ""⟩, hvalid⟩

/-- Everything is related to something. -/
def serialR : Formula :=
  .quantified .universal "x" <| .quantified .existential "y" <|
    .atom { predicate := "R", args := [.var "x", .var "y"], positive := true }

lemma readFormula?_serialR : readFormula? "∀x ∃y R(x, y)" = some (some serialR) := by
  have hatom : Statement.readSpan ⟨6, "R(x, y)".toList⟩ 2 =
      .ok (.atom ⟨none, false, "R", some "x, y"⟩) := by
    rw [Statement.readSpan]
    rfl
  have hparse : Statement.parse "∀x ∃y R(x, y)" =
      (Statement.readSpan ⟨0, "∀x ∃y R(x, y)".toList⟩ 0).map some :=
    rfl
  have hquantified : Statement.readSpan ⟨0, "∀x ∃y R(x, y)".toList⟩ 0 =
      (Statement.readSpan ⟨6, "R(x, y)".toList⟩ 2).map
        (Statement.bind ⟨.universal, "x"⟩ [⟨.existential, "y"⟩] false) := by
    rw [Statement.readSpan]
    rfl
  rw [readFormula?, hparse, hquantified, hatom]
  rfl

/-- The text `∀x ∃y R(x, y)` is accepted, and its clause, with a Skolem function for `y`, has a
model exactly when it has one. -/
theorem start_satisfiable_iff_serialR :
    readFormulas? ([("∀x ∃y R(x, y)", Origin.premise 1)].map Prod.fst) = some [serialR] ∧
      ∃ i s, (Attempt.new .standard).addAll [("∀x ∃y R(x, y)", .premise 1)] =
          .ok (.collecting i) ∧ i.start = .ok s ∧
        (Clause.Satisfiable.{0} s.registry.clauses.toList ↔ Formula.Satisfiable.{0} [serialR]) := by
  have hread : readFormulas? ([("∀x ∃y R(x, y)", Origin.premise 1)].map Prod.fst) =
      some [serialR] := by
    rw [List.map_singleton, readFormulas?, readFormula?_serialR]
    rfl
  exact ⟨hread, start_satisfiable_iff hread (by decide) (List.cons_ne_nil _ _) .standard⟩

end Clausal
