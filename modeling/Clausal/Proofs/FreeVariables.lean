import Clausal.Proofs.Clausification
import Clausal.Proofs.RoundTrip

/-!
# Clause form and free variables

The variables of a clause are read universally, and so are those that come from free variables of
the formula.  But a Skolem term depends only on the universal binders written before its variable,
so the free variables are quantified inside all other binders and not outside of them: the clauses
of a formula have a model exactly when its `innerClosure` has one.  This is a stronger sentence than
the `universalClosure`.  The two say the same where the formula is closed, and where its prenex form
has no existential binder.
-/

namespace Clausal

universe u

variable {D : Type u}

/-! ## Universal binders -/

/-- Universal binders for the given variables. -/
def universalBinders (vs : List String) : List Binder :=
  vs.map fun v => { quantifier := .universal, var := v }

lemma map_var_universalBinders (vs : List String) : (universalBinders vs).map Binder.var = vs := by
  rw [universalBinders, List.map_map]
  exact List.map_id' vs

lemma quantifier_of_mem_universalBinders {vs : List String} {b : Binder}
    (hb : b ∈ universalBinders vs) : b.quantifier = .universal := by
  obtain ⟨v, -, rfl⟩ := List.mem_map.mp hb
  rfl

/-- Universal binders after all others do not matter for the matrix of a Skolem form. -/
lemma matrix_skolemizeFrom_append_universalBinders (binders : List Binder)
    (vs universals : List String) (matrix : Formula) (supply : SkolemSupply) :
    (skolemizeFrom (binders ++ universalBinders vs) universals matrix supply).1.matrix =
      (skolemizeFrom binders universals matrix supply).1.matrix := by
  induction binders generalizing universals matrix supply with
  | nil =>
    induction vs generalizing universals with
    | nil => rfl
    | cons v vs ih => exact ih (universals ++ [v])
  | cons b binders ih =>
    rw [List.cons_append, skolemizeFrom, skolemizeFrom]
    cases b.quantifier with
    | universal => exact ih _ _ _
    | existential => exact ih _ _ _

namespace Formula

/-- What is true under all assignments is true under any binders. -/
lemma holds_bindAll_of_forall {M : Structure D} {f : Formula} (h : ∀ ε, f.Holds M ε)
    (bs : List Binder) (ε : String → D) : (bindAll bs f).Holds M ε := by
  induction bs generalizing ε with
  | nil => exact h ε
  | cons b bs ih =>
    rw [bindAll_cons]
    cases b.quantifier with
    | universal => exact fun d => ih _
    | existential => exact ⟨ε "", ih _⟩

/-- What is true under universal binders is true without them. -/
lemma holds_of_holds_bindAll {M : Structure D} {f : Formula} {bs : List Binder}
    (hbs : ∀ b ∈ bs, b.quantifier = .universal) {ε : String → D} (h : (bindAll bs f).Holds M ε) :
    f.Holds M ε := by
  induction bs with
  | nil => exact h
  | cons b bs ih =>
    rw [List.forall_mem_cons] at hbs
    rw [bindAll_cons, hbs.1] at h
    refine ih hbs.2 ?_
    have hself : (bindAll bs f).Holds M (update ε b.var (ε b.var)) := h (ε b.var)
    rwa [update_eq_self] at hself

/-- A weaker matrix makes a weaker formula under the same binders. -/
lemma holds_bindAll_mono {M : Structure D} {f g : Formula} (h : ∀ ε, f.Holds M ε → g.Holds M ε)
    {bs : List Binder} {ε : String → D} (hf : (bindAll bs f).Holds M ε) :
    (bindAll bs g).Holds M ε := by
  induction bs generalizing ε with
  | nil => exact h ε hf
  | cons b bs ih =>
    rw [bindAll_cons] at hf ⊢
    cases hq : b.quantifier with
    | universal =>
      rw [hq] at hf
      exact fun d => ih (hf d)
    | existential =>
      rw [hq] at hf
      obtain ⟨d, hd⟩ := hf
      exact ⟨d, ih hd⟩

/-! ## The two closures -/

/-- The formula under universal quantifiers for its free variables. -/
def universalClosure (f : Formula) : Formula :=
  bindAll (universalBinders f.freeVars.eraseDups) f

/-- The prenex form of a formula with universal quantifiers for its free variables inside all
others. -/
def innerClosure (f : Formula) : Prenex :=
  { binders := f.toPrenex.binders ++ universalBinders f.freeVars.eraseDups
    matrix := f.toPrenex.matrix }

/-- The universal closure of a formula is closed. -/
lemma isClosed_universalClosure (f : Formula) : f.universalClosure.IsClosed := by
  refine List.eq_nil_iff_forall_not_mem.mpr fun v hv => ?_
  obtain ⟨hfree, hnot⟩ := mem_freeVars_bindAll.mp hv
  rw [map_var_universalBinders, List.mem_eraseDups] at hnot
  exact hnot hfree

/-- The universal closure of a formula is true exactly if the formula is under all assignments. -/
lemma holds_universalClosure_iff {f : Formula} {M : Structure D} {ε : String → D} :
    f.universalClosure.Holds M ε ↔ ∀ δ, f.Holds M δ := by
  refine ⟨fun h δ => ?_, fun h => holds_bindAll_of_forall h _ ε⟩
  rw [f.isClosed_universalClosure.holds_iff ε δ] at h
  exact holds_of_holds_bindAll (fun b hb => quantifier_of_mem_universalBinders hb) h

/-- The inner closure of a formula is a sentence. -/
lemma isSentence_innerClosure (f : Formula) : f.innerClosure.IsSentence := by
  obtain ⟨taken, hpulled⟩ := f.exists_pulledFrom_toPrenex.{0}
  have hvars : f.innerClosure.binders.map Binder.var =
      f.toPrenex.binders.map Binder.var ++ f.freeVars.eraseDups := by
    rw [innerClosure, List.map_append, map_var_universalBinders]
  refine ⟨hpulled.isMatrix, ?_, fun v hv => ?_⟩
  · rw [hvars, List.nodup_append]
    refine ⟨hpulled.binders_nodup, nodup_eraseDups _, fun v hv w hw hvw => ?_⟩
    obtain ⟨b, hb, rfl⟩ := List.mem_map.mp hv
    exact hpulled.binders_fresh b hb (hvw ▸ List.mem_eraseDups.mp hw)
  · rw [hvars, List.mem_append, List.mem_eraseDups]
    exact (List.mem_append.mp (hpulled.freeVars_matrix_subset hv)).symm

/-- The inner closure has the Skolem form of the formula. -/
lemma matrix_skolemize_innerClosure (f : Formula) (index : ℕ) (supply : SkolemSupply) :
    ((f.innerClosure.standardize index).skolemize supply).1.matrix =
      (f.skolemForm index supply).1.matrix := by
  have hbinders : (f.innerClosure.standardize index).binders =
      (f.toPrenex.standardize index).binders ++
        universalBinders (f.freeVars.eraseDups.map (Prenex.indexedName index)) := by
    simp only [Prenex.standardize, innerClosure, universalBinders, List.map_append, List.map_map]
    rfl
  rw [Prenex.skolemize, hbinders, matrix_skolemizeFrom_append_universalBinders]
  rfl

/-- Where the inner closure is true, so is the prenex form under all assignments. -/
lemma holds_toPrenex_of_holds_innerClosure {f : Formula} {M : Structure D} {ε : String → D}
    (h : f.innerClosure.formula.Holds M ε) (δ : String → D) : f.toPrenex.formula.Holds M δ := by
  rw [f.isSentence_innerClosure.holds_iff M ε δ, Prenex.formula, innerClosure, bindAll_append] at h
  refine holds_bindAll_mono (fun γ => ?_) h
  exact holds_of_holds_bindAll fun b hb => quantifier_of_mem_universalBinders hb

/-- Where the prenex form is true under all assignments, so is the inner closure if the formula is
closed or all binders are universal. -/
lemma holds_innerClosure_of_forall {f : Formula}
    (hcase : f.IsClosed ∨ ∀ b ∈ f.toPrenex.binders, b.quantifier = .universal) {M : Structure D}
    (h : ∀ δ, f.toPrenex.formula.Holds M δ) (ε : String → D) :
    f.innerClosure.formula.Holds M ε := by
  rcases hcase with hclosed | huniversal
  · have hself : f.innerClosure = f.toPrenex := by
      rw [innerClosure, hclosed, List.eraseDups_nil, universalBinders, List.map_nil,
        List.append_nil]
    rw [hself]
    exact h ε
  · exact holds_bindAll_of_forall (fun δ => holds_of_holds_bindAll huniversal (h δ)) _ ε

/-! ## Models of the closures -/

/-- Clauses with the literals of those of a Skolem form have a model exactly when the inner closure
has one. -/
lemma satisfiable_map_productClauses_iff {f : Formula} {supply : SkolemSupply}
    (hsymbols : f.symbols ⊆ supply.reserved) (index : ℕ) (clauseOf : List Literal → Clause)
    (hliterals : ∀ {ls l}, l ∈ (clauseOf ls).literals ↔ l ∈ ls) :
    Clause.Satisfiable.{u} ((f.skolemForm index supply).1.matrix.productClauses.map clauseOf) ↔
      Satisfiable.{u} [f.innerClosure.formula] := by
  have hsentence := f.isSentence_innerClosure
  have hvalid := fun {D : Type u} (M : Structure D) =>
    (f.isMatrix_skolemForm index supply).forall_valid_iff hliterals M
  constructor
  · rintro ⟨D, M, ⟨d⟩, hM⟩
    rw [hvalid, ← f.matrix_skolemize_innerClosure] at hM
    exact ⟨D, M, fun _ => d,
      List.forall_mem_singleton.mpr (hsentence.holds_of_holds_skolemize hM _)⟩
  · rintro ⟨D, M, ε, hM⟩
    rw [List.forall_mem_singleton] at hM
    obtain ⟨N, -, hN⟩ := hsentence.exists_agreesOn_holds_skolemize
      (List.Subset.trans f.symbols_toPrenex_subset hsymbols) index
      fun δ => (hsentence.holds_iff M ε δ).mp hM
    rw [f.matrix_skolemize_innerClosure] at hN
    exact ⟨D, N, ⟨ε ""⟩, (hvalid N).mpr hN⟩

/-- A model of the inner closure is one of the universal closure. -/
lemma satisfiable_universalClosure {f : Formula} (hplain : f.HasPlainBinders)
    (h : Satisfiable.{u} [f.innerClosure.formula]) : Satisfiable.{u} [f.universalClosure] := by
  obtain ⟨D, M, ε, hM⟩ := h
  rw [List.forall_mem_singleton] at hM
  refine ⟨D, M, ε, List.forall_mem_singleton.mpr (holds_universalClosure_iff.mpr fun δ => ?_)⟩
  exact (holds_toPrenex hplain M δ).mp (holds_toPrenex_of_holds_innerClosure hM δ)

/-- A model of the universal closure is one of the inner closure if the formula is closed or all
binders are universal. -/
lemma satisfiable_innerClosure {f : Formula} (hplain : f.HasPlainBinders)
    (hcase : f.IsClosed ∨ ∀ b ∈ f.toPrenex.binders, b.quantifier = .universal)
    (h : Satisfiable.{u} [f.universalClosure]) : Satisfiable.{u} [f.innerClosure.formula] := by
  obtain ⟨D, M, ε, hM⟩ := h
  rw [List.forall_mem_singleton, holds_universalClosure_iff] at hM
  refine ⟨D, M, ε, List.forall_mem_singleton.mpr ?_⟩
  exact holds_innerClosure_of_forall hcase (fun δ => (holds_toPrenex hplain M δ).mpr (hM δ)) ε

end Formula

/-! ## The clauses of a text -/

namespace Statement

variable {text : String} {st : Statement} {f : Formula}

/-- The clauses of a statement are those of the matrix of the Skolem form of its formula. -/
lemma clauses_of_lower (hlower : Formula.ofStatement st = .ok f) (index : ℕ)
    (supply : SkolemSupply) :
    (st.clauses (some index) supply).1 =
      .ok ((f.skolemForm index (supply.reserve f)).1.matrix.productClauses.map fun literals =>
        Clause.ofLiterals literals (.given .input)) := by
  rw [Statement.clauses, hlower]
  simp only [f.clauses_eq]

/-- A text that says a formula has clauses.  They have a model exactly when the inner closure of the
formula has one, and then the universal closure has one too.  The converse holds for closed formulas
and for those whose prenex form has no existential quantifier. -/
theorem satisfiable_clauses_iff_innerClosure (hparse : Statement.parse text = .ok (some st))
    (hlower : Formula.ofStatement st = .ok f) (index : ℕ) :
    ∃ cs, (st.clauses (some index) .initial).1 = .ok cs ∧
      (Clause.Satisfiable.{u} cs ↔ Formula.Satisfiable.{u} [f.innerClosure.formula]) ∧
      (Clause.Satisfiable.{u} cs → Formula.Satisfiable.{u} [f.universalClosure]) ∧
      ((f.IsClosed ∨ ∀ b ∈ f.toPrenex.binders, b.quantifier = .universal) →
        (Clause.Satisfiable.{u} cs ↔ Formula.Satisfiable.{u} [f.universalClosure])) := by
  have hplain := Formula.hasPlainBinders_of_parse hparse hlower
  have hsymbols : f.symbols ⊆ (SkolemSupply.initial.reserve f).reserved :=
    List.subset_append_left _ _
  have hinner := Formula.satisfiable_map_productClauses_iff.{u} hsymbols index
    (fun literals => Clause.ofLiterals literals (.given .input)) Clause.mem_literals_ofLiterals
  refine ⟨_, clauses_of_lower hlower index .initial, hinner, fun h => ?_, fun hcase => ?_⟩
  · exact Formula.satisfiable_universalClosure hplain (hinner.mp h)
  · rw [hinner]
    exact ⟨Formula.satisfiable_universalClosure hplain,
      Formula.satisfiable_innerClosure hplain hcase⟩

end Statement

/-- `x` is related to everything. -/
def allRX : Formula :=
  .quantified .universal "y"
    (.atom { predicate := "R", args := [.var "x", .var "y"], positive := true })

lemma binders_toPrenex_allRX : allRX.toPrenex.binders = [⟨.universal, "y"⟩] := by
  change (allRX.pullQuantifiers ["x"]).1.binders = _
  simp [Formula.pullQuantifiers, allRX]

/-- The clause of `∀y R(x, y)` has a model exactly when `∀x ∀y R(x, y)` has one. -/
theorem satisfiable_clauses_iff_allRX :
    ∃ st cs, Statement.parse "∀yR(x, y)" = .ok (some st) ∧ Formula.ofStatement st = .ok allRX ∧
      (st.clauses (some 1) .initial).1 = .ok cs ∧
      (Clause.Satisfiable.{0} cs ↔ Formula.Satisfiable.{0} [allRX.universalClosure]) := by
  have hreadable :
      Statement.IsReadable (.atom ⟨some ⟨.universal, "y"⟩, false, "R", some "x, y"⟩) := by
    decide
  have hparse := hreadable.parse_text (by decide) (by decide)
  have hlower : Formula.ofStatement (.atom ⟨some ⟨.universal, "y"⟩, false, "R", some "x, y"⟩) =
      .ok allRX := rfl
  have huniversal : ∀ b ∈ allRX.toPrenex.binders, b.quantifier = .universal := by
    rw [binders_toPrenex_allRX, List.forall_mem_singleton]
  obtain ⟨cs, hcs, -, -, hiff⟩ :=
    Statement.satisfiable_clauses_iff_innerClosure.{0} hparse hlower 1
  exact ⟨_, cs, hparse, hlower, hcs, hiff (Or.inr huniversal)⟩

/-- `x` is related to something that is not related to itself. -/
def someLX : Formula :=
  .quantified .existential "y" (.and
    (.atom { predicate := "L", args := [.var "x", .var "y"], positive := true })
    (.atom { predicate := "L", args := [.var "y", .var "y"], positive := false }))

/-- The statement that `∃y(L(x, y) ∧ ¬L(y, y))` is read as. -/
def writtenLX : Statement :=
  .joined false [⟨.existential, "y"⟩] (some .and) (.atom ⟨none, false, "L", some "x, y"⟩)
    (.atom ⟨none, true, "L", some "y, y"⟩)

lemma parse_writtenLX : Statement.parse "∃y(L(x, y) ∧ ¬L(y, y))" = .ok (some writtenLX) := by
  have hreadable : writtenLX.IsReadable := by decide
  exact hreadable.parse_text (by decide) (by decide)

lemma ofStatement_writtenLX : Formula.ofStatement writtenLX = .ok someLX := rfl

lemma toPrenex_someLX : someLX.toPrenex =
    { binders := [⟨.existential, "y"⟩]
      matrix := .and (.atom { predicate := "L", args := [.var "x", .var "y"], positive := true })
        (.atom { predicate := "L", args := [.var "y", .var "y"], positive := false }) } := by
  change (someLX.pullQuantifiers ["x"]).1 = _
  simp [Formula.pullQuantifiers, someLX]

/-- The clauses of `someLX`: the Skolem term for `y` is a constant, although `x` is free. -/
def clausesLX : List Clause :=
  [.ofLiterals [{ predicate := "L", args := [.var "x_1", .const "C0"], positive := true }]
    (.given .input),
    .ofLiterals [{ predicate := "L", args := [.const "C0", .const "C0"], positive := false }]
      (.given .input)]

lemma clauses_writtenLX : (writtenLX.clauses (some 1) .initial).1 = .ok clausesLX := by
  rw [Statement.clauses, ofStatement_writtenLX]
  unfold Formula.clauses
  simp only [toPrenex_someLX]
  rfl

lemma not_satisfiable_clausesLX : ¬ Clause.Satisfiable.{0} clausesLX := by
  rintro ⟨D, M, ⟨d⟩, hvalid⟩
  rw [clausesLX, List.forall_mem_cons, List.forall_mem_singleton] at hvalid
  obtain ⟨l, hl, hrelated⟩ := hvalid.1 fun _ => M.const "C0"
  obtain ⟨m, hm, hunrelated⟩ := hvalid.2 fun _ => d
  rw [List.mem_singleton.mp (Clause.mem_literals_ofLiterals.mp hl)] at hrelated
  rw [List.mem_singleton.mp (Clause.mem_literals_ofLiterals.mp hm)] at hunrelated
  exact hunrelated hrelated

lemma satisfiable_universalClosure_someLX : Formula.Satisfiable.{0} [someLX.universalClosure] := by
  -- two elements, of which each is related to the other one only
  refine ⟨Bool, ⟨fun _ => true, fun _ _ => true, fun _ args => args.Nodup⟩, fun _ => true, ?_⟩
  rw [List.forall_mem_singleton, Formula.holds_universalClosure_iff]
  intro δ
  refine ⟨!δ "x", ?_⟩
  simp [Formula.Holds, Literal.Holds, update]

/-- The clauses of `∃y(L(x, y) ∧ ¬L(y, y))` have no model, while `∀x ∃y(L(x, y) ∧ ¬L(y, y))` has
one. -/
theorem not_satisfiable_clauses_someLX :
    Statement.parse "∃y(L(x, y) ∧ ¬L(y, y))" = .ok (some writtenLX) ∧
      Formula.ofStatement writtenLX = .ok someLX ∧
      (writtenLX.clauses (some 1) .initial).1 = .ok clausesLX ∧
      ¬ Clause.Satisfiable.{0} clausesLX ∧ Formula.Satisfiable.{0} [someLX.universalClosure] :=
  ⟨parse_writtenLX, ofStatement_writtenLX, clauses_writtenLX, not_satisfiable_clausesLX,
    satisfiable_universalClosure_someLX⟩

end Clausal
