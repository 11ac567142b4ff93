import Clausal.Proofs.HigherCeilings
import Clausal.Proofs.Variants

/-!
# The two subsumption modes

If the clauses of formulas are saturated under exact subsumption, then the search under full
subsumption does not refute the formulas.  For every clause that it registers is a variant of a
clause of the saturated ones.  The clauses that are given are the same in both.  A resolvent has
parents with variants among the saturated clauses, and these have a resolvent that is a variant of
it, which is not a tautology, so that a saturated clause has the same literals.

This needs two saturated clauses, as no clause is resolved with itself.  So the two parents must not
be variants of the same clause.  They are not: if the later one was given, both were, and are
different clauses; and if it was derived, the earlier one would subsume it.
-/

namespace Clausal

namespace Registry

variable {r r' : Registry} {given : ℕ} {ending ending' : List LogEntry}

/-- Every two clauses of a registry have only resolvents that it covers. -/
def CoversResolvents (mode : SubsumptionMode) (r : Registry) : Prop :=
  ∀ p : ParentPair, p.leftId < p.rightId → r.get? p.leftId = some p.left →
    r.get? p.rightId = some p.right → ∀ res ∈ p.resolvents 0, r.Covers mode res.clause

/-- A registry has a variant of a clause, and the clause itself under its number if it was given. -/
def HasVariant (r : Registry) (given k : ℕ) (c : Clause) : Prop :=
  ∃ j d, r.get? j = some d ∧ c.Variant d ∧ (k < given → j = k)

/-- The parents of a clause derived under full subsumption are not variants of each other, unless
both were given. -/
lemma Documented.not_variant (h : r.Documented .full given ending) {k j : ℕ} {c d : Clause}
    (hc : r.get? k = some c) (hd : r.get? j = some d) (hlt : k < j) (hj : given ≤ j) :
    ¬ c.Variant d := by
  intro hvariant
  have hnot := (h.derives j d hd hj).notSubsumed k hlt c hc
  rw [Clause.subsumesIn, hvariant.subsumes (h.nodup k c hc)] at hnot
  cases hnot

/-- If the parents of a resolvent have variants in a registry that covers its resolvents exactly,
then the registry has a variant of the resolvent, unless this is a tautology. -/
lemma Documented.exists_variant_of_parents (h : r'.Documented .exact given ending')
    (hcovers : r'.CoversResolvents .exact) {p : ParentPair} {step i j : ℕ} {c d : Clause}
    {res : Resolvent} (hpleft : p.left.literals.Nodup) (hpright : p.right.literals.Nodup)
    (hres : res ∈ p.resolvents step) (htautology : res.clause.isTautology = false)
    (hc : r'.get? i = some c) (hd : r'.get? j = some d) (hleft : p.left.Variant c)
    (hright : p.right.Variant d) (hne : i ≠ j) :
    ∃ k e, r'.get? k = some e ∧ res.clause.Variant e := by
  -- the two clauses in the order of their numbers
  obtain ⟨q, hlt, hqleft, hqright, hvariants⟩ : ∃ q : ParentPair, q.leftId < q.rightId ∧
      r'.get? q.leftId = some q.left ∧ r'.get? q.rightId = some q.right ∧ p.Variants q := by
    rcases Nat.lt_or_gt_of_ne hne with hlt | hgt
    · exact ⟨⟨i, c, j, d⟩, hlt, hc, hd, Or.inl ⟨hleft, hright⟩⟩
    · exact ⟨⟨j, d, i, c⟩, hgt, hd, hc, Or.inr ⟨hleft, hright⟩⟩
  obtain ⟨res', hres', hvariant⟩ :=
    ParentPair.exists_variant_of_mem_resolvents hvariants hpleft hpright
    (h.nodup _ _ hqleft) (h.nodup _ _ hqright) hres 0
  rcases hcovers q hlt hqleft hqright res' hres' with htautology' | ⟨e, he, hsame⟩
  · rw [hvariant.symm.isTautology htautology'] at htautology
    cases htautology
  · obtain ⟨k, hk⟩ := List.mem_iff_getElem?.mp he
    rw [Array.getElem?_toList] at hk
    exact ⟨k, e, hk, hvariant.trans (Clause.Variant.of_sameLiterals (h.nodup k e hk) hsame).symm⟩

/-- Each clause of a search under full subsumption has a variant in a registry with the same clauses
given that covers its resolvents exactly. -/
lemma Documented.hasVariant (h : r.Documented .full given ending)
    (h' : r'.Documented .exact given ending') (hgiven : ∀ k < given, r'.get? k = r.get? k)
    (hcovers : r'.CoversResolvents .exact) {k : ℕ} {c : Clause} (hc : r.get? k = some c) :
    r'.HasVariant given k c := by
  induction k using Nat.strong_induction_on generalizing c with
  | _ k ih =>
    rcases Nat.lt_or_ge k given with hlt | hle
    · exact ⟨k, c, (hgiven k hlt).trans hc, .of_forall_mem_iff fun _ => Iff.rfl, fun _ => rfl⟩
    · have hderives := h.derives k c hc hle
      obtain ⟨p, hids, hrightId, hleft, hright, -, step, res, hres, hliterals⟩ :=
        hderives.exists_parents
      obtain ⟨i, d, hd, hleftVariant, hleftGiven⟩ := ih p.leftId (hids.trans hrightId) hleft
      obtain ⟨j, e, he, hrightVariant, hrightGiven⟩ := ih p.rightId hrightId hright
      have hne : i ≠ j := by
        rintro rfl
        obtain rfl := Option.some.inj (hd.symm.trans he)
        rcases Nat.lt_or_ge p.rightId given with hlt | hge
        · rw [hleftGiven (hids.trans hlt)] at hrightGiven
          exact Nat.ne_of_lt hids (hrightGiven hlt)
        · exact h.not_variant hleft hright hids hge (hleftVariant.trans hrightVariant.symm)
      have htautology : res.clause.isTautology = false := by
        rw [Clause.isTautology, ← hliterals]
        exact hderives.noTautology
      obtain ⟨l, f, hf, hvariant⟩ := h'.exists_variant_of_parents hcovers (h.nodup _ _ hleft)
        (h.nodup _ _ hright) hres htautology hd he hleftVariant hrightVariant hne
      have hsame : c.Variant res.clause := .of_forall_mem_iff fun _ => by rw [hliterals]
      exact ⟨l, f, hf, hsame.trans hvariant, fun hlt => absurd hlt (Nat.not_lt.mpr hle)⟩

/-- So there is no empty clause if there is none in the other registry. -/
lemma Documented.not_hasEmpty (h : r.Documented .full given ending)
    (h' : r'.Documented .exact given ending') (hgiven : ∀ k < given, r'.get? k = r.get? k)
    (hcovers : r'.CoversResolvents .exact) (hempty : ¬ r'.HasEmpty) : ¬ r.HasEmpty := by
  rintro ⟨c, hc, hisEmpty⟩
  obtain ⟨k, hk⟩ := List.mem_iff_getElem?.mp hc
  rw [Array.getElem?_toList] at hk
  obtain ⟨j, d, hd, hvariant, -⟩ := h.hasVariant h' hgiven hcovers hk
  exact hempty ⟨d, Array.mem_toList_iff.mpr (Array.mem_of_getElem? hd), hvariant.isEmpty hisEmpty⟩

end Registry

namespace Search

variable {settings settings' : Settings} {cs : List Clause}

/-- The clauses given keep their numbers in every search that starts with them. -/
lemma get?_run_initial (settings settings' : Settings) (cs : List Clause) :
    ∀ k < (initial settings cs).registry.size,
      (initial settings cs).run.1.registry.get? k =
        (initial settings' cs).run.1.registry.get? k := by
  intro k hk
  obtain ⟨c, hc⟩ : ∃ c, (initial settings cs).registry.get? k = some c :=
    ⟨_, Array.getElem?_eq_getElem hk⟩
  have hc' : (initial settings' cs).registry.get? k = some c := hc
  rw [(isPartOf_run _).get?_eq hc, (isPartOf_run _).get?_eq hc']

/-- If a search under exact subsumption ends with saturated clauses, then the search with the same
clauses under full subsumption does not refute them. -/
lemma run_full_ne_refuted (hcs : ∀ c ∈ cs, c.literals.Nodup ∧ c.provenance.parents = [])
    (hexact : settings.subsumption = .exact) (hfull : settings'.subsumption = .full)
    (hverdict : (initial settings cs).run.2 = .notRefuted) :
    (initial settings' cs).run.2 ≠ .refuted := by
  intro hrefuted
  obtain ⟨ending, ⟨hdocumented, -⟩, -⟩ := (documents_initial settings hcs).run
  obtain ⟨ending', ⟨hdocumented', -⟩, hends⟩ := (documents_initial settings' hcs).run
  have hsettings : (initial settings cs).run.1.settings = settings := settings_run _
  have hsettings' : (initial settings' cs).run.1.settings = settings' := settings_run _
  obtain ⟨tried, hsaturated⟩ := (tracks_initial settings cs).exists_saturated_run hverdict
  rw [hsettings, hexact] at hdocumented
  rw [hsettings', hfull] at hdocumented'
  rw [hrefuted] at hends
  have hcovers : (initial settings cs).run.1.registry.CoversResolvents .exact := by
    intro p hlt hleft hright
    have hdone := (hsaturated.pairsDone p hlt (Registry.lt_size_of_get? hright) hleft hright).2 0
    rwa [hsettings, hexact] at hdone
  exact hdocumented'.not_hasEmpty hdocumented (get?_run_initial settings settings' cs) hcovers
    hsaturated.noEmpty hends.hasEmpty

end Search

/-- If an attempt under exact subsumption comes to the verdict that the formulas are not refuted,
then an attempt at the same formulas under full subsumption, with any ceilings and with early exit
or without, comes to a verdict, and not to the one that they are refuted. -/
theorem outcome_full_of_exact_notRefuted {settings settings' : Settings}
    (hexact : settings.subsumption = .exact) (hfull : settings'.subsumption = .full)
    {inputs : List (String × Origin)} {log : ProofLog}
    (h : Attempt.outcome settings inputs = .ok (.notRefuted, log)) :
    ∃ verdict log', Attempt.outcome settings' inputs = .ok (verdict, log') ∧
      verdict ≠ .refuted := by
  obtain ⟨e, he⟩ | ⟨cs, hcs, houtcome⟩ := Attempt.exists_outcome_eq inputs
  · rw [he] at h
    cases h
  · rw [houtcome] at h
    have hverdict := (Prod.mk.inj (Except.ok.inj h)).1
    exact ⟨_, _, houtcome settings', Search.run_full_ne_refuted hcs hexact hfull hverdict⟩

/-- Everything is `Q`. -/
def allQ : Formula :=
  .quantified .universal "x" (.atom { predicate := "Q", args := [.var "x"], positive := true })

/-- `A` is `P`. -/
def factPA : Formula :=
  .atom { predicate := "P", args := [.const "A"], positive := true }

/-- What is `P` is `Q` or `R`. -/
def allPQR : Formula :=
  .quantified .universal "x" <|
    .implies (.atom { predicate := "P", args := [.var "x"], positive := true }) <|
      .or (.atom { predicate := "Q", args := [.var "x"], positive := true })
        (.atom { predicate := "R", args := [.var "x"], positive := true })

lemma readFormula?_allQ : readFormula? "∀xQ(x)" = some (some allQ) := by
  let st : Statement := .atom ⟨some ⟨.universal, "x"⟩, false, "Q", some "x"⟩
  have hlower : Formula.ofStatement st = .ok allQ := rfl
  exact readFormula?_of_text_eq rfl hlower (by decide) (by decide) (by decide)

lemma readFormula?_factPA : readFormula? "P(A)" = some (some factPA) := by
  let st : Statement := .atom ⟨none, false, "P", some "A"⟩
  have hlower : Formula.ofStatement st = .ok factPA := rfl
  exact readFormula?_of_text_eq rfl hlower (by decide) (by decide) (by decide)

lemma readFormula?_allPQR : readFormula? "∀x(P(x) → (Q(x) ∨ R(x)))" = some (some allPQR) := by
  let st : Statement :=
    .joined false [⟨.universal, "x"⟩] (some .implies) (.atom ⟨none, false, "P", some "x"⟩) <|
      .joined false [] (some .or) (.atom ⟨none, false, "Q", some "x"⟩)
        (.atom ⟨none, false, "R", some "x"⟩)
  have hlower : Formula.ofStatement st = .ok allPQR := rfl
  exact readFormula?_of_text_eq rfl hlower (by decide) (by decide) (by decide)

/-- Settings with exact subsumption. -/
def exactQ : Settings :=
  { Settings.standard with subsumption := .exact }

/-- Settings with full subsumption and with other ceilings. -/
def fullQ : Settings :=
  { maxSteps := 3, maxClauses := 4, subsumption := .full, earlyExit := false }

/-- The texts of three formulas with a resolvent that only full subsumption drops. -/
def inputsQ : List (String × Origin) :=
  [("∀xQ(x)", .input), ("P(A)", .input), ("∀x(P(x) → (Q(x) ∨ R(x)))", .input)]

/-- The intake that has taken in the three formulas. -/
def intakeQ : Intake where
  settings := exactQ
  supply := ((SkolemSupply.initial.reserve allQ).reserve factPA).reserve allPQR
  pending := [⟨1, "∀xQ(x)", .input, allQ⟩, ⟨2, "P(A)", .input, factPA⟩,
    ⟨3, "∀x(P(x) → (Q(x) ∨ R(x)))", .input, allPQR⟩]
  count := 3

/-- The clauses of the three formulas. -/
def clausesQ : List Clause :=
  [.ofLiterals [⟨"Q", [.var "x_1"], true⟩] (.given .input),
    .ofLiterals [⟨"P", [.const "A"], true⟩] (.given .input),
    .ofLiterals [⟨"P", [.var "x_3"], false⟩, ⟨"Q", [.var "x_3"], true⟩, ⟨"R", [.var "x_3"], true⟩]
      (.given .input)]

lemma addAll_intakeQ : (Attempt.new exactQ).addAll inputsQ = .ok (.collecting intakeQ) := by
  rw [Attempt.new, inputsQ, Attempt.addAll_cons_of_readFormula? _ readFormula?_allQ,
    Attempt.addAll_cons_of_readFormula? _ readFormula?_factPA,
    Attempt.addAll_cons_of_readFormula? _ readFormula?_allPQR]
  rfl

set_option maxRecDepth 100000 in
lemma clausesFrom_intakeQ : Intake.clausesFrom intakeQ.pending intakeQ.supply = .ok clausesQ := by
  cbv

/-- The search with which the attempt at the three formulas starts. -/
def searchQ : Search where
  settings := exactQ
  registry :=
    { clauses := #[⟨[⟨"Q", [.var "x_1"], true⟩], some 0, .given .input⟩,
        ⟨[⟨"P", [.const "A"], true⟩], some 1, .given .input⟩,
        ⟨[⟨"P", [.var "x_3"], false⟩, ⟨"Q", [.var "x_3"], true⟩, ⟨"R", [.var "x_3"], true⟩], some 2,
          .given .input⟩]
      log := ⟨#[.initial [⟨0, "Q(x_1)", "input"⟩, ⟨1, "P(A)", "input"⟩,
        ⟨2, "¬P(x_3) ∨ Q(x_3) ∨ R(x_3)", "input"⟩]]⟩ }
  stepsMade := 0
  paired := 0

open scoped Evaluation in
/-- The first step under exact subsumption is a round that adds `Q(A) ∨ R(A)`. -/
lemma step_searchQ : searchQ.step.2 = none := by
  simp [searchQ, exactQ]

open scoped Evaluation in
/-- The second step adds nothing. -/
lemma step_step_searchQ : searchQ.step.1.step.2 = some .notRefuted := by
  simp [searchQ, exactQ]

/-- The attempt at the three formulas under exact subsumption does not refute them, so neither does
the one under full subsumption. -/
theorem outcome_full_inputsQ :
    ∃ log, Attempt.outcome exactQ inputsQ = .ok (.notRefuted, log) ∧
      ∃ verdict log', Attempt.outcome fullQ inputsQ = .ok (verdict, log') ∧ verdict ≠ .refuted := by
  have hstart : intakeQ.start = .ok searchQ :=
    Intake.start_eq clausesFrom_intakeQ (List.cons_ne_nil _ _)
  have houtcome := Attempt.outcome_of_start addAll_intakeQ hstart
  rw [Search.run_of_step_none step_searchQ, Search.run_of_step_some step_step_searchQ] at houtcome
  exact ⟨_, houtcome, outcome_full_of_exact_notRefuted rfl rfl houtcome⟩

end Clausal
