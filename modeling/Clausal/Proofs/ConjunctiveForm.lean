import Clausal.Formula.ClauseForm
import Clausal.Proofs.SkolemForm

/-!
# Conjunctive form

Multiplying out a matrix and splitting it gives its clauses: a literal is a clause, a conjunction
has the clauses of both sides, and a disjunction has every clause of the left side joined with every
clause of the right (`productClauses`).  The conjunction of these clauses is true under the same
assignments as the matrix.

`distribute` works on formulas and not on clauses, so the proof goes through the formulas that it
gives: `IsDisjunctive` formulas have one clause, `IsConjunctive` ones are conjunctions of those.
-/

namespace Clausal

universe u

variable {D : Type u}

namespace Formula

/-! ## The clauses of a matrix -/

/-- Every list of the first family followed by every list of the second. -/
def joinAll (cs ds : List (List Literal)) : List (List Literal) :=
  cs.flatMap fun c => ds.map (c ++ ·)

/-- The clauses of a matrix, each as the list of its literals. -/
def productClauses : Formula → List (List Literal)
  | .atom l => [[l]]
  | .and f g => f.productClauses ++ g.productClauses
  | .or f g => joinAll f.productClauses g.productClauses
  | .not _ | .implies _ _ | .quantified _ _ _ => []

/-- A list of the product is a list of the first family followed by one of the second. -/
lemma mem_joinAll {cs ds : List (List Literal)} {e : List Literal} :
    e ∈ joinAll cs ds ↔ ∃ c ∈ cs, ∃ d ∈ ds, c ++ d = e := by
  unfold joinAll
  rw [List.mem_flatMap]
  exact exists_congr fun c => and_congr_right fun _ => List.mem_map

/-- Some literal of every joined list has a property exactly when this is so in the first family or
in the second. -/
lemma forall_mem_joinAll_exists (cs ds : List (List Literal)) (P : Literal → Prop) :
    (∀ e ∈ joinAll cs ds, ∃ l ∈ e, P l) ↔
      (∀ c ∈ cs, ∃ l ∈ c, P l) ∨ (∀ d ∈ ds, ∃ l ∈ d, P l) := by
  constructor
  · intro h
    by_contra hnot
    rw [not_or] at hnot
    simp only [not_forall] at hnot
    obtain ⟨⟨c, hc, hcP⟩, d, hd, hdP⟩ := hnot
    obtain ⟨l, hl, hP⟩ := h (c ++ d) (mem_joinAll.mpr ⟨c, hc, d, hd, rfl⟩)
    rcases List.mem_append.mp hl with hl | hl
    · exact hcP ⟨l, hl, hP⟩
    · exact hdP ⟨l, hl, hP⟩
  · rintro h e he
    obtain ⟨c, hc, d, hd, rfl⟩ := mem_joinAll.mp he
    rcases h with h | h
    · obtain ⟨l, hl, hP⟩ := h c hc
      exact ⟨l, List.mem_append_left _ hl, hP⟩
    · obtain ⟨l, hl, hP⟩ := h d hd
      exact ⟨l, List.mem_append_right _ hl, hP⟩

/-- A matrix is true exactly when each of its clauses has a true literal. -/
lemma IsMatrix.holds_iff {f : Formula} (h : f.IsMatrix) (M : Structure D) (ε : String → D) :
    f.Holds M ε ↔ ∀ c ∈ f.productClauses, ∃ l ∈ c, l.Holds M ε := by
  induction f with
  | atom l => simp [productClauses, Holds]
  | not f ih => exact h.elim
  | and f g ihf ihg =>
    rw [Holds, ihf h.1, ihg h.2, productClauses, List.forall_mem_append]
  | or f g ihf ihg =>
    rw [Holds, ihf h.1, ihg h.2, productClauses, forall_mem_joinAll_exists]
  | implies f g ihf ihg => exact h.elim
  | quantified q v f ih => exact h.elim

/-- Clauses with the literals of those of a matrix are true exactly when the matrix is true under
all assignments. -/
lemma IsMatrix.forall_valid_iff {f : Formula} (h : f.IsMatrix) {clauseOf : List Literal → Clause}
    (hliterals : ∀ {ls l}, l ∈ (clauseOf ls).literals ↔ l ∈ ls) (M : Structure D) :
    (∀ c ∈ f.productClauses.map clauseOf, c.Valid M) ↔ ∀ ε, f.Holds M ε := by
  rw [List.forall_mem_map]
  constructor
  · intro hvalid ε
    rw [h.holds_iff M ε]
    intro ls hls
    obtain ⟨l, hl, hholds⟩ := hvalid ls hls ε
    exact ⟨l, hliterals.mp hl, hholds⟩
  · intro hholds ls hls ε
    obtain ⟨l, hl, hlholds⟩ := (h.holds_iff M ε).mp (hholds ε) ls hls
    exact ⟨l, hliterals.mpr hl, hlholds⟩

/-- A matrix has at least one clause. -/
lemma IsMatrix.productClauses_ne_nil {f : Formula} (h : f.IsMatrix) : f.productClauses ≠ [] := by
  induction f with
  | atom l => exact List.cons_ne_nil _ _
  | not f ih => exact h.elim
  | and f g ihf ihg => exact List.append_ne_nil_of_left_ne_nil (ihf h.1) _
  | or f g ihf ihg =>
    obtain ⟨c, hc⟩ := List.exists_mem_of_ne_nil _ (ihf h.1)
    obtain ⟨d, hd⟩ := List.exists_mem_of_ne_nil _ (ihg h.2)
    exact List.ne_nil_of_mem (mem_joinAll.mpr ⟨c, hc, d, hd, rfl⟩)
  | implies f g ihf ihg => exact h.elim
  | quantified q v f ih => exact h.elim

/-- Each clause of a formula has a literal. -/
lemma ne_nil_of_mem_productClauses {f : Formula} {c : List Literal} (hc : c ∈ f.productClauses) :
    c ≠ [] := by
  induction f generalizing c with
  | atom l =>
    rw [List.mem_singleton.mp hc]
    exact List.cons_ne_nil _ _
  | and f g ihf ihg =>
    rcases List.mem_append.mp hc with hc | hc
    · exact ihf hc
    · exact ihg hc
  | or f g ihf ihg =>
    obtain ⟨d, hd, e, -, rfl⟩ := mem_joinAll.mp hc
    exact List.append_ne_nil_of_left_ne_nil (ihf hd) e
  | not f ih => cases hc
  | implies f g ihf ihg => cases hc
  | quantified q v f ih => cases hc

/-- The variables of the clauses of a formula are free in it. -/
lemma vars_subset_of_mem_productClauses {f : Formula} {c : List Literal} (hc : c ∈ f.productClauses)
    {l : Literal} (hl : l ∈ c) : l.vars ⊆ f.freeVars := by
  induction f generalizing c with
  | atom m =>
    rw [productClauses, List.mem_singleton] at hc
    rw [hc, List.mem_singleton] at hl
    rw [hl]
    exact List.Subset.refl _
  | not f ih => exact absurd hc List.not_mem_nil
  | and f g ihf ihg =>
    rcases List.mem_append.mp hc with hc | hc
    · exact List.Subset.trans (ihf hc hl) (List.subset_append_left _ _)
    · exact List.Subset.trans (ihg hc hl) (List.subset_append_right _ _)
  | or f g ihf ihg =>
    obtain ⟨a, ha, d, hd, rfl⟩ := mem_joinAll.mp hc
    rcases List.mem_append.mp hl with hl | hl
    · exact List.Subset.trans (ihf ha hl) (List.subset_append_left _ _)
    · exact List.Subset.trans (ihg hd hl) (List.subset_append_right _ _)
  | implies f g ihf ihg => exact absurd hc List.not_mem_nil
  | quantified q v f ih => exact absurd hc List.not_mem_nil

/-! ## What multiplying out gives -/

/-- A disjunction of literals. -/
def IsDisjunctive : Formula → Prop
  | .atom _ => True
  | .or f g => f.IsDisjunctive ∧ g.IsDisjunctive
  | .not _ | .and _ _ | .implies _ _ | .quantified _ _ _ => False

/-- A conjunction of disjunctions of literals. -/
def IsConjunctive : Formula → Prop
  | .and f g => f.IsConjunctive ∧ g.IsConjunctive
  | f => f.IsDisjunctive

/-- A disjunction of literals has one clause, the one that its disjuncts make. -/
lemma IsDisjunctive.exists_clause {f : Formula} (h : f.IsDisjunctive) :
    ∃ c, f.productClauses = [c] ∧ f.disjuncts = .ok c := by
  induction f with
  | atom l => exact ⟨[l], rfl, rfl⟩
  | not f ih => exact h.elim
  | and f g ihf ihg => exact h.elim
  | or f g ihf ihg =>
    obtain ⟨c, hc, hcd⟩ := ihf h.1
    obtain ⟨d, hd, hdd⟩ := ihg h.2
    refine ⟨c ++ d, ?_, ?_⟩
    · rw [productClauses, hc, hd]
      rfl
    · rw [disjuncts, hcd, hdd]
      rfl
  | implies f g ihf ihg => exact h.elim
  | quantified q v f ih => exact h.elim

/-- Splitting a conjunction of disjunctions gives its clauses. -/
lemma IsConjunctive.split_eq {f : Formula} (h : f.IsConjunctive) :
    f.split = .ok f.productClauses := by
  have hdisj : ∀ {g : Formula}, g.IsDisjunctive → g.conjuncts = [g] →
      g.split = .ok g.productClauses := by
    intro g hg hconj
    obtain ⟨c, hc, hcd⟩ := hg.exists_clause
    rw [split, hconj, hc, List.mapM_cons, hcd]
    rfl
  induction f with
  | atom l => rfl
  | not f ih => exact False.elim h
  | and f g ihf ihg =>
    have hf := ihf h.1
    have hg := ihg h.2
    unfold split at hf hg ⊢
    rw [conjuncts, List.mapM_append, hf, hg]
    rfl
  | or f g ihf ihg => exact hdisj h rfl
  | implies f g ihf ihg => exact False.elim h
  | quantified q v f ih => exact False.elim h

/-- Joining one list with two families one after the other is joining it with both. -/
lemma joinAll_singleton_append (c : List Literal) (ds es : List (List Literal)) :
    joinAll [c] (ds ++ es) = joinAll [c] ds ++ joinAll [c] es := by
  simp [joinAll]

/-- Joining two families one after the other with a third is joining each of them with it. -/
lemma joinAll_append (cs ds es : List (List Literal)) :
    joinAll (cs ++ ds) es = joinAll cs es ++ joinAll ds es := by
  unfold joinAll
  rw [List.flatMap_append]

/-- The disjunction of a disjunction with each conjunct joins its clause with theirs. -/
lemma IsDisjunctive.disjoinRight {f g : Formula} (hf : f.IsDisjunctive) (hg : g.IsConjunctive) :
    (f.disjoinRight g).IsConjunctive ∧
      (f.disjoinRight g).productClauses = joinAll f.productClauses g.productClauses := by
  induction g with
  | atom l => exact ⟨⟨hf, hg⟩, rfl⟩
  | not g ih => exact False.elim hg
  | and g h ihg ihh =>
    obtain ⟨hgc, hgp⟩ := ihg hg.1
    obtain ⟨hhc, hhp⟩ := ihh hg.2
    obtain ⟨c, hc, -⟩ := hf.exists_clause
    refine ⟨⟨hgc, hhc⟩, ?_⟩
    rw [Formula.disjoinRight, productClauses, hgp, hhp, productClauses, hc,
      joinAll_singleton_append]
  | or g h ihg ihh => exact ⟨⟨hf, hg⟩, rfl⟩
  | implies g h ihg ihh => exact False.elim hg
  | quantified q v g ih => exact False.elim hg

/-- The disjunction of each conjunct with each conjunct joins all their clauses. -/
lemma IsConjunctive.disjoin {f g : Formula} (hf : f.IsConjunctive) (hg : g.IsConjunctive) :
    (f.disjoin g).IsConjunctive ∧
      (f.disjoin g).productClauses = joinAll f.productClauses g.productClauses := by
  induction f with
  | atom l => exact IsDisjunctive.disjoinRight hf hg
  | not f ih => exact False.elim hf
  | and f h ihf ihh =>
    obtain ⟨hfc, hfp⟩ := ihf hf.1
    obtain ⟨hhc, hhp⟩ := ihh hf.2
    refine ⟨⟨hfc, hhc⟩, ?_⟩
    rw [Formula.disjoin, productClauses, hfp, hhp, productClauses, joinAll_append]
  | or f h ihf ihh => exact IsDisjunctive.disjoinRight hf hg
  | implies f h ihf ihh => exact False.elim hf
  | quantified q v f ih => exact False.elim hf

/-- Multiplying out a matrix gives a conjunction of disjunctions with the same clauses. -/
lemma IsMatrix.distribute {f : Formula} (h : f.IsMatrix) :
    f.distribute.IsConjunctive ∧ f.distribute.productClauses = f.productClauses := by
  induction f with
  | atom l => exact ⟨trivial, rfl⟩
  | not f ih => exact h.elim
  | and f g ihf ihg =>
    obtain ⟨hfc, hfp⟩ := ihf h.1
    obtain ⟨hgc, hgp⟩ := ihg h.2
    refine ⟨⟨hfc, hgc⟩, ?_⟩
    rw [Formula.distribute, productClauses, hfp, hgp, productClauses]
  | or f g ihf ihg =>
    obtain ⟨hfc, hfp⟩ := ihf h.1
    obtain ⟨hgc, hgp⟩ := ihg h.2
    obtain ⟨hc, hp⟩ := hfc.disjoin hgc
    refine ⟨hc, ?_⟩
    rw [Formula.distribute, hp, hfp, hgp, productClauses]
  | implies f g ihf ihg => exact h.elim
  | quantified q v f ih => exact h.elim

/-- Multiplying out a matrix and splitting it gives its clauses. -/
theorem IsMatrix.split_distribute {f : Formula} (h : f.IsMatrix) :
    f.distribute.split = .ok f.productClauses := by
  obtain ⟨hconj, hclauses⟩ := h.distribute
  rw [hconj.split_eq, hclauses]

/-- Multiplying out a matrix and splitting it succeeds with exactly the clauses of the matrix, in
their order and with all their literals, and their conjunction is true where the matrix is. -/
theorem IsMatrix.split_distribute_and_holds_iff {f : Formula} (h : f.IsMatrix) :
    f.distribute.split = .ok f.productClauses ∧
      ∀ {D : Type u} (M : Structure D) (ε : String → D),
        f.Holds M ε ↔ ∀ c ∈ f.productClauses, ∃ l ∈ c, l.Holds M ε :=
  ⟨h.split_distribute, h.holds_iff⟩

/-- The literal that a predicate without arguments holds. -/
def fact (name : String) : Literal :=
  { predicate := name, args := [], positive := true }

/-- `(P ∧ Q) ∨ (R ∧ (P ∨ S))`. -/
def twoOrTwo : Formula :=
  .or (.and (.atom (fact "P")) (.atom (fact "Q")))
    (.and (.atom (fact "R")) (.or (.atom (fact "P")) (.atom (fact "S"))))

/-- The clauses of `(P ∧ Q) ∨ (R ∧ (P ∨ S))` are `P ∨ R`, `P ∨ P ∨ S`, `Q ∨ R` and `Q ∨ P ∨ S`. -/
theorem split_distribute_twoOrTwo :
    twoOrTwo.distribute.split =
        .ok [[fact "P", fact "R"], [fact "P", fact "P", fact "S"], [fact "Q", fact "R"],
          [fact "Q", fact "P", fact "S"]] ∧
      ∀ (M : Structure Bool) (ε : String → Bool),
        twoOrTwo.Holds M ε ↔ ∀ c ∈ twoOrTwo.productClauses, ∃ l ∈ c, l.Holds M ε := by
  have hmatrix : twoOrTwo.IsMatrix := ⟨⟨trivial, trivial⟩, trivial, trivial, trivial⟩
  obtain ⟨hsplit, hholds⟩ := hmatrix.split_distribute_and_holds_iff
  exact ⟨hsplit, hholds⟩

end Formula

end Clausal
