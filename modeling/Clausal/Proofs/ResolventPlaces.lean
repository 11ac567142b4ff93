import Clausal.Proofs.Lifting
import Mathlib.Data.List.ProdSigma
import Mathlib.Data.Prod.Lex

/-!
# The places of resolvents

The resolvents of two clauses are listed by the places of the literals resolved on, row by row:
first those on the first literal of the first clause, in the order of the second clause, and so on.
There is one resolvent for every two places at which some instances of the clauses can be resolved,
whichever replacements give these instances, and for no others.

Each resolvent is the most general one at its places.  It is what is left of some instances of the
two clauses, and whatever is left of instances that are resolved at these places is an instance of
it.
-/

namespace Clausal

/-- If a function is undefined at some members of a list, then the values it takes correspond to the
members at which it is defined. -/
lemma forall₂_filterMap {α β : Type} {f : α → Option β} {R : α → β → Prop} {l : List α}
    (h : ∀ a ∈ l, ∀ b, f a = some b → R a b) :
    List.Forall₂ R (l.filter fun a => (f a).isSome) (l.filterMap f) := by
  induction l with
  | nil => exact List.Forall₂.nil
  | cons a l ih =>
    obtain ⟨ha, hl⟩ := List.forall_mem_cons.mp h
    cases hf : f a with
    | none =>
      rw [List.filterMap_cons_none hf, List.filter_cons_of_neg (by simp [hf])]
      exact ih hl
    | some b =>
      rw [List.filterMap_cons_some hf, List.filter_cons_of_pos (by simp [hf])]
      exact List.Forall₂.cons (ha b hf) (ih hl)

namespace ParentPair

/-- Two replacements make the literals at two places of the clauses complementary. -/
def ResolvesBy (p : ParentPair) (i j : ℕ) (σ τ : String → Term) : Prop :=
  ∃ l m, p.left.literals[i]? = some l ∧ p.right.literals[j]? = some m ∧
    l.predicate = m.predicate ∧ l.positive ≠ m.positive ∧
    l.args.map (Term.subst σ) = m.args.map (Term.subst τ)

/-- The literals that are left of two instances of the clauses when those at two places are taken
away. -/
def remainderBy (p : ParentPair) (i j : ℕ) (σ τ : String → Term) : List Literal :=
  (p.left.literals.eraseIdx i).map (Literal.subst σ) ++
    (p.right.literals.eraseIdx j).map (Literal.subst τ)

/-- A resolvent is the most general one at two places. -/
structure IsMostGeneralAt (p : ParentPair) (place : ℕ × ℕ) (res : Resolvent) : Prop where
  /-- The resolvent is what is left of instances of the clauses. -/
  isRemainder : ∃ σ τ, p.ResolvesBy place.1 place.2 σ τ ∧
    ∀ x, x ∈ res.clause.literals ↔ x ∈ p.remainderBy place.1 place.2 σ τ
  /-- What is left of any instances of the clauses is an instance of the resolvent. -/
  exists_subst : ∀ σ τ, p.ResolvesBy place.1 place.2 σ τ → ∃ θ : String → Term,
    ∀ x, x ∈ res.clause.literals.map (Literal.subst θ) ↔ x ∈ p.remainderBy place.1 place.2 σ τ

variable {p : ParentPair} {i j : ℕ} {l m : Literal} {u : Substitution} {σ τ : String → Term}

/-! ## Resolving at two places -/

/-- The literals at two places and their unifier are determined by the places. -/
lemma ResolvesAt.unifier_eq {l' m' : Literal} {u' : Substitution} (h : p.ResolvesAt i j l m u)
    (h' : p.ResolvesAt i j l' m' u') : u = u' := by
  obtain rfl : l = l' := Option.some.inj (h.left.symm.trans h'.left)
  obtain rfl : m = m' := Option.some.inj (h.right.symm.trans h'.right)
  exact Except.ok.inj (h.unify.symm.trans h'.unify)

/-- Where the clauses can be resolved, the unifier makes instances of them that are resolved there.
What is left of them is what is left of the clauses under the unifier. -/
lemma ResolvesAt.exists_resolvesBy (h : p.ResolvesAt i j l m u) :
    ∃ σ τ, p.ResolvesBy i j σ τ ∧ p.remainder i j u = p.remainderBy i j σ τ := by
  obtain ⟨hl, hm, hopposes, hunify⟩ := h
  rw [getElem?_literals_apart] at hm
  obtain ⟨m₀, hm₀, rfl⟩ := Option.map_eq_some_iff.mp hm
  -- the variables of the second clause are renamed before they are replaced
  let τ : String → Term := fun v =>
    (Term.var (p.right.apartRenaming p.rightId p.left v)).subst u.value
  have hrename : ∀ x : Literal,
      (x.rename (p.right.apartRenaming p.rightId p.left)).subst u.value = x.subst τ :=
    fun x => Literal.subst_subst _ _ x
  have hcut := Literal.subst_eq_complement_of_opposes hopposes (map_subst_value_of_unify hunify)
  rw [hrename] at hcut
  refine ⟨u.value, τ, ⟨l, m₀, hl, hm₀, Literal.subst_eq_complement_iff.mp hcut⟩, ?_⟩
  rw [remainder, eraseIdx_literals_apart, List.map_append, List.map_map]
  exact congrArg _ (List.map_congr_left fun x _ => hrename x)

/-- Where instances of the clauses can be resolved, so can the clauses, and what is left of the
instances is an instance of what is left of the clauses under the unifier. -/
lemma ResolvesBy.exists_resolvesAt (h : p.ResolvesBy i j σ τ) :
    ∃ l m u, p.ResolvesAt i j l m u ∧ ∃ θ : String → Term,
      (p.remainder i j u).map (Literal.subst θ) = p.remainderBy i j σ τ := by
  obtain ⟨l, m, hl, hm, hcut⟩ := h
  obtain ⟨m', u, hresolves⟩ :=
    exists_resolvesAt_of_instances hl hm (Literal.subst_eq_complement_iff.mpr hcut)
  exact ⟨l, m', u, hresolves⟩

/-- The clause of what is left under the unifier is the most general resolvent at its places. -/
lemma ResolvesAt.isMostGeneralAt (h : p.ResolvesAt i j l m u) {res : Resolvent}
    (hres : ∀ x, x ∈ res.clause.literals ↔ x ∈ p.remainder i j u) :
    p.IsMostGeneralAt (i, j) res := by
  constructor
  · obtain ⟨σ, τ, hby, hremainder⟩ := h.exists_resolvesBy
    exact ⟨σ, τ, hby, fun x => by rw [hres, hremainder]⟩
  · intro σ τ hby
    obtain ⟨l', m', u', h', θ, hremainder⟩ := hby.exists_resolvesAt
    obtain rfl := h.unifier_eq h'
    refine ⟨θ, fun x => ?_⟩
    rw [← hremainder, List.mem_map, List.mem_map]
    exact exists_congr fun y => and_congr_left fun _ => hres y

/-! ## The list of resolvents -/

/-- The literals of the two clauses with their places, the second clause renamed apart, row by
row. -/
def cells (p : ParentPair) : List ((Literal × ℕ) × (Literal × ℕ)) :=
  p.left.literals.zipIdx ×ˢ p.apart.literals.zipIdx

/-- The resolvent in a cell, if there is one. -/
def resolventIn? (p : ParentPair) (step : ℕ) (cell : (Literal × ℕ) × (Literal × ℕ)) :
    Option Resolvent :=
  resolveAt? { p with right := p.apart } step cell.1 cell.2

/-- The places of a cell. -/
def place (cell : (Literal × ℕ) × (Literal × ℕ)) : ℕ × ℕ :=
  (cell.1.2, cell.2.2)

/-- The resolvents are those in the cells, row by row. -/
lemma resolvents_eq_filterMap (p : ParentPair) (step : ℕ) :
    p.resolvents step = p.cells.filterMap (p.resolventIn? step) := by
  change _ = (List.flatMap _ _).filterMap _
  rw [List.filterMap_flatMap]
  simp only [List.filterMap_map]
  rfl

lemma mem_cells {l m : Literal} {i j : ℕ} :
    ((l, i), (m, j)) ∈ p.cells ↔ p.left.literals[i]? = some l ∧ p.apart.literals[j]? = some m := by
  rw [cells, List.mem_product, List.mem_zipIdx_iff_getElem?, List.mem_zipIdx_iff_getElem?]

/-- The places of the cells grow from row to row, and within each row. -/
lemma pairwise_cells (p : ParentPair) :
    p.cells.Pairwise fun a b => toLex (place a) < toLex (place b) := by
  change (List.flatMap _ _).Pairwise _
  rw [List.pairwise_flatMap]
  constructor
  · rintro a -
    rw [List.pairwise_map]
    refine (pairwise_zipIdx _).imp fun {b c} hlt => ?_
    exact Prod.Lex.right a.2 hlt
  · refine (pairwise_zipIdx _).imp fun {a b} hlt c hc d hd => ?_
    obtain ⟨c', -, rfl⟩ := List.mem_map.mp hc
    obtain ⟨d', -, rfl⟩ := List.mem_map.mp hd
    exact Prod.Lex.left _ _ hlt

/-- The resolvent in a cell is the most general one at the places of the cell. -/
lemma isMostGeneralAt_of_mem_cells {step : ℕ} {cell : (Literal × ℕ) × (Literal × ℕ)}
    (hcell : cell ∈ p.cells) {res : Resolvent} (hres : p.resolventIn? step cell = some res) :
    p.IsMostGeneralAt (place cell) res := by
  obtain ⟨⟨l, i⟩, ⟨m, j⟩⟩ := cell
  obtain ⟨hl, hm⟩ := mem_cells.mp hcell
  obtain ⟨u, hresolves, rfl⟩ := (resolveAt?_eq_some_iff hl hm).mp hres
  exact hresolves.isMostGeneralAt fun x => Clause.mem_literals_ofLiterals

/-- There is a resolvent in a cell exactly if instances of the clauses can be resolved at its
places. -/
lemma exists_cell_iff (step : ℕ) :
    (∃ cell ∈ p.cells, (p.resolventIn? step cell).isSome ∧ place cell = (i, j)) ↔
      ∃ σ τ, p.ResolvesBy i j σ τ := by
  constructor
  · rintro ⟨⟨⟨l, i⟩, ⟨m, j⟩⟩, hcell, hsome, heq⟩
    obtain ⟨rfl, rfl⟩ := Prod.mk.inj heq
    obtain ⟨res, hres⟩ := Option.isSome_iff_exists.mp hsome
    obtain ⟨σ, τ, hby, -⟩ := (isMostGeneralAt_of_mem_cells hcell hres).isRemainder
    exact ⟨σ, τ, hby⟩
  · rintro ⟨σ, τ, hby⟩
    obtain ⟨l, m, u, hresolves, -⟩ := hby.exists_resolvesAt
    have hsome : (p.resolventIn? step ((l, i), (m, j))).isSome := by
      rw [resolventIn?, Option.isSome_iff_exists]
      exact ⟨_, (resolveAt?_eq_some_iff hresolves.left hresolves.right).mpr ⟨u, hresolves, rfl⟩⟩
    exact ⟨((l, i), (m, j)), mem_cells.mpr ⟨hresolves.left, hresolves.right⟩, hsome, rfl⟩

/-- The resolvents of two clauses correspond, in order, to the places at which some instances of the
clauses can be resolved, taken row by row, and each is the most general one at its places. -/
theorem exists_places_resolvents (p : ParentPair) (step : ℕ) :
    ∃ places : List (ℕ × ℕ), places.Pairwise (fun a b => toLex a < toLex b) ∧
      (∀ i j, (i, j) ∈ places ↔ ∃ σ τ, p.ResolvesBy i j σ τ) ∧
      List.Forall₂ p.IsMostGeneralAt places (p.resolvents step) := by
  let filled := p.cells.filter fun cell => (p.resolventIn? step cell).isSome
  refine ⟨filled.map place, ?_, ?_, ?_⟩
  · rw [List.pairwise_map]
    exact p.pairwise_cells.filter _
  · intro i j
    rw [← exists_cell_iff step, List.mem_map]
    exact exists_congr fun cell => by rw [List.mem_filter, and_assoc]
  · rw [resolvents_eq_filterMap, List.forall₂_map_left_iff]
    exact forall₂_filterMap fun cell hcell res hres => isMostGeneralAt_of_mem_cells hcell hres

end ParentPair

end Clausal
