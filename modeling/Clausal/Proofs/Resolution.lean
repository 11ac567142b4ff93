import Clausal.Proofs.Truth
import Clausal.Proofs.Unification
import Clausal.Resolvent

/-!
# Resolution is sound

A resolvent is made of a literal of each clause, opposite in sign, with arguments that a unifier
makes equal.  An assignment of values to the terms of the unifier makes a literal of each clause
true, and not both of these are the literals resolved on.  So a structure that makes both clauses
true makes their resolvent true.
-/

namespace Clausal

universe u

variable {D : Type u}

/-- A member of a list is the one at a given place or stays when that one is removed. -/
lemma eq_or_mem_eraseIdx {α : Type} {l : List α} {i : ℕ} {a b : α} (hi : l[i]? = some a)
    (hb : b ∈ l) : b = a ∨ b ∈ l.eraseIdx i := by
  obtain ⟨j, hj⟩ := List.mem_iff_getElem?.mp hb
  by_cases hji : j = i
  · subst hji
    exact Or.inl (Option.some.inj (hj.symm.trans hi))
  · exact Or.inr (List.mem_eraseIdx_iff_getElem?.mpr ⟨j, hji, hj⟩)

/-- The numbers that are given to the members of a list grow. -/
lemma pairwise_zipIdx {α : Type} (l : List α) : l.zipIdx.Pairwise fun a b => a.2 < b.2 := by
  have hrange : (l.zipIdx.map Prod.snd).Pairwise (· < ·) := by
    rw [List.zipIdx_map_snd]
    exact List.pairwise_lt_range'
  exact List.pairwise_map.mp hrange

/-! ## The resolvents of two clauses -/

namespace ParentPair

/-- The second clause, renamed apart from the first. -/
def apart (p : ParentPair) : Clause :=
  p.right.renameApart p.rightId p.left

/-- The literals that are left of the two clauses when those at two places are taken away and a
unifier is applied. -/
def remainder (p : ParentPair) (i j : ℕ) (unifier : Substitution) : List Literal :=
  (p.left.literals.eraseIdx i ++ p.apart.literals.eraseIdx j).map unifier.applyLiteral

/-- Two clauses can be resolved on the literals at two places when these are opposite and have a
unifier. -/
structure ResolvesAt (p : ParentPair) (i j : ℕ) (l m : Literal)
    (unifier : Substitution) : Prop where
  left : p.left.literals[i]? = some l
  right : p.apart.literals[j]? = some m
  opposes : l.opposes m = true
  unify : Clausal.unify l.args m.args = .ok unifier

/-- Literals at two places of the clauses give a resolvent exactly if the clauses can be resolved on
them. -/
lemma resolveAt?_eq_some_iff {p : ParentPair} {step i j : ℕ} {l m : Literal} {r : Resolvent}
    (hl : p.left.literals[i]? = some l) (hm : p.apart.literals[j]? = some m) :
    resolveAt? { p with right := p.apart } step (l, i) (m, j) = some r ↔
      ∃ unifier, p.ResolvesAt i j l m unifier ∧
        r = { clause := Clause.ofLiterals (p.remainder i j unifier)
                { parents := [p.leftId, p.rightId], origin := .resolvent step }
              unifier
              cut := (l, m) } := by
  constructor
  · intro h
    unfold resolveAt? at h
    split at h
    · rename_i hopposes
      split at h
      · cases h
      · rename_i unifier hunify
        exact ⟨unifier, ⟨hl, hm, hopposes, hunify⟩, (Option.some.inj h).symm⟩
    · cases h
  · rintro ⟨unifier, h, rfl⟩
    rw [resolveAt?, if_pos h.opposes, h.unify]
    rfl

/-- The resolvents of two clauses are the clauses of what is left when the clauses are resolved on
the literals at some places. -/
lemma mem_resolvents_iff {p : ParentPair} {step : ℕ} {r : Resolvent} :
    r ∈ p.resolvents step ↔ ∃ i j l m unifier, p.ResolvesAt i j l m unifier ∧
      r = { clause := Clause.ofLiterals (p.remainder i j unifier)
              { parents := [p.leftId, p.rightId], origin := .resolvent step }
            unifier
            cut := (l, m) } := by
  simp only [resolvents, List.mem_flatMap, List.mem_filterMap, Prod.exists,
    List.mem_zipIdx_iff_getElem?]
  constructor
  · rintro ⟨l, i, hl, m, j, hm, h⟩
    exact ⟨i, j, l, m, (resolveAt?_eq_some_iff hl hm).mp h⟩
  · rintro ⟨i, j, l, m, unifier, h, hr⟩
    exact ⟨l, i, h.left, m, j, h.right,
      (resolveAt?_eq_some_iff h.left h.right).mpr ⟨unifier, h, hr⟩⟩

/-- The step in which clauses are resolved has no part in the literals of the resolvents. -/
lemma exists_mem_resolvents_literals_eq {p : ParentPair} {step : ℕ} {r : Resolvent}
    (h : r ∈ p.resolvents step) (step' : ℕ) :
    ∃ r' ∈ p.resolvents step', r'.clause.literals = r.clause.literals := by
  obtain ⟨i, j, l, m, unifier, hresolves, rfl⟩ := mem_resolvents_iff.mp h
  exact ⟨_, mem_resolvents_iff.mpr ⟨i, j, l, m, unifier, hresolves, rfl⟩, rfl⟩

/-- A resolvent has each of its literals once. -/
lemma nodup_of_mem_resolvents {p : ParentPair} {step : ℕ} {r : Resolvent}
    (h : r ∈ p.resolvents step) : r.clause.literals.Nodup := by
  obtain ⟨i, j, l, m, unifier, -, rfl⟩ := mem_resolvents_iff.mp h
  exact nodup_eraseDups _

/-- The parents of a resolvent are the two clauses. -/
lemma parents_of_mem_resolvents {p : ParentPair} {step : ℕ} {r : Resolvent}
    (h : r ∈ p.resolvents step) : r.clause.provenance.parents = [p.leftId, p.rightId] := by
  obtain ⟨i, j, l, m, unifier, -, rfl⟩ := mem_resolvents_iff.mp h
  rfl

end ParentPair

/-! ## Soundness -/

/-- Instances of two literals are complements exactly if the literals have the same predicate and
different signs, and the arguments become equal. -/
lemma Literal.subst_eq_complement_iff {l m : Literal} {σ τ : String → Term} :
    l.subst σ = (m.subst τ).complement ↔ l.predicate = m.predicate ∧ l.positive ≠ m.positive ∧
      l.args.map (Term.subst σ) = m.args.map (Term.subst τ) := by
  rw [subst, subst, complement, Literal.mk.injEq, Bool.eq_not]
  constructor
  · rintro ⟨hpredicate, hargs, hsign⟩
    exact ⟨hpredicate, hsign, hargs⟩
  · rintro ⟨hpredicate, hsign, hargs⟩
    exact ⟨hpredicate, hargs, hsign⟩

/-- Literals that are opposite, with arguments made equal by a replacement, become complements. -/
lemma Literal.subst_eq_complement_of_opposes {l m : Literal} {σ : String → Term}
    (hopposes : l.opposes m = true)
    (hargs : l.args.map (Term.subst σ) = m.args.map (Term.subst σ)) :
    l.subst σ = (m.subst σ).complement := by
  obtain ⟨⟨hsign, hpredicate⟩, -⟩ : (l.positive ≠ m.positive ∧ l.predicate = m.predicate) ∧
      l.args.length = m.args.length := by
    simpa [opposes] using hopposes
  exact subst_eq_complement_iff.mpr ⟨hpredicate, hsign, hargs⟩

/-- Renaming the variables of a clause keeps it true. -/
lemma Clause.Valid.renameApart {M : Structure D} {c : Clause} (h : c.Valid M) (id : ℕ)
    (other : Clause) : (c.renameApart id other).Valid M := by
  intro ε
  obtain ⟨l, hl, hholds⟩ := h fun v => ε (c.apartRenaming id other v)
  refine ⟨l.rename (c.apartRenaming id other), List.mem_map_of_mem hl, ?_⟩
  rw [Literal.rename, Literal.holds_subst]
  exact hholds

/-- A structure that makes two clauses true makes all their resolvents true. -/
lemma ParentPair.valid_of_mem_resolvents {M : Structure D} {p : ParentPair} {step : ℕ}
    {r : Resolvent} (hleft : p.left.Valid M) (hright : p.right.Valid M)
    (h : r ∈ p.resolvents step) : r.clause.Valid M := by
  obtain ⟨i, j, l, m, unifier, hresolves, rfl⟩ := mem_resolvents_iff.mp h
  intro ε
  -- the terms of the unifier give the assignment under which the two clauses are read
  let δ : String → D := fun v => (unifier.value v).eval M ε
  obtain ⟨a, ha, haholds⟩ := hleft δ
  obtain ⟨b, hb, hbholds⟩ := hright.renameApart p.rightId p.left δ
  rw [← Literal.holds_subst] at haholds hbholds
  have hcut : l.subst unifier.value = (m.subst unifier.value).complement :=
    Literal.subst_eq_complement_of_opposes hresolves.opposes
      (map_subst_value_of_unify hresolves.unify)
  have hmember : ∀ c ∈ p.left.literals.eraseIdx i ++ p.apart.literals.eraseIdx j,
      c.subst unifier.value ∈ (Clause.ofLiterals (p.remainder i j unifier)
        { parents := [p.leftId, p.rightId], origin := .resolvent step }).literals :=
    fun c hc => Clause.mem_literals_ofLiterals.mpr (List.mem_map_of_mem hc)
  rcases eq_or_mem_eraseIdx hresolves.left ha with rfl | ha
  · rcases eq_or_mem_eraseIdx hresolves.right hb with rfl | hb
    · rw [hcut, Literal.holds_complement] at haholds
      exact absurd hbholds haholds
    · exact ⟨_, hmember b (List.mem_append_right _ hb), hbholds⟩
  · exact ⟨_, hmember a (List.mem_append_left _ ha), haholds⟩

/-! ## Resolvents of given clauses -/

namespace Evaluation

-- the equations by which `simp` finds the resolvents of clauses that are written out
attribute [scoped simp] ParentPair.resolvents ParentPair.resolveAt? Literal.opposes
  Clause.renameApart Clause.apartRenaming Clause.apartNames Clause.apartCandidate
  Clause.sharedVariables Clause.vars Literal.vars Literal.rename Literal.subst Clause.ofLiterals
  freshName freshIndex freshIndexFrom List.eraseDups_cons List.lookup_cons
  unify Equations.solve Equations.replace Term.replace Term.binding
  Substitution.empty Substitution.size Substitution.bind Substitution.insertBinding
  Substitution.applyLiteral Substitution.value Substitution.valueFrom

end Evaluation

end Clausal
