import Clausal.Proofs.MostGeneralUnifier
import Clausal.Proofs.PrenexForm
import Clausal.Proofs.Resolution
import Mathlib.Data.List.InsertIdx
import Mathlib.Data.List.Perm.Subperm

/-!
# Lifting

If instances of two clauses can be resolved on instances of two literals, then the clauses can be
resolved on these literals, and what is left of the instances has the resolvent as a more general
form.  So whatever can be derived from instances is an instance of what is derived from the clauses
themselves.

The instances are taken by two replacements, one for each clause, which may treat the same variable
differently.  Renaming the second clause apart gives its variables names of their own, no two of
them the same, so that one replacement does what the two do.  As it makes the two literals opposite,
they have a unifier, which absorbs it.
-/

namespace Clausal

namespace Clause

/-! ## Renaming apart -/

/-- A name that is followed by a number is longer than the name alone. -/
lemma apartCandidate_zero_ne {id : ℕ} {v : String} {k : ℕ} :
    apartCandidate id v 0 ≠ apartCandidate id v (k + 1) := by
  intro h
  have hlength := congrArg String.length h
  have hmark : "_".length = 1 := rfl
  simp only [apartCandidate, String.length_append] at hlength
  omega

/-- The names tried for a variable are different from each other. -/
lemma apartCandidate_injective {id : ℕ} {v : String} {i j : ℕ}
    (h : apartCandidate id v i = apartCandidate id v j) : i = j := by
  cases i with
  | zero =>
    cases j with
    | zero => rfl
    | succ j => exact absurd h apartCandidate_zero_ne
  | succ i =>
    cases j with
    | zero => exact absurd h.symm apartCandidate_zero_ne
    | succ j => exact toString_nat_injective ((String.append_right_inj _).mp h)

/-- New names are not taken. -/
lemma notMem_of_mem_apartNames {id : ℕ} {vars taken : List String} {vw : String × String}
    (h : vw ∈ apartNames id vars taken) : vw.2 ∉ taken := by
  induction vars generalizing taken with
  | nil => cases h
  | cons v vs ih =>
    rcases List.mem_cons.mp h with rfl | h
    · exact freshName_not_mem (fun _ _ => apartCandidate_injective) taken
    · exact fun hmem => ih h (List.mem_cons_of_mem _ hmem)

/-- The first variable gets a fresh name, which is taken when the others get theirs. -/
lemma lookup_apartNames_cons (id : ℕ) (u : String) (vs taken : List String) (v : String) :
    (apartNames id (u :: vs) taken).lookup v =
      if v = u then some (freshName (apartCandidate id u) taken)
      else (apartNames id vs (freshName (apartCandidate id u) taken :: taken)).lookup v := by
  rw [apartNames, List.lookup_cons]
  by_cases hv : v = u
  · rw [if_pos hv, hv, beq_self_eq_true]
  · rw [if_neg hv, beq_false_of_ne hv]

/-- The variables that get new names are the given ones. -/
lemma isSome_lookup_apartNames {id : ℕ} {vars taken : List String} {v : String} :
    ((apartNames id vars taken).lookup v).isSome = true ↔ v ∈ vars := by
  induction vars generalizing taken with
  | nil => exact iff_of_false Bool.false_ne_true List.not_mem_nil
  | cons u vs ih =>
    rw [lookup_apartNames_cons, List.mem_cons]
    split
    · rename_i hv
      exact iff_of_true rfl (Or.inl hv)
    · rename_i hv
      rw [ih, or_iff_right hv]

/-- Different variables get different new names. -/
lemma eq_of_lookup_apartNames {id : ℕ} {vars taken : List String} {v v' w : String}
    (h : (apartNames id vars taken).lookup v = some w)
    (h' : (apartNames id vars taken).lookup v' = some w) : v = v' := by
  induction vars generalizing taken with
  | nil => cases h
  | cons u vs ih =>
    -- the name of the first variable is taken when the others get theirs
    have hfirst : ∀ x,
        (apartNames id vs (freshName (apartCandidate id u) taken :: taken)).lookup x =
        some w → w ≠ freshName (apartCandidate id u) taken := by
      rintro x hx rfl
      exact notMem_of_mem_apartNames (mem_of_lookup_eq_some hx) List.mem_cons_self
    rw [lookup_apartNames_cons] at h h'
    split at h
    · rename_i hv
      split at h'
      · rename_i hv'
        rw [hv, hv']
      · exact absurd (Option.some.inj h).symm (hfirst v' h')
    · split at h'
      · exact absurd (Option.some.inj h').symm (hfirst v h)
      · exact ih h h'

variable {c other : Clause} {id : ℕ} {v : String}

lemma mem_sharedVariables : v ∈ c.sharedVariables other ↔ v ∈ c.vars ∧ v ∈ other.vars := by
  rw [sharedVariables, List.mem_mergeSort, List.mem_filter, List.mem_eraseDups,
    List.contains_iff_mem]

/-- A variable that is not shared keeps its name. -/
lemma apartRenaming_of_notMem (h : v ∉ c.sharedVariables other) :
    c.apartRenaming id other v = v := by
  rw [apartRenaming]
  cases hlookup : (apartNames id (c.sharedVariables other) (other.vars ++ c.vars)).lookup v with
  | none => rfl
  | some w =>
    have hsome : ((apartNames id (c.sharedVariables other)
        (other.vars ++ c.vars)).lookup v).isSome = true := by
      rw [hlookup]
      rfl
    exact absurd (isSome_lookup_apartNames.mp hsome) h

/-- A shared variable gets a new name. -/
lemma lookup_eq_some_apartRenaming (id : ℕ) (h : v ∈ c.sharedVariables other) :
    (apartNames id (c.sharedVariables other) (other.vars ++ c.vars)).lookup v =
      some (c.apartRenaming id other v) := by
  obtain ⟨w, hw⟩ := Option.isSome_iff_exists.mp (isSome_lookup_apartNames.mpr h)
  rw [apartRenaming, hw]
  rfl

/-- The new name of a shared variable is a name of neither clause. -/
lemma apartRenaming_notMem_append (h : v ∈ c.sharedVariables other) :
    c.apartRenaming id other v ∉ other.vars ++ c.vars :=
  notMem_of_mem_apartNames (mem_of_lookup_eq_some (lookup_eq_some_apartRenaming id h))

/-- A clause renamed apart has none of the variables of the other one. -/
lemma apartRenaming_notMem (hv : v ∈ c.vars) : c.apartRenaming id other v ∉ other.vars := by
  by_cases hshared : v ∈ c.sharedVariables other
  · exact fun hmem => apartRenaming_notMem_append hshared (List.mem_append_left _ hmem)
  · rw [apartRenaming_of_notMem hshared]
    exact fun hmem => hshared (mem_sharedVariables.mpr ⟨hv, hmem⟩)

/-- A clause renamed apart has as many variables as before. -/
lemma apartRenaming_injOn {w : String} (hv : v ∈ c.vars) (hw : w ∈ c.vars)
    (h : c.apartRenaming id other v = c.apartRenaming id other w) : v = w := by
  -- a new name is not a name that another variable of the clause keeps
  have hnew : ∀ x ∈ c.sharedVariables other, c.apartRenaming id other x ∉ c.vars :=
    fun x hx hmem => apartRenaming_notMem_append hx (List.mem_append_right _ hmem)
  by_cases hvshared : v ∈ c.sharedVariables other
  · by_cases hwshared : w ∈ c.sharedVariables other
    · refine eq_of_lookup_apartNames (lookup_eq_some_apartRenaming id hvshared) ?_
      rw [h]
      exact lookup_eq_some_apartRenaming id hwshared
    · rw [apartRenaming_of_notMem hwshared] at h
      exact absurd (h ▸ hw) (hnew v hvshared)
  · rw [apartRenaming_of_notMem hvshared] at h
    by_cases hwshared : w ∈ c.sharedVariables other
    · exact absurd (h ▸ hv) (hnew w hwshared)
    · rw [h, apartRenaming_of_notMem hwshared]

/-- One replacement does for a clause and for another one, renamed apart from it, what two
replacements do for the two clauses. -/
lemma exists_joined (c other : Clause) (id : ℕ) (σ τ : String → Term) :
    ∃ θ : String → Term, (∀ v ∈ other.vars, θ v = σ v) ∧
      ∀ v ∈ c.vars, θ (c.apartRenaming id other v) = τ v := by
  refine ⟨fun w => if w ∈ other.vars then σ w else
    ((c.vars.find? (c.apartRenaming id other · = w)).map τ).getD (.var w), ?_, ?_⟩
  · intro v hv
    exact if_pos hv
  · intro v hv
    have hfound :
        c.vars.find? (c.apartRenaming id other · = c.apartRenaming id other v) = some v := by
      have hsome : (c.vars.find?
          (c.apartRenaming id other · = c.apartRenaming id other v)).isSome = true :=
        List.find?_isSome.mpr ⟨v, hv, decide_eq_true rfl⟩
      obtain ⟨w, hw⟩ := Option.isSome_iff_exists.mp hsome
      have hname := List.find?_some hw
      rw [hw, apartRenaming_injOn (List.mem_of_find?_eq_some hw) hv (of_decide_eq_true hname)]
    simp only [if_neg (apartRenaming_notMem hv), hfound, Option.map_some, Option.getD_some]

end Clause

/-! ## Instances of literals -/

namespace Literal

/-- To replace variables twice is to replace them once by the terms of the second replacement. -/
lemma subst_subst (σ τ : String → Term) (l : Literal) :
    (l.subst σ).subst τ = l.subst fun v => (σ v).subst τ := by
  rw [subst, subst, subst, List.map_map]
  exact congrArg (fun args => Literal.mk l.predicate args l.positive)
    (List.map_congr_left fun t _ => Term.subst_subst σ τ t)

/-- Replacement depends only on the variables that occur. -/
lemma subst_congr {σ τ : String → Term} {l : Literal} (h : ∀ v ∈ l.vars, σ v = τ v) :
    l.subst σ = l.subst τ := by
  rw [subst, subst]
  refine congrArg (fun args => Literal.mk l.predicate args l.positive) ?_
  exact List.map_congr_left fun t ht => Term.subst_congr fun v hv =>
    h v (List.mem_flatMap.mpr ⟨t, ht, hv⟩)

/-- A replacement that a unifier absorbs does the same after the unifier is applied. -/
lemma subst_applyLiteral {u : Substitution} {θ : String → Term}
    (h : ∀ v, (u.value v).subst θ = θ v) (l : Literal) :
    (u.applyLiteral l).subst θ = l.subst θ := by
  rw [Substitution.applyLiteral, subst_subst]
  exact subst_congr fun v _ => h v

/-- Literals with complementary instances are opposite. -/
lemma opposes_of_subst_eq_complement {l m : Literal} {σ τ : String → Term}
    (h : l.subst σ = (m.subst τ).complement) : l.opposes m = true := by
  obtain ⟨hpredicate, hsign, hargs⟩ := subst_eq_complement_iff.mp h
  have hlength := congrArg List.length hargs
  rw [List.length_map, List.length_map] at hlength
  simp [opposes, hsign, hpredicate, hlength]

end Literal

/-- The number of literals with a given sign. -/
def signCount (sign : Bool) (ls : List Literal) : ℕ :=
  ls.countP (·.positive == sign)

lemma signCount_append (sign : Bool) (ls ms : List Literal) :
    signCount sign (ls ++ ms) = signCount sign ls + signCount sign ms :=
  List.countP_append

/-- Replacing variables in some way in each literal keeps the signs. -/
lemma signCount_map {f : Literal → Literal} (hf : ∀ l, (f l).positive = l.positive) (sign : Bool)
    (ls : List Literal) : signCount sign (ls.map f) = signCount sign ls := by
  rw [signCount, signCount, List.countP_map]
  exact congrArg (fun p => List.countP p ls) (funext fun l => by rw [Function.comp_apply, hf])

/-- Of literals without repetition there are no more than in any list that has them. -/
lemma signCount_le_of_subset {ls ms : List Literal} (hnodup : ls.Nodup) (h : ls ⊆ ms)
    (sign : Bool) : signCount sign ls ≤ signCount sign ms :=
  (List.Nodup.subperm hnodup h).countP_le _

lemma signCount_eraseIdx_le (sign : Bool) (ls : List Literal) (i : ℕ) :
    signCount sign (ls.eraseIdx i) ≤ signCount sign ls :=
  (List.eraseIdx_sublist ls i).countP_le

/-- Taking away a literal leaves one less of its sign. -/
lemma signCount_eraseIdx_lt {ls : List Literal} {i : ℕ} {l : Literal} (h : ls[i]? = some l) :
    signCount l.positive (ls.eraseIdx i) < signCount l.positive ls := by
  obtain ⟨hi, rfl⟩ := List.getElem?_eq_some_iff.mp h
  have hperm : (ls[i] :: ls.eraseIdx i).Perm ls := List.getElem_cons_eraseIdx_perm hi
  have hself : (ls[i].positive == ls[i].positive) = true := beq_self_eq_true _
  rw [signCount, signCount, ← hperm.countP_eq, List.countP_cons, if_pos hself]
  exact Nat.lt_succ_self _

/-- There are no literals of the other sign where all have the same one. -/
lemma signCount_not_eq_zero {sign : Bool} {ls : List Literal} (h : ∀ x ∈ ls, x.positive = sign) :
    signCount (!sign) ls = 0 := by
  rw [signCount, List.countP_eq_zero]
  intro x hx
  rw [h x hx, beq_iff_eq]
  exact (Bool.eq_not_self sign).mp

/-! ## Resolvents of instances -/

namespace ParentPair

/-- A resolvent has no more literals of either sign than are left of its parents. -/
lemma signCount_remainder_le (p : ParentPair) (i j : ℕ) (u : Substitution) (sign : Bool) :
    signCount sign (p.remainder i j u).eraseDups ≤
      signCount sign (p.left.literals.eraseIdx i) +
        signCount sign (p.apart.literals.eraseIdx j) := by
  have hsubset : (p.remainder i j u).eraseDups ⊆ p.remainder i j u :=
    fun x hx => List.mem_eraseDups.mp hx
  have hle := signCount_le_of_subset (nodup_eraseDups _) hsubset sign
  have happly : ∀ y, (u.applyLiteral y).positive = y.positive := fun _ => rfl
  rwa [remainder, signCount_map happly, signCount_append] at hle

variable {p : ParentPair} {i j : ℕ} {l m : Literal} {σ τ : String → Term}

/-- The literals of the renamed clause are the renamed literals, each at its place. -/
lemma getElem?_literals_apart (p : ParentPair) (j : ℕ) :
    p.apart.literals[j]? =
      p.right.literals[j]?.map (Literal.rename (p.right.apartRenaming p.rightId p.left)) :=
  List.getElem?_map

/-- What is left of the renamed clause is what is left of the clause, renamed. -/
lemma eraseIdx_literals_apart (p : ParentPair) (j : ℕ) :
    p.apart.literals.eraseIdx j =
      (p.right.literals.eraseIdx j).map
        (Literal.rename (p.right.apartRenaming p.rightId p.left)) :=
  List.eraseIdx_map _ _ _

/-- If two clauses have instances that can be resolved on instances of two literals, then the
clauses can be resolved on these literals, and what is left of the instances is an instance of what
is left of the clauses. -/
lemma exists_resolvesAt_of_instances (hl : p.left.literals[i]? = some l)
    (hm : p.right.literals[j]? = some m) (hcut : l.subst σ = (m.subst τ).complement) :
    ∃ m' u, p.ResolvesAt i j l m' u ∧ ∃ θ : String → Term,
      (p.remainder i j u).map (Literal.subst θ) =
        (p.left.literals.eraseIdx i).map (Literal.subst σ) ++
          (p.right.literals.eraseIdx j).map (Literal.subst τ) := by
  obtain ⟨θ, hθleft, hθright⟩ := Clause.exists_joined p.right p.left p.rightId σ τ
  let ρ := p.right.apartRenaming p.rightId p.left
  have hleft : ∀ a ∈ p.left.literals, a.subst θ = a.subst σ := fun a ha =>
    Literal.subst_congr fun v hv => hθleft v (List.mem_flatMap.mpr ⟨a, ha, hv⟩)
  have hright : ∀ b ∈ p.right.literals, (b.rename ρ).subst θ = b.subst τ := by
    intro b hb
    rw [Literal.rename, Literal.subst_subst]
    exact Literal.subst_congr fun v hv => hθright v (List.mem_flatMap.mpr ⟨b, hb, hv⟩)
  have hcut' : l.subst θ = ((m.rename ρ).subst θ).complement := by
    rw [hleft l (List.mem_of_getElem? hl), hright m (List.mem_of_getElem? hm), hcut]
  obtain ⟨u, hunify, habsorbs⟩ := exists_unify_eq_ok (congrArg Literal.args hcut')
  have hapart : p.apart.literals[j]? = some (m.rename ρ) := by
    rw [getElem?_literals_apart, hm]
    rfl
  refine ⟨m.rename ρ, u, ⟨hl, hapart, Literal.opposes_of_subst_eq_complement hcut', hunify⟩, θ, ?_⟩
  have habsorbed : Literal.subst θ ∘ u.applyLiteral = Literal.subst θ :=
    funext (Literal.subst_applyLiteral habsorbs)
  rw [remainder, List.map_map, habsorbed, List.map_append, eraseIdx_literals_apart, List.map_map]
  congr 1
  · exact List.map_congr_left fun y hy => hleft y (List.mem_of_mem_eraseIdx hy)
  · exact List.map_congr_left fun z hz => hright z (List.mem_of_mem_eraseIdx hz)

/-- If two clauses have instances that can be resolved on instances of two literals, then they have
a resolvent an instance of which has no literals but those left of the two instances, and which has
no more literals of either sign than are left of the two clauses. -/
lemma exists_resolvent_of_instances (hl : p.left.literals[i]? = some l)
    (hm : p.right.literals[j]? = some m) (hcut : l.subst σ = (m.subst τ).complement) (step : ℕ) :
    ∃ res ∈ p.resolvents step, ∃ θ : String → Term,
      (∀ x ∈ res.clause.literals, x.subst θ ∈ (p.left.literals.eraseIdx i).map (Literal.subst σ) ∨
        x.subst θ ∈ (p.right.literals.eraseIdx j).map (Literal.subst τ)) ∧
      ∀ sign, signCount sign res.clause.literals ≤
        signCount sign (p.left.literals.eraseIdx i) +
          signCount sign (p.right.literals.eraseIdx j) := by
  obtain ⟨m', u, hresolves, θ, hremainder⟩ := exists_resolvesAt_of_instances hl hm hcut
  refine ⟨_, mem_resolvents_iff.mpr ⟨i, j, l, m', u, hresolves, rfl⟩, θ, ?_, ?_⟩
  · intro x hx
    rw [← List.mem_append, ← hremainder]
    exact List.mem_map_of_mem (Clause.mem_literals_ofLiterals.mp hx)
  · intro sign
    have hrename : ∀ y : Literal,
        (y.rename (p.right.apartRenaming p.rightId p.left)).positive = y.positive := fun _ => rfl
    have hle := p.signCount_remainder_le i j u sign
    rwa [eraseIdx_literals_apart, signCount_map hrename] at hle

end ParentPair

end Clausal
