import Clausal.Proofs.GroundDecision
import Clausal.Proofs.Lifting
import Mathlib.Order.Zorn

/-!
# Saturated clauses with covered factors have a model

A factor of a clause is what becomes of it when two of its literals are made equal.  Clauses that
are closed under resolution of different clauses need not have a model even if the empty clause is
not among them.  They have one if, for one of the two signs, the factors of the clauses all of whose
literals have this sign are covered too.

The model is found among the structures of terms.  The atoms with the chosen sign are a least set
that meets all instances of the clauses with this sign only, so each of these atoms is the only one
in the set of some instance; if two literals of the clause meet in it, a factor of the clause takes
its place.  Consider an instance of a clause that is false, with as few literals of the other sign
as possible.  It has such a literal, and the atom of that literal is the only one of an instance as
above.  The resolvent of the two clauses has a false instance with fewer literals of the other sign,
and so has the clause that covers it.
-/

namespace Clausal

/-! ## Least sets that meet given lists -/

/-- In a chain of sets, a list whose members are each left out by some set of the chain is left out
entirely by one. -/
lemma exists_forall_notMem_of_isChain {α : Type} {C : Set (Set α)} (hC : IsChain (· ⊆ ·) C)
    (hne : C.Nonempty) {l : List α} (h : ∀ a ∈ l, ∃ s ∈ C, a ∉ s) : ∃ s ∈ C, ∀ a ∈ l, a ∉ s := by
  induction l with
  | nil =>
    obtain ⟨s, hs⟩ := hne
    exact ⟨s, hs, fun a ha => absurd ha List.not_mem_nil⟩
  | cons a l ih =>
    rw [List.forall_mem_cons] at h
    obtain ⟨s, hs, has⟩ := h.1
    obtain ⟨t, ht, hlt⟩ := ih h.2
    rcases hC.total hs ht with hst | hts
    · exact ⟨s, hs, List.forall_mem_cons.mpr ⟨has, fun b hb hbs => hlt b hb (hst hbs)⟩⟩
    · exact ⟨t, ht, List.forall_mem_cons.mpr ⟨fun hat => has (hts hat), hlt⟩⟩

/-- Some set meets all the given lists, if none of them is empty, and each of its members is the
only one in some list. -/
lemma exists_least_meeting {α : Type} {F : Set (List α)} (hF : ∀ l ∈ F, l ≠ []) :
    ∃ H : Set α, (∀ l ∈ F, ∃ a ∈ l, a ∈ H) ∧ ∀ a ∈ H, ∃ l ∈ F, ∀ b ∈ l, b ∈ H → b = a := by
  have hchain : ∀ C ⊆ { H : Set α | ∀ l ∈ F, ∃ a ∈ l, a ∈ H }, IsChain (· ⊆ ·) C → C.Nonempty →
      ∃ H ∈ { H : Set α | ∀ l ∈ F, ∃ a ∈ l, a ∈ H }, ∀ s ∈ C, H ⊆ s := by
    intro C hC hchain hne
    refine ⟨⋂₀ C, fun l hl => ?_, fun s hs => Set.sInter_subset_of_mem hs⟩
    by_contra hnone
    have hleft : ∀ a ∈ l, ∃ s ∈ C, a ∉ s := by
      intro a ha
      by_contra hall
      refine hnone ⟨a, ha, fun s hs => ?_⟩
      by_contra has
      exact hall ⟨s, hs, has⟩
    obtain ⟨s, hs, hls⟩ := exists_forall_notMem_of_isChain hchain hne hleft
    obtain ⟨a, ha, has⟩ := hC hs l hl
    exact hls a ha has
  have hall : Set.univ ∈ { H : Set α | ∀ l ∈ F, ∃ a ∈ l, a ∈ H } := by
    intro l hl
    obtain ⟨a, ha⟩ := List.exists_mem_of_ne_nil l (hF l hl)
    exact ⟨a, ha, Set.mem_univ a⟩
  obtain ⟨H, -, hH⟩ := zorn_superset_nonempty _ hchain _ hall
  refine ⟨H, hH.prop, fun a ha => ?_⟩
  -- without `a` the set is too small to meet all lists
  by_contra hmeets
  have hless : H \ {a} ∈ { H : Set α | ∀ l ∈ F, ∃ a ∈ l, a ∈ H } := by
    intro l hl
    by_contra hnone
    refine hmeets ⟨l, hl, fun b hb hbH => ?_⟩
    by_contra hba
    exact hnone ⟨b, hb, hbH, hba⟩
  have hmem := hH.le_of_le hless Set.sdiff_subset ha
  exact hmem.2 rfl

/-! ## Factors -/

namespace Clause

/-- The factor of a clause on two of its literals, if these have the same sign and predicate and
unify. -/
def factorOn? (c : Clause) (l m : Literal) : Option Clause :=
  if l.positive = m.positive ∧ l.predicate = m.predicate then
    match unify l.args m.args with
    | .error _ => none
    | .ok u => some (u.applyClause c)
  else none

/-- All factors of a clause on two different literals of it. -/
def factors (c : Clause) : List Clause :=
  c.literals.flatMap fun l => (c.literals.filter (· ≠ l)).filterMap fun m => c.factorOn? l m

lemma mem_factors {c f : Clause} :
    f ∈ c.factors ↔ ∃ l ∈ c.literals, ∃ m ∈ c.literals, m ≠ l ∧ c.factorOn? l m = some f := by
  simp [factors, and_assoc]

/-- If an instance of a clause makes two of its literals equal, then the clause has a factor with
fewer literals, all of which have their instances among the literals of the instance. -/
lemma exists_factor_of_instance {c : Clause} {l m : Literal} {τ : String → Term}
    (hl : l ∈ c.literals) (hm : m ∈ c.literals) (hne : m ≠ l) (heq : l.subst τ = m.subst τ) :
    ∃ f ∈ c.factors, f.literals.length < c.literals.length ∧
      ∀ x ∈ f.literals, ∃ y ∈ c.literals, x.positive = y.positive ∧ x.subst τ = y.subst τ := by
  obtain ⟨hpredicate, hargs, hsign⟩ := Literal.mk.inj heq
  obtain ⟨u, hunify, habsorbs⟩ := exists_unify_eq_ok hargs
  have hfactor : c.factorOn? l m = some (u.applyClause c) := by
    rw [factorOn?, if_pos ⟨hsign, hpredicate⟩, hunify]
  refine ⟨_, mem_factors.mpr ⟨l, hl, m, hm, hne, hfactor⟩, ?_, ?_⟩
  · -- the unifier makes the two literals equal, so one of them can be left out
    have hsame : u.applyLiteral m = u.applyLiteral l := by
      rw [Substitution.applyLiteral, Literal.subst, Substitution.applyLiteral, Literal.subst,
        map_subst_value_of_unify hunify, hpredicate, hsign]
    have hsubset : (u.applyClause c).literals ⊆ (c.literals.erase m).map u.applyLiteral := by
      intro x hx
      obtain ⟨y, hy, rfl⟩ := List.mem_map.mp (mem_literals_ofLiterals.mp hx)
      by_cases hym : y = m
      · rw [hym, hsame]
        exact List.mem_map_of_mem ((List.mem_erase_of_ne (Ne.symm hne)).mpr hl)
      · exact List.mem_map_of_mem ((List.mem_erase_of_ne hym).mpr hy)
    have hle := (nodup_eraseDups _).length_le_of_subset hsubset
    rw [List.length_map, List.length_erase_of_mem hm] at hle
    have hpos := List.length_pos_of_mem hm
    have hlength : (u.applyClause c).literals.length ≤ c.literals.length - 1 := hle
    omega
  · intro x hx
    obtain ⟨y, hy, rfl⟩ := List.mem_map.mp (mem_literals_ofLiterals.mp hx)
    exact ⟨y, hy, rfl, Literal.subst_applyLiteral habsorbs y⟩

/-- A clause that subsumes another, in either mode, has an instance whose literals are literals of
the other, at distinct places. -/
lemma exists_subperm_of_subsumesIn {mode : SubsumptionMode} {c d : Clause} (hc : c.literals.Nodup)
    (h : c.subsumesIn mode d = true) :
    ∃ σ, (c.literals.map (Literal.subst σ)).Subperm d.literals := by
  cases mode with
  | exact =>
    obtain ⟨-, hall⟩ := Bool.and_eq_true_iff.mp h
    refine ⟨Term.var, ?_⟩
    have hself : c.literals.map (Literal.subst Term.var) = c.literals.map fun l => l :=
      List.map_congr_left fun l _ => Literal.subst_eq_self fun v _ => rfl
    rw [hself, List.map_id']
    refine List.Nodup.subperm hc fun l hl => ?_
    exact List.contains_iff_mem.mp (List.all_eq_true.mp hall l hl)
  | full =>
    obtain ⟨-, hembeds⟩ := Bool.and_eq_true_iff.mp h
    obtain ⟨σ, -, hsubperm⟩ := exists_subperm_of_embeds hembeds
    exact ⟨σ, hsubperm⟩

end Clause

namespace Registry

/-- The factors of the clauses all of whose literals have the given sign are covered. -/
def CoversFactors (mode : SubsumptionMode) (sign : Bool) (r : Registry) : Prop :=
  ∀ c ∈ r.clauses.toList, (∀ l ∈ c.literals, l.positive = sign) → ∀ f ∈ c.factors, r.Covers mode f

/-- What is assumed of clauses that are to have a model: none is empty, none has a literal twice,
and the resolvents of every two of them, and the factors of those with the given sign only, are
covered. -/
structure ClosedUpTo (mode : SubsumptionMode) (sign : Bool) (r : Registry) : Prop where
  noEmpty : ¬ r.HasEmpty
  nodup : ∀ c ∈ r.clauses.toList, c.literals.Nodup
  coversResolvents : ∀ p : ParentPair, p.leftId < p.rightId → r.get? p.leftId = some p.left →
    r.get? p.rightId = some p.right → ∀ res ∈ p.resolvents 0, r.Covers mode res.clause
  coversFactors : r.CoversFactors mode sign

variable {mode : SubsumptionMode} {sign : Bool} {r : Registry}

/-- If a clause is covered and no instance of two of its literals is complementary, then a
registered clause has an instance among its literals, with no more literals, and no more of either
sign. -/
lemma ClosedUpTo.exists_instance (h : r.ClosedUpTo mode sign) {c : Clause} (hc : r.Covers mode c)
    (htautology : ¬ ∃ l ∈ c.literals, l.complement ∈ c.literals) :
    ∃ e ∈ r.clauses.toList, ∃ θ : String → Term, (∀ l ∈ e.literals, l.subst θ ∈ c.literals) ∧
      e.literals.length ≤ c.literals.length ∧
      ∀ s, signCount s e.literals ≤ signCount s c.literals := by
  rcases hc with htrue | ⟨e, he, hsubsumes⟩
  · exact absurd (Clause.isTautology_iff.mp htrue) htautology
  · obtain ⟨θ, hθ⟩ := Clause.exists_subperm_of_subsumesIn (h.nodup e he) hsubsumes
    refine ⟨e, he, θ, fun l hl => hθ.subset (List.mem_map_of_mem hl), ?_, fun s => ?_⟩
    · have hle := hθ.length_le
      rwa [List.length_map] at hle
    · have hle : signCount s (e.literals.map (Literal.subst θ)) ≤ signCount s c.literals :=
        hθ.countP_le _
      have hsigns : ∀ l : Literal, (l.subst θ).positive = l.positive := fun _ => rfl
      rwa [signCount_map hsigns] at hle

/-! ## The atoms of a model -/

/-- A truth assignment that gives the atoms of a set, and no others, the given sign. -/
lemma exists_trueUnder_iff (H : Set Atom) (sign : Bool) :
    ∃ v : Atom → Bool, ∀ l : Literal, l.TrueUnder v ↔ (l.atom ∈ H ↔ l.positive = sign) := by
  classical
  refine ⟨fun a => if a ∈ H then sign else !sign, fun l => ?_⟩
  rw [Literal.TrueUnder]
  by_cases hmem : l.atom ∈ H
  · rw [if_pos hmem, iff_true_left hmem]
    exact eq_comm
  · rw [if_neg hmem, iff_false_left hmem, eq_comm]
    exact Bool.eq_not

/-- A set of atoms meets each instance of each clause with the given sign only. -/
def MeetsInstances (sign : Bool) (r : Registry) (H : Set Atom) : Prop :=
  ∀ c ∈ r.clauses.toList, (∀ l ∈ c.literals, l.positive = sign) → ∀ σ : String → Term,
    ∃ l ∈ c.literals, (l.subst σ).atom ∈ H

/-- An atom is the only one of the set in an instance of a clause with the given sign only. -/
def Supports (sign : Bool) (r : Registry) (H : Set Atom) (a : Atom) : Prop :=
  ∃ d ∈ r.clauses.toList, (∀ l ∈ d.literals, l.positive = sign) ∧ ∃ τ : String → Term,
    ∀ l ∈ d.literals, (l.subst τ).atom ∈ H → (l.subst τ).atom = a

/-- There is a set of atoms that meets each instance, with each of its atoms supported. -/
lemma ClosedUpTo.exists_meetsInstances (h : r.ClosedUpTo mode sign) :
    ∃ H : Set Atom, r.MeetsInstances sign H ∧ ∀ a ∈ H, r.Supports sign H a := by
  have hne : ∀ atoms ∈ { atoms : List Atom | ∃ c ∈ r.clauses.toList,
      (∀ l ∈ c.literals, l.positive = sign) ∧ ∃ σ : String → Term,
        atoms = c.literals.map fun l => (l.subst σ).atom }, atoms ≠ [] := by
    rintro atoms ⟨c, hc, -, σ, rfl⟩ hnil
    exact h.noEmpty ⟨c, hc, List.isEmpty_iff.mpr (List.map_eq_nil_iff.mp hnil)⟩
  obtain ⟨H, hmeets, hleast⟩ := exists_least_meeting hne
  refine ⟨H, fun c hc hsign σ => ?_, fun a ha => ?_⟩
  · obtain ⟨a, ha, haH⟩ := hmeets _ ⟨c, hc, hsign, σ, rfl⟩
    obtain ⟨l, hl, rfl⟩ := List.mem_map.mp ha
    exact ⟨l, hl, haH⟩
  · obtain ⟨atoms, ⟨c, hc, hsign, σ, rfl⟩, honly⟩ := hleast a ha
    exact ⟨c, hc, hsign, σ, fun l hl hlH => honly _ (List.mem_map_of_mem hl) hlH⟩

/-- An atom that is supported is so by an instance in which only one literal has it. -/
lemma ClosedUpTo.exists_support (h : r.ClosedUpTo mode sign) {H : Set Atom}
    (hmeets : r.MeetsInstances sign H) {a : Atom} (ha : r.Supports sign H a) :
    ∃ d ∈ r.clauses.toList, (∀ l ∈ d.literals, l.positive = sign) ∧ ∃ (τ : String → Term) (i : ℕ)
      (l : Literal), d.literals[i]? = some l ∧ (l.subst τ).atom = a ∧
        ∀ m ∈ d.literals.eraseIdx i, (m.subst τ).atom ∉ H := by
  obtain ⟨d, hd, hsign, τ, honly⟩ := ha
  -- as long as two literals meet in the atom, a factor gives a support with fewer literals
  induction hn : d.literals.length using Nat.strong_induction_on generalizing d τ with
  | _ n ih =>
    obtain ⟨l, hl, hlH⟩ := hmeets d hd hsign τ
    obtain ⟨i, hi⟩ := List.mem_iff_getElem?.mp hl
    by_cases hsingle : ∀ m ∈ d.literals.eraseIdx i, (m.subst τ).atom ∉ H
    · exact ⟨d, hd, hsign, τ, i, l, hi, honly l hl hlH, hsingle⟩
    · obtain ⟨m, hm, hmH⟩ : ∃ m ∈ d.literals.eraseIdx i, (m.subst τ).atom ∈ H := by
        by_contra hnone
        exact hsingle fun m hm hmH => hnone ⟨m, hm, hmH⟩
      obtain ⟨hmd, hne⟩ := mem_and_ne_of_mem_eraseIdx (h.nodup d hd) hi hm
      have hequal : l.subst τ = m.subst τ :=
        Literal.eq_of_atom_eq ((honly l hl hlH).trans (honly m hmd hmH).symm)
          ((hsign l hl).trans (hsign m hmd).symm)
      obtain ⟨f, hf, hless, hinstance⟩ := Clause.exists_factor_of_instance hl hmd hne hequal
      have hfsign : ∀ x ∈ f.literals, x.positive = sign := by
        intro x hx
        obtain ⟨y, hy, hxy, -⟩ := hinstance x hx
        rw [hxy, hsign y hy]
      have htautology : ¬ ∃ x ∈ f.literals, x.complement ∈ f.literals := by
        rintro ⟨x, hx, hx'⟩
        exact Bool.not_ne_self _ ((hfsign _ hx').trans (hfsign x hx).symm)
      obtain ⟨e, he, θ, hθ, hlength, -⟩ :=
        h.exists_instance (h.coversFactors d hd hsign f hf) htautology
      have honly' : ∀ x ∈ e.literals, (x.subst fun w => (θ w).subst τ).atom ∈ H →
          (x.subst fun w => (θ w).subst τ).atom = a := by
        intro x hx
        obtain ⟨y, hy, -, hxy⟩ := hinstance _ (hθ x hx)
        rw [← Literal.subst_subst, hxy]
        exact honly y hy
      have hesign : ∀ x ∈ e.literals, x.positive = sign := fun x hx =>
        hfsign (x.subst θ) (hθ x hx)
      exact ih e.literals.length (by omega) e he hesign _ honly' rfl

/-! ## The model -/

variable {v : Atom → Bool} {i j : ℕ} {l m : Literal} {σ τ : String → Term}

/-- If two clauses have instances with complementary literals and all other literals false, then a
clause has an instance with all literals false, and it has no more literals of either sign than the
two have besides these. -/
lemma ClosedUpTo.exists_false_of_pair (h : r.ClosedUpTo mode sign) {p : ParentPair}
    (hlt : p.leftId < p.rightId) (hleft : r.get? p.leftId = some p.left)
    (hright : r.get? p.rightId = some p.right) (hl : p.left.literals[i]? = some l)
    (hm : p.right.literals[j]? = some m) (hcut : l.subst σ = (m.subst τ).complement)
    (hlfalse : ∀ x ∈ p.left.literals.eraseIdx i, ¬ (x.subst σ).TrueUnder v)
    (hmfalse : ∀ x ∈ p.right.literals.eraseIdx j, ¬ (x.subst τ).TrueUnder v) :
    ∃ e ∈ r.clauses.toList, ∃ θ : String → Term, (∀ x ∈ e.literals, ¬ (x.subst θ).TrueUnder v) ∧
      ∀ s, signCount s e.literals ≤
        signCount s (p.left.literals.eraseIdx i) + signCount s (p.right.literals.eraseIdx j) := by
  obtain ⟨res, hres, θ, hinstance, hcount⟩ :=
    ParentPair.exists_resolvent_of_instances hl hm hcut 0
  have hfalse : ∀ x ∈ res.clause.literals, ¬ (x.subst θ).TrueUnder v := by
    intro x hx
    rcases hinstance x hx with hx | hx
    · obtain ⟨y, hy, hxy⟩ := List.mem_map.mp hx
      rw [← hxy]
      exact hlfalse y hy
    · obtain ⟨y, hy, hxy⟩ := List.mem_map.mp hx
      rw [← hxy]
      exact hmfalse y hy
  have htautology : ¬ ∃ x ∈ res.clause.literals, x.complement ∈ res.clause.literals := by
    rintro ⟨x, hx, hx'⟩
    exact hfalse _ hx' (Literal.trueUnder_complement.mpr (hfalse x hx))
  obtain ⟨e, he, ρ, hρ, -, hcount'⟩ :=
    h.exists_instance (h.coversResolvents p hlt hleft hright res hres) htautology
  refine ⟨e, he, fun w => (ρ w).subst θ, fun x hx => ?_, fun s => ?_⟩
  · rw [← Literal.subst_subst]
    exact hfalse _ (hρ x hx)
  · exact Nat.le_trans (hcount' s) (hcount s)

/-- The same for clauses with different numbers, whichever is the lower one. -/
lemma ClosedUpTo.exists_false_of_cut (h : r.ClosedUpTo mode sign) {c d : Clause} {k k' : ℕ}
    (hc : r.get? k = some c) (hd : r.get? k' = some d) (hne : k ≠ k')
    (hl : c.literals[i]? = some l) (hm : d.literals[j]? = some m)
    (hcut : l.subst σ = (m.subst τ).complement)
    (hlfalse : ∀ x ∈ c.literals.eraseIdx i, ¬ (x.subst σ).TrueUnder v)
    (hmfalse : ∀ x ∈ d.literals.eraseIdx j, ¬ (x.subst τ).TrueUnder v) :
    ∃ e ∈ r.clauses.toList, ∃ θ : String → Term, (∀ x ∈ e.literals, ¬ (x.subst θ).TrueUnder v) ∧
      ∀ s, signCount s e.literals ≤
        signCount s (c.literals.eraseIdx i) + signCount s (d.literals.eraseIdx j) := by
  rcases Nat.lt_or_gt_of_ne hne with hlt | hlt
  · exact h.exists_false_of_pair (p := ⟨k, c, k', d⟩) hlt hc hd hl hm hcut hlfalse hmfalse
  · have hcut' : m.subst τ = (l.subst σ).complement := by
      rw [hcut, Literal.complement_complement]
    obtain ⟨e, he, θ, hfalse, hcount⟩ :=
      h.exists_false_of_pair (p := ⟨k', d, k, c⟩) hlt hd hc hm hl hcut' hmfalse hlfalse
    refine ⟨e, he, θ, hfalse, fun s => ?_⟩
    rw [Nat.add_comm]
    exact hcount s

/-- A clause with a false instance and a literal of the other sign leads to a false instance of a
clause with fewer literals of that sign, if the atoms with the given sign meet each instance and are
supported. -/
lemma ClosedUpTo.exists_false_of_false (h : r.ClosedUpTo mode sign) {H : Set Atom}
    (hmeets : r.MeetsInstances sign H) (hsupports : ∀ a ∈ H, r.Supports sign H a)
    (hv : ∀ l : Literal, l.TrueUnder v ↔ (l.atom ∈ H ↔ l.positive = sign)) {c : Clause}
    (hc : c ∈ r.clauses.toList) (hfalse : ∀ x ∈ c.literals, ¬ (x.subst σ).TrueUnder v)
    (hl : l ∈ c.literals) (hother : l.positive ≠ sign) :
    ∃ e ∈ r.clauses.toList, ∃ θ : String → Term, (∀ x ∈ e.literals, ¬ (x.subst θ).TrueUnder v) ∧
      signCount (!sign) e.literals < signCount (!sign) c.literals := by
  have hother' : l.positive = !sign := Bool.eq_not.mpr hother
  have hmem : (l.subst σ).atom ∈ H := by
    by_contra hnot
    exact hfalse l hl ((hv _).mpr (iff_of_false hnot hother))
  obtain ⟨d, hd, hdsign, τ, j, m, hj, hatom, hrest⟩ := h.exists_support hmeets (hsupports _ hmem)
  obtain ⟨i, hi⟩ := List.mem_iff_getElem?.mp hl
  obtain ⟨k, hk⟩ := List.mem_iff_getElem?.mp hc
  obtain ⟨k', hk'⟩ := List.mem_iff_getElem?.mp hd
  rw [Array.getElem?_toList] at hk hk'
  -- the two clauses are different, as only one of them has the other sign
  have hne : k ≠ k' := by
    rintro rfl
    obtain rfl := Option.some.inj (hk.symm.trans hk')
    exact hother (hdsign l hl)
  have hcut : l.subst σ = (m.subst τ).complement := by
    refine Literal.eq_of_atom_eq hatom.symm ?_
    change l.positive = !m.positive
    rw [hdsign m (List.mem_of_getElem? hj), hother']
  have hdfalse : ∀ x ∈ d.literals.eraseIdx j, ¬ (x.subst τ).TrueUnder v := by
    intro x hx hxtrue
    exact hrest x hx (((hv _).mp hxtrue).mpr (hdsign x (List.mem_of_mem_eraseIdx hx)))
  obtain ⟨e, he, θ, hefalse, hcount⟩ := h.exists_false_of_cut hk hk' hne hi hj hcut
    (fun x hx => hfalse x (List.mem_of_mem_eraseIdx hx)) hdfalse
  refine ⟨e, he, θ, hefalse, ?_⟩
  have hle := hcount (!sign)
  have hlt := signCount_eraseIdx_lt hi
  have hzero : signCount (!sign) (d.literals.eraseIdx j) = 0 :=
    signCount_not_eq_zero fun x hx => hdsign x (List.mem_of_mem_eraseIdx hx)
  rw [hother'] at hlt
  omega

/-- Closed clauses are true in all instances under some truth assignment. -/
lemma ClosedUpTo.exists_trueUnder (h : r.ClosedUpTo mode sign) :
    ∃ v : Atom → Bool, ∀ c ∈ r.clauses.toList, ∀ σ : String → Term,
      ∃ l ∈ c.literals, (l.subst σ).TrueUnder v := by
  obtain ⟨H, hmeets, hsupports⟩ := h.exists_meetsInstances
  obtain ⟨v, hv⟩ := exists_trueUnder_iff H sign
  refine ⟨v, fun c hc σ => ?_⟩
  -- by induction on the number of literals with the other sign
  induction hn : signCount (!sign) c.literals using Nat.strong_induction_on generalizing c σ with
  | _ n ih =>
    by_cases hsign : ∀ l ∈ c.literals, l.positive = sign
    · obtain ⟨l, hl, hlH⟩ := hmeets c hc hsign σ
      exact ⟨l, hl, (hv _).mpr (iff_of_true hlH (hsign l hl))⟩
    · by_contra htrue
      have hfalse : ∀ l ∈ c.literals, ¬ (l.subst σ).TrueUnder v :=
        fun l hl hltrue => htrue ⟨l, hl, hltrue⟩
      obtain ⟨l, hl, hother⟩ : ∃ l ∈ c.literals, l.positive ≠ sign := by
        by_contra hnone
        refine hsign fun l hl => ?_
        by_contra hne
        exact hnone ⟨l, hl, hne⟩
      obtain ⟨e, he, θ, hefalse, hless⟩ :=
        h.exists_false_of_false hmeets hsupports hv hc hfalse hl hother
      obtain ⟨x, hx, hxtrue⟩ := ih _ (hn ▸ hless) e he θ rfl
      exact hefalse x hx hxtrue

end Registry

end Clausal
