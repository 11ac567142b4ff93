import Clausal.Proofs.Resolution
import Clausal.Proofs.Subsumption
import Mathlib.Data.Fintype.BigOperators
import Mathlib.Data.Fintype.Option

/-!
# Ground clauses

A truth assignment gives each atom, a predicate with its arguments, a truth value.  Clauses without
variables that are closed under resolution, up to tautologies and to clauses with more literals, and
do not have the empty clause among them are all true under some truth assignment.  The proof decides
one atom after the other: if under each of the two values of an atom some clause is false whatever
the atoms decided later are, then the resolvent of the two clauses is false before this atom is
decided.

The second part counts: over `a` atoms there are at most `3 ^ a` clauses that are not tautologies
and differ as sets of literals.  The third part is about resolving two clauses without variables.
-/

namespace Clausal

/-- A predicate with its arguments. -/
abbrev Atom := String × List Term

namespace Literal

/-- The atom of a literal. -/
def atom (l : Literal) : Atom :=
  (l.predicate, l.args)

/-- A literal is true under a truth assignment that gives its atom its sign. -/
def TrueUnder (v : Atom → Bool) (l : Literal) : Prop :=
  v l.atom = l.positive

/-- A literal is determined by its atom and its sign. -/
lemma eq_of_atom_eq {l m : Literal} (hatom : l.atom = m.atom) (hsign : l.positive = m.positive) :
    l = m := by
  obtain ⟨hpredicate, hargs⟩ := Prod.mk.inj hatom
  cases l
  cases m
  simp only at hpredicate hargs hsign
  rw [hpredicate, hargs, hsign]

/-- The complement of a literal is true exactly when the literal is not. -/
lemma trueUnder_complement {v : Atom → Bool} {l : Literal} :
    l.complement.TrueUnder v ↔ ¬ l.TrueUnder v :=
  Bool.eq_not

/-- Changing a truth assignment at another atom keeps the truth of a literal. -/
lemma trueUnder_update {v : Atom → Bool} {l : Literal} {a : Atom} {b : Bool} (h : l.atom ≠ a) :
    l.TrueUnder (Function.update v a b) ↔ l.TrueUnder v := by
  rw [TrueUnder, TrueUnder, Function.update_of_ne h]

/-- A literal on an atom is false when the atom is given the opposite sign. -/
lemma not_trueUnder_update {v : Atom → Bool} {l : Literal} {a : Atom} {b : Bool} (h : l.atom = a) :
    ¬ l.TrueUnder (Function.update v a b) ↔ l.positive = !b := by
  rw [TrueUnder, h, Function.update_self]
  exact ne_comm.trans Bool.eq_not.symm

end Literal

/-! ## Closed sets of clauses have models -/

/-- Clauses, given by their literals, are closed under resolution: for every two of them that can be
resolved on a literal, what is left of them is a tautology or has all literals of some clause. -/
def ClosedUnderResolution (S : List (List Literal)) : Prop :=
  ∀ c ∈ S, ∀ d ∈ S, ∀ l ∈ c, l.complement ∈ d → l ∉ d →
    ∃ r : List Literal, (∀ m ∈ r, m ∈ c ∧ m ≠ l ∨ m ∈ d ∧ m ≠ l.complement) ∧
      ((∃ m ∈ r, m.complement ∈ r) ∨ ∃ e ∈ S, e ⊆ r)

/-- A clause is false under a truth assignment however the given atoms are decided: it has none of
them, and its literals are false. -/
def FalseApart (v : Atom → Bool) (atoms : List Atom) (c : List Literal) : Prop :=
  ∀ l ∈ c, l.atom ∉ atoms ∧ ¬ l.TrueUnder v

namespace FalseApart

variable {v : Atom → Bool} {a : Atom} {b : Bool} {atoms : List Atom}
  {c : List Literal} {l : Literal}

/-- A literal that is not the one on `a` which deciding `a` made false is on another atom. -/
lemma atom_ne (h : FalseApart (Function.update v a b) atoms c) (hl : l ∈ c)
    (hne : l ≠ { predicate := a.1, args := a.2, positive := !b }) : l.atom ≠ a := fun hla =>
  hne (Literal.eq_of_atom_eq hla ((Literal.not_trueUnder_update hla).mp (h l hl).2))

/-- Such a literal was false before `a` was decided. -/
lemma of_ne (h : FalseApart (Function.update v a b) atoms c) (hl : l ∈ c)
    (hne : l ≠ { predicate := a.1, args := a.2, positive := !b }) :
    l.atom ∉ a :: atoms ∧ ¬ l.TrueUnder v := by
  have hla := h.atom_ne hl hne
  refine ⟨List.not_mem_cons_of_ne_of_not_mem hla (h l hl).1, ?_⟩
  rw [← Literal.trueUnder_update hla]
  exact (h l hl).2

/-- A clause that is false once `a` is decided was false before, or it has the literal on `a` that
this made false. -/
lemma cons_or_mem (h : FalseApart (Function.update v a b) atoms c) :
    FalseApart v (a :: atoms) c ∨ { predicate := a.1, args := a.2, positive := !b } ∈ c := by
  by_cases hmem : { predicate := a.1, args := a.2, positive := !b } ∈ c
  · exact Or.inr hmem
  · exact Or.inl fun l hl => h.of_ne hl fun heq => hmem (heq ▸ hl)

/-- No tautology is false. -/
lemma not_tautology (h : FalseApart v atoms c) : ¬ ∃ m ∈ c, m.complement ∈ c := by
  rintro ⟨m, hm, hm'⟩
  exact (h _ hm').2 (Literal.trueUnder_complement.mpr (h m hm).2)

end FalseApart

/-- If under each of the two values of an atom a clause is false however the atoms decided later
are, then a clause is false before this atom is decided. -/
lemma ClosedUnderResolution.exists_falseApart_cons {S : List (List Literal)}
    (hS : ClosedUnderResolution S) {v : Atom → Bool} {a : Atom} {atoms : List Atom}
    {c d : List Literal} (hc : c ∈ S) (hd : d ∈ S)
    (hcfalse : FalseApart (Function.update v a true) atoms c)
    (hdfalse : FalseApart (Function.update v a false) atoms d) :
    ∃ e ∈ S, FalseApart v (a :: atoms) e := by
  rcases hcfalse.cons_or_mem with hkept | hl
  · exact ⟨c, hc, hkept⟩
  rcases hdfalse.cons_or_mem with hkept | hl'
  · exact ⟨d, hd, hkept⟩
  -- both clauses have a literal on `a`, with opposite signs: resolve on it
  have hld : { predicate := a.1, args := a.2, positive := false } ∉ d := fun hld =>
    hdfalse.atom_ne hld (fun heq => Bool.false_ne_true (congrArg Literal.positive heq)) rfl
  obtain ⟨r, hr, hredundant⟩ := hS c hc d hd _ hl hl' hld
  have hrfalse : FalseApart v (a :: atoms) r := by
    intro x hx
    rcases hr x hx with ⟨hxc, hne⟩ | ⟨hxd, hne⟩
    · exact hcfalse.of_ne hxc hne
    · exact hdfalse.of_ne hxd hne
  rcases hredundant with htautology | ⟨e, he, her⟩
  · exact absurd htautology hrfalse.not_tautology
  · exact ⟨e, he, fun x hx => hrfalse x (her hx)⟩

/-- If under every truth assignment a clause is false, then, however all atoms but some are decided,
a clause is false that has none of these. -/
lemma ClosedUnderResolution.exists_falseApart {S : List (List Literal)}
    (hS : ClosedUnderResolution S) (hunsat : ∀ v, ∃ c ∈ S, ∀ l ∈ c, ¬ l.TrueUnder v)
    (atoms : List Atom) (v : Atom → Bool) :
    ∃ c ∈ S, FalseApart v atoms c := by
  induction atoms generalizing v with
  | nil =>
    obtain ⟨c, hc, hfalse⟩ := hunsat v
    exact ⟨c, hc, fun l hl => ⟨List.not_mem_nil, hfalse l hl⟩⟩
  | cons a atoms ih =>
    obtain ⟨c, hc, hcfalse⟩ := ih (Function.update v a true)
    obtain ⟨d, hd, hdfalse⟩ := ih (Function.update v a false)
    exact hS.exists_falseApart_cons hc hd hcfalse hdfalse

/-- Clauses that are closed under resolution and not empty are true under some truth assignment. -/
lemma ClosedUnderResolution.exists_trueUnder {S : List (List Literal)}
    (hS : ClosedUnderResolution S) (hempty : [] ∉ S) :
    ∃ v, ∀ c ∈ S, ∃ l ∈ c, l.TrueUnder v := by
  by_contra hunsat
  push Not at hunsat
  obtain ⟨c, hc, hfalse⟩ :=
    hS.exists_falseApart hunsat (S.flatten.map Literal.atom) fun _ => false
  cases c with
  | nil => exact hempty hc
  | cons l c =>
    refine (hfalse l List.mem_cons_self).1 (List.mem_map_of_mem ?_)
    exact List.mem_flatten_of_mem hc List.mem_cons_self

/-! ## Counting clauses -/

/-- The sign with which an atom occurs in a clause, if it does. -/
def signIn (c : List Literal) (a : Atom) : Option Bool :=
  if { predicate := a.1, args := a.2, positive := true } ∈ c then some true
  else if { predicate := a.1, args := a.2, positive := false } ∈ c then some false
  else none

/-- The literals of a clause that is no tautology are given by the signs of the atoms. -/
lemma mem_iff_signIn_eq {c : List Literal} (h : ¬ ∃ m ∈ c, m.complement ∈ c) (l : Literal) :
    l ∈ c ↔ signIn c l.atom = some l.positive := by
  obtain ⟨predicate, args, positive⟩ := l
  unfold signIn Literal.atom
  cases positive with
  | true =>
    constructor
    · exact fun hl => if_pos hl
    · intro hsign
      by_contra hl
      rw [if_neg hl] at hsign
      split at hsign <;> cases hsign
  | false =>
    constructor
    · intro hl
      rw [if_neg fun htrue => h ⟨{ predicate, args, positive := true }, htrue, hl⟩, if_pos hl]
    · intro hsign
      by_contra hl
      rw [if_neg hl] at hsign
      split at hsign <;> cases hsign

/-- There are at most `3 ^ a` clauses over `a` atoms that are no tautologies and have different sets
of literals. -/
lemma length_le_three_pow {cs : List (List Literal)} {atoms : List Atom}
    (hatoms : ∀ c ∈ cs, ∀ l ∈ c, l.atom ∈ atoms)
    (htautology : ∀ c ∈ cs, ¬ ∃ m ∈ c, m.complement ∈ c)
    (hdistinct : cs.Pairwise fun c d => ¬ (c ⊆ d ∧ d ⊆ c)) : cs.length ≤ 3 ^ atoms.length := by
  have hsubset : ∀ c ∈ cs, ∀ d ∈ cs,
      (∀ k : Fin atoms.length, signIn c (atoms.get k) = signIn d (atoms.get k)) → c ⊆ d := by
    intro c hc d hd heq l hl
    obtain ⟨k, hk⟩ := List.get_of_mem (hatoms c hc l hl)
    rw [mem_iff_signIn_eq (htautology d hd), ← hk, ← heq k, hk]
    exact (mem_iff_signIn_eq (htautology c hc) l).mp hl
  have hnodup : (cs.map fun c (k : Fin atoms.length) => signIn c (atoms.get k)).Nodup := by
    refine List.pairwise_map.mpr (hdistinct.imp_of_mem fun hc hd hcd heq => hcd ⟨?_, ?_⟩)
    · exact hsubset _ hc _ hd fun k => congrFun heq k
    · exact hsubset _ hd _ hc fun k => congrFun heq.symm k
  calc cs.length
      = (cs.map fun c (k : Fin atoms.length) => signIn c (atoms.get k)).length := by
        rw [List.length_map]
    _ ≤ Fintype.card (Fin atoms.length → Option Bool) := hnodup.length_le_card
    _ = 3 ^ atoms.length := by
        rw [Fintype.card_fun, Fintype.card_option, Fintype.card_bool, Fintype.card_fin]

/-! ## Clauses without variables -/

/-- Replacing variables does nothing to a literal without variables. -/
lemma Literal.subst_of_ground {l : Literal} (h : l.vars = []) (σ : String → Term) :
    l.subst σ = l :=
  subst_eq_self fun _ hv => absurd (h ▸ hv) List.not_mem_nil

namespace Clause

/-- A clause has no variables when its literals have none. -/
lemma vars_eq_nil_iff {c : Clause} : c.vars = [] ↔ ∀ l ∈ c.literals, l.vars = [] :=
  List.flatMap_eq_nil_iff

/-- Renaming apart does nothing to a clause without variables. -/
lemma literals_renameApart_of_ground {c : Clause} (h : c.vars = []) (number : ℕ) (other : Clause) :
    (c.renameApart number other).literals = c.literals := by
  have hrename : c.literals.map (Literal.rename (c.apartRenaming number other)) =
      c.literals.map fun l => l :=
    List.map_congr_left fun l hl => Literal.subst_of_ground (vars_eq_nil_iff.mp h l hl) _
  rw [renameApart, hrename, List.map_id']

/-- A clause without variables that subsumes another has its literals among those of the other. -/
lemma subset_of_subsumesIn_of_ground {mode : SubsumptionMode} {c d : Clause} (hc : c.vars = [])
    (h : c.subsumesIn mode d = true) : c.literals ⊆ d.literals := by
  obtain ⟨σ, hσ⟩ := exists_subset_of_subsumesIn h
  intro l hl
  have hmem := hσ l hl
  rwa [Literal.subst_of_ground (vars_eq_nil_iff.mp hc l hl)] at hmem

end Clause

/-- Removing one place of a list without repetitions removes that member. -/
lemma mem_and_ne_of_mem_eraseIdx {α : Type} {l : List α} {i : ℕ} {a b : α} (hl : l.Nodup)
    (hi : l[i]? = some a) (hb : b ∈ l.eraseIdx i) : b ∈ l ∧ b ≠ a := by
  obtain ⟨j, hji, hj⟩ := List.mem_eraseIdx_iff_getElem?.mp hb
  refine ⟨List.mem_of_getElem? hj, ?_⟩
  rintro rfl
  exact hji ((List.getElem?_inj (List.getElem?_eq_some_iff.mp hj).1 hl).mp (hj.trans hi.symm))

/-- Equal lists of terms are unified without a binding. -/
lemma unify_self (ts : List Term) : unify ts ts = .ok .empty := by
  rw [unify, if_neg (Decidable.not_not.mpr rfl)]
  refine Equations.solve_of_forall_eq (fun e he => ?_) _
  obtain ⟨i, hi⟩ := List.mem_iff_getElem?.mp he
  obtain ⟨h1, h2⟩ := List.getElem?_zip_eq_some.mp hi
  exact Option.some.inj (h1.symm.trans h2)

namespace ParentPair

variable {p : ParentPair}

/-- The literals of the resolvents of clauses without variables are literals of the clauses. -/
lemma mem_of_mem_resolvents_of_ground (hleft : p.left.vars = []) (hright : p.right.vars = [])
    {step : ℕ} {r : Resolvent} (hr : r ∈ p.resolvents step) {l : Literal}
    (hl : l ∈ r.clause.literals) : l ∈ p.left.literals ∨ l ∈ p.right.literals := by
  obtain ⟨i, j, a, b, unifier, -, rfl⟩ := mem_resolvents_iff.mp hr
  obtain ⟨m, hm, rfl⟩ := List.mem_map.mp (Clause.mem_literals_ofLiterals.mp hl)
  rw [apart, Clause.literals_renameApart_of_ground hright] at hm
  rcases List.mem_append.mp hm with hm | hm
  · have hmem := List.mem_of_mem_eraseIdx hm
    rw [Substitution.applyLiteral, Literal.subst_of_ground (Clause.vars_eq_nil_iff.mp hleft m hmem)]
    exact Or.inl hmem
  · have hmem := List.mem_of_mem_eraseIdx hm
    rw [Substitution.applyLiteral,
      Literal.subst_of_ground (Clause.vars_eq_nil_iff.mp hright m hmem)]
    exact Or.inr hmem

/-- Clauses without variables have a resolvent on every literal of the first whose complement is in
the second, which has none of these two any more. -/
lemma exists_mem_resolvents_of_ground (hleft : p.left.vars = []) (hright : p.right.vars = [])
    (hleft' : p.left.literals.Nodup) (hright' : p.right.literals.Nodup) {l : Literal}
    (hl : l ∈ p.left.literals) (hl' : l.complement ∈ p.right.literals) (step : ℕ) :
    ∃ r ∈ p.resolvents step, ∀ m ∈ r.clause.literals,
      m ∈ p.left.literals ∧ m ≠ l ∨ m ∈ p.right.literals ∧ m ≠ l.complement := by
  obtain ⟨i, hi⟩ := List.mem_iff_getElem?.mp hl
  obtain ⟨j, hj⟩ := List.mem_iff_getElem?.mp hl'
  have hapart : p.apart.literals = p.right.literals :=
    Clause.literals_renameApart_of_ground hright _ _
  have hopposes : l.opposes l.complement = true := by
    simp [Literal.opposes, Literal.complement]
  refine ⟨_, mem_resolvents_iff.mpr ⟨i, j, l, l.complement, .empty,
    ⟨hi, hapart ▸ hj, hopposes, unify_self l.args⟩, rfl⟩, fun m hm => ?_⟩
  obtain ⟨x, hx, rfl⟩ := List.mem_map.mp (Clause.mem_literals_ofLiterals.mp hm)
  rw [hapart] at hx
  rcases List.mem_append.mp hx with hx | hx
  · obtain ⟨hmem, hne⟩ := mem_and_ne_of_mem_eraseIdx hleft' hi hx
    rw [Substitution.applyLiteral, Literal.subst_of_ground (Clause.vars_eq_nil_iff.mp hleft x hmem)]
    exact Or.inl ⟨hmem, hne⟩
  · obtain ⟨hmem, hne⟩ := mem_and_ne_of_mem_eraseIdx hright' hj hx
    rw [Substitution.applyLiteral,
      Literal.subst_of_ground (Clause.vars_eq_nil_iff.mp hright x hmem)]
    exact Or.inr ⟨hmem, hne⟩

end ParentPair

end Clausal
