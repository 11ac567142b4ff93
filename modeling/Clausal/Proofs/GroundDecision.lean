import Clausal.Proofs.GroundClauses
import Clausal.Proofs.Refutation
import Clausal.Proofs.Saturation

/-!
# Ground formulas are decided

On formulas without quantifiers and variables an attempt is a decision procedure, if its ceilings
are high enough.  The clauses that a search registers have no variables and no atoms but those of
the clauses it starts with.  Each step but the last adds a clause, and no two of the added clauses
have the same literals, so that with `a` atoms there are at most `3 ^ a` of them.  Hence the search
ends below its ceilings.  If it ends with saturated clauses, these are closed under resolution and
have a model, and this makes the formulas true.  If it ends with a refutation, no truth assignment
makes them true.
-/

namespace Clausal

/-! ## Truth assignments -/

namespace Formula

/-- Whether a formula has neither quantifiers nor variables. -/
def isGround : Formula → Bool
  | .atom l => l.vars.isEmpty
  | .not f => f.isGround
  | .and f g => f.isGround && g.isGround
  | .or f g => f.isGround && g.isGround
  | .implies f g => f.isGround && g.isGround
  | .quantified _ _ _ => false

/-- The truth value of a formula under a truth assignment; quantifiers are passed over. -/
def valueUnder (v : Atom → Bool) : Formula → Bool
  | .atom l => v l.atom == l.positive
  | .not f => !f.valueUnder v
  | .and f g => f.valueUnder v && g.valueUnder v
  | .or f g => f.valueUnder v || g.valueUnder v
  | .implies f g => !f.valueUnder v || g.valueUnder v
  | .quantified _ _ f => f.valueUnder v

variable {f : Formula}

/-- A ground formula has no quantifiers. -/
lemma boundVars_of_isGround (h : f.isGround = true) : f.boundVars = [] := by
  induction f with
  | atom l => rfl
  | not f ih => exact ih h
  | and f g ihf ihg | or f g ihf ihg | implies f g ihf ihg =>
    obtain ⟨hf, hg⟩ := Bool.and_eq_true_iff.mp h
    rw [boundVars, ihf hf, ihg hg, List.append_nil]
  | quantified q v f ih => cases h

/-- A ground formula has no free variables. -/
lemma isClosed_of_isGround (h : f.isGround = true) : f.IsClosed := by
  rw [IsClosed]
  induction f with
  | atom l => exact List.isEmpty_iff.mp h
  | not f ih => exact ih h
  | and f g ihf ihg | or f g ihf ihg | implies f g ihf ihg =>
    obtain ⟨hf, hg⟩ := Bool.and_eq_true_iff.mp h
    rw [freeVars, ihf hf, ihg hg, List.append_nil]
  | quantified q v f ih => cases h

end Formula

/-- The structure of all terms, each naming itself, in which atoms have the given truth values. -/
def termStructure (v : Atom → Bool) : Structure Term where
  const := .const
  fn := .app
  pred predicate args := v (predicate, args) = true

/-- A literal is true in the structure of terms exactly when the instance of it that the assignment
gives is true under the truth assignment. -/
lemma Literal.holds_termStructure_iff (l : Literal) (v : Atom → Bool) (ε : String → Term) :
    l.Holds (termStructure v) ε ↔ (l.subst ε).TrueUnder v := by
  rw [Holds, TrueUnder]
  change (if l.positive then v (l.subst ε).atom = true else ¬ v (l.subst ε).atom = true) ↔
    v (l.subst ε).atom = l.positive
  cases l.positive with
  | true => exact Iff.rfl
  | false => exact Bool.not_eq_true _ ▸ Iff.rfl

/-- A literal without variables is true in the structure of terms exactly when it is true under the
truth assignment. -/
lemma Literal.holds_termStructure {l : Literal} (h : l.vars = []) (v : Atom → Bool)
    (ε : String → Term) : l.Holds (termStructure v) ε ↔ l.TrueUnder v := by
  rw [holds_termStructure_iff, subst_of_ground h]

/-- A clause without variables that has a literal which is true under the truth assignment is true
in the structure of terms. -/
lemma Clause.valid_termStructure {c : Clause} (h : c.vars = []) {v : Atom → Bool}
    (htrue : ∃ l ∈ c.literals, l.TrueUnder v) : c.Valid (termStructure v) := by
  obtain ⟨l, hl, htrue⟩ := htrue
  intro ε
  exact ⟨l, hl, (Literal.holds_termStructure (vars_eq_nil_iff.mp h l hl) v ε).mpr htrue⟩

/-- A ground formula is true in the structure of terms exactly when it is true under the truth
assignment. -/
lemma Formula.holds_termStructure {f : Formula} (h : f.isGround = true) (v : Atom → Bool)
    (ε : String → Term) : f.Holds (termStructure v) ε ↔ f.valueUnder v = true := by
  induction f with
  | atom l =>
    rw [Holds, valueUnder, beq_iff_eq]
    exact Literal.holds_termStructure (List.isEmpty_iff.mp h) v ε
  | not f ih => rw [Holds, valueUnder, ih h, Bool.not_eq_true', Bool.not_eq_true]
  | and f g ihf ihg =>
    obtain ⟨hf, hg⟩ := Bool.and_eq_true_iff.mp h
    rw [Holds, valueUnder, ihf hf, ihg hg, Bool.and_eq_true]
  | or f g ihf ihg =>
    obtain ⟨hf, hg⟩ := Bool.and_eq_true_iff.mp h
    rw [Holds, valueUnder, ihf hf, ihg hg, Bool.or_eq_true]
  | implies f g ihf ihg =>
    obtain ⟨hf, hg⟩ := Bool.and_eq_true_iff.mp h
    rw [Holds, valueUnder, ihf hf, ihg hg, Bool.or_eq_true, Bool.not_eq_true', imp_iff_not_or,
      Bool.not_eq_true]
  | quantified q v f ih => cases h

/-! ## Saturated clauses without variables -/

/-- Saturated clauses without variables are closed under resolution. -/
lemma Search.Saturated.closedUnderResolution {s : Search} {tried : List ParentPair}
    (h : s.Saturated tried) (hground : ∀ c ∈ s.registry.clauses.toList, c.vars = [])
    (hnodup : ∀ c ∈ s.registry.clauses.toList, c.literals.Nodup) :
    ClosedUnderResolution (s.registry.clauses.toList.map Clause.literals) := by
  -- the resolvent of two clauses on a literal, whichever of the two has the lower number
  have key : ∀ p : ParentPair, p.leftId < p.rightId → s.registry.get? p.leftId = some p.left →
      s.registry.get? p.rightId = some p.right → ∀ l ∈ p.left.literals,
      l.complement ∈ p.right.literals → ∃ r : List Literal,
        (∀ m ∈ r, m ∈ p.left.literals ∧ m ≠ l ∨ m ∈ p.right.literals ∧ m ≠ l.complement) ∧
        ((∃ m ∈ r, m.complement ∈ r) ∨
          ∃ e ∈ s.registry.clauses.toList.map Clause.literals, e ⊆ r) := by
    intro p hlt hleft hright l hl hl'
    have hleft' := Array.mem_toList_iff.mpr (Array.mem_of_getElem? hleft)
    have hright' := Array.mem_toList_iff.mpr (Array.mem_of_getElem? hright)
    obtain ⟨r, hr, hliterals⟩ := ParentPair.exists_mem_resolvents_of_ground (hground _ hleft')
      (hground _ hright') (hnodup _ hleft') (hnodup _ hright') hl hl' 0
    refine ⟨r.clause.literals, hliterals, ?_⟩
    have hdone := h.pairsDone p hlt (Array.getElem?_eq_some_iff.mp hright).1 hleft hright
    rcases hdone.2 0 r hr with htautology | ⟨e, he, hsubsumes⟩
    · exact Or.inl (Clause.isTautology_iff.mp htautology)
    · exact Or.inr ⟨e.literals, List.mem_map_of_mem he,
        Clause.subset_of_subsumesIn_of_ground (hground e he) hsubsumes⟩
  intro c hc d hd l hl hl' hld
  obtain ⟨c, hcmem, rfl⟩ := List.mem_map.mp hc
  obtain ⟨d, hdmem, rfl⟩ := List.mem_map.mp hd
  obtain ⟨i, hi⟩ := List.mem_iff_getElem?.mp hcmem
  obtain ⟨j, hj⟩ := List.mem_iff_getElem?.mp hdmem
  rw [Array.getElem?_toList] at hi hj
  rcases Nat.lt_trichotomy i j with hij | rfl | hji
  · exact key ⟨i, c, j, d⟩ hij hi hj l hl hl'
  · obtain rfl := Option.some.inj (hi.symm.trans hj)
    exact absurd hl hld
  · obtain ⟨r, hr, hredundant⟩ := key ⟨j, d, i, c⟩ hji hj hi l.complement hl'
      (l.complement_complement.symm ▸ hl)
    refine ⟨r, fun m hm => ?_, hredundant⟩
    have hcases := (hr m hm).symm
    rwa [l.complement_complement] at hcases

/-! ## The run of a search on clauses without variables -/

/-- The distinct atoms of the clauses registered. -/
def Registry.atoms (r : Registry) : List Atom :=
  ((r.clauses.toList.flatMap Clause.literals).map Literal.atom).eraseDups

/-- A clause has no variables, each of its literals once, and no atoms but the given ones. -/
structure Clause.IsGroundOver (atoms : List Atom) (c : Clause) : Prop where
  vars_eq_nil : c.vars = []
  nodup : c.literals.Nodup
  atom_mem : ∀ l ∈ c.literals, l.atom ∈ atoms

/-- Resolving keeps clauses ground over the given atoms, whatever number the resolvent gets. -/
lemma Clause.IsGroundOver.resolvent {atoms : List Atom} {p : ParentPair}
    (hleft : p.left.IsGroundOver atoms) (hright : p.right.IsGroundOver atoms) {step : ℕ}
    {r : Resolvent} (hr : r ∈ p.resolvents step) (id : Option ℕ) :
    Clause.IsGroundOver atoms { r.clause with id := id } where
  vars_eq_nil := by
    refine Clause.vars_eq_nil_iff.mpr fun l hl => ?_
    rcases ParentPair.mem_of_mem_resolvents_of_ground hleft.vars_eq_nil hright.vars_eq_nil hr hl
      with hl | hl
    · exact Clause.vars_eq_nil_iff.mp hleft.vars_eq_nil l hl
    · exact Clause.vars_eq_nil_iff.mp hright.vars_eq_nil l hl
  nodup := ParentPair.nodup_of_mem_resolvents hr
  atom_mem l hl := by
    rcases ParentPair.mem_of_mem_resolvents_of_ground hleft.vars_eq_nil hright.vars_eq_nil hr hl
      with hl | hl
    · exact hleft.atom_mem l hl
    · exact hright.atom_mem l hl

namespace Search

/-- What holds during the run of a search on clauses without variables: the clauses are ground over
the atoms of the first clauses, what is added to them is not redundant, and each step adds
something. -/
structure GroundRun (start s : Search) : Prop where
  settings_eq : s.settings = start.settings
  isPartOf : start.registry.IsPartOf s.registry
  isGroundOver : ∀ c ∈ s.registry.clauses.toList, c.IsGroundOver start.registry.atoms
  irredundant : s.registry.IrredundantFrom start.settings.subsumption start.registry.size
  stepsMade_le : start.registry.size + s.stepsMade ≤ s.registry.size
  tracks : ∃ tried, s.Tracks tried

variable {start s t : Search}

/-- These hold at the start. -/
lemma groundRun_start (hvars : ∀ c ∈ s.registry.clauses.toList, c.vars = [])
    (hnodup : ∀ c ∈ s.registry.clauses.toList, c.literals.Nodup) (hsteps : s.stepsMade = 0)
    (htracks : s.Tracks []) : GroundRun s s where
  settings_eq := rfl
  isPartOf := Registry.IsPartOf.refl _
  isGroundOver c hc := by
    refine ⟨hvars c hc, hnodup c hc, fun l hl => List.mem_eraseDups.mpr ?_⟩
    exact List.mem_map_of_mem (List.mem_flatMap.mpr ⟨c, hc, hl⟩)
  irredundant := by
    have hdrop : s.registry.clauses.toList.drop s.registry.size = [] := List.drop_length
    refine ⟨Nat.le_refl _, ?_, ?_⟩
    · rw [hdrop]
      exact fun c hc => absurd hc List.not_mem_nil
    · rw [hdrop]
      exact List.Pairwise.nil
  stepsMade_le := by rw [hsteps, Nat.add_zero]
  tracks := ⟨[], htracks⟩

/-- A step that does not end the search keeps them. -/
lemma GroundRun.step (h : GroundRun start s) (hstep : Outcome s t none) : GroundRun start t := by
  obtain ⟨tried, htracks⟩ := h.tracks
  obtain ⟨hsettings, htracks', -⟩ := htracks.step hstep
  cases hstep with
  | progress hs hsize =>
    refine ⟨hsettings.trans h.settings_eq, h.isPartOf.trans s.isPartOf_round, ?_, ?_, ?_,
      ⟨_, htracks'⟩⟩
    · exact forall_mem_round h.isGroundOver fun p step id hleft hright res hres =>
        (h.isGroundOver _ hleft).resolvent (h.isGroundOver _ hright) hres (some id)
    · have hirredundant := h.irredundant
      rw [← h.settings_eq] at hirredundant ⊢
      exact irredundantFrom_round hirredundant
    · have hle := h.stepsMade_le
      have hgrows := s.isPartOf_round.size_le
      have hcounted : s.counted.round.stepsMade = s.stepsMade + 1 := rfl
      omega

/-- At most `3 ^ a` clauses are added to clauses with `a` atoms. -/
lemma GroundRun.size_le (h : GroundRun start s) :
    s.registry.size ≤ start.registry.size + 3 ^ start.registry.atoms.length := by
  let added := s.registry.clauses.toList.drop start.registry.size
  have hadded : ∀ c ∈ added, c.IsGroundOver start.registry.atoms :=
    fun c hc => h.isGroundOver c (List.mem_of_mem_drop hc)
  have hcount : (added.map Clause.literals).length ≤ 3 ^ start.registry.atoms.length := by
    refine length_le_three_pow ?_ ?_ ?_
    · rw [List.forall_mem_map]
      exact fun c hc => (hadded c hc).atom_mem
    · rw [List.forall_mem_map]
      intro c hc hpair
      have hfalse := h.irredundant.noTautology c hc
      rw [Clause.isTautology_iff.mpr hpair] at hfalse
      cases hfalse
    · refine List.pairwise_map.mpr
        (h.irredundant.pairwise.imp_of_mem fun hc hd hsubsumes hsame => ?_)
      rw [Clause.subsumesIn_of_subset _ (hadded _ hc).nodup (hadded _ hd).nodup hsame.1 hsame.2]
        at hsubsumes
      cases hsubsumes
  have hlength : added.length = s.registry.size - start.registry.size := List.length_drop
  rw [List.length_map, hlength] at hcount
  omega

/-- If the clauses come out saturated, the first clauses are true under some truth assignment. -/
lemma GroundRun.exists_trueUnder (h : GroundRun start s) {tried : List ParentPair}
    (ht : t.Saturated tried) (hclauses : t.registry.clauses = s.registry.clauses) :
    ∃ v, ∀ c ∈ start.registry.clauses.toList, ∃ l ∈ c.literals, l.TrueUnder v := by
  have hground : ∀ c ∈ t.registry.clauses.toList, c.IsGroundOver start.registry.atoms := by
    rw [hclauses]
    exact h.isGroundOver
  have hclosed := ht.closedUnderResolution (fun c hc => (hground c hc).vars_eq_nil)
    (fun c hc => (hground c hc).nodup)
  have hempty : [] ∉ t.registry.clauses.toList.map Clause.literals := by
    intro hmem
    obtain ⟨c, hc, hliterals⟩ := List.mem_map.mp hmem
    exact ht.noEmpty ⟨c, hc, List.isEmpty_iff.mpr hliterals⟩
  obtain ⟨v, hv⟩ := hclosed.exists_trueUnder hempty
  refine ⟨v, fun c hc => hv c.literals (List.mem_map_of_mem ?_)⟩
  rw [hclauses]
  exact List.IsPrefix.subset h.isPartOf hc

/-- A search on clauses without variables whose ceilings are high enough comes to a refutation, or
it comes to the verdict that the clauses are not refuted, and they are true under some truth
assignment. -/
lemma GroundRun.run_cases (h : GroundRun s s)
    (hclauses : s.registry.size + 3 ^ s.registry.atoms.length < s.settings.maxClauses)
    (hsteps : 3 ^ s.registry.atoms.length < s.settings.maxSteps) :
    s.run.2 = .refuted ∨ s.run.2 = .notRefuted ∧
      ∃ v, ∀ c ∈ s.registry.clauses.toList, ∃ l ∈ c.literals, l.TrueUnder v := by
  obtain ⟨t, ht, hlast⟩ := exists_outcome_run h fun a b ha hstep => ha.step hstep
  -- the ceilings are not reached before the last step
  have hresolves : ¬ t.registry.HasEmpty → t.CanResolve := by
    intro hempty
    have hsize := ht.size_le
    have hmade := ht.stepsMade_le
    refine ⟨hempty, ?_, ?_⟩ <;> rw [ht.settings_eq] <;> omega
  obtain ⟨tried, htracks⟩ := ht.tracks
  have hsaturated := (htracks.step hlast).2.2
  generalize s.run = result at hlast hsaturated ⊢
  obtain ⟨last, verdict⟩ := result
  cases hlast with
  | contradiction => exact Or.inl rfl
  | ceiling _ hempty hfull => exact absurd (hresolves hempty) hfull
  | saturated e _ hsize =>
    exact Or.inr ⟨rfl, ht.exists_trueUnder (hsaturated rfl) (t.isPartOf_round.clauses_eq hsize)⟩

end Search

/-! ## Attempts at ground formulas -/

/-- Attempts at ground formulas are decided.  Let the search start with `n` clauses that have `a`
atoms.  If the ceiling on clauses is above `n + 3 ^ a` and that on steps above `3 ^ a`, then the
attempt comes to the verdict that the formulas are refuted or that they are not, and it comes to the
latter exactly when some truth assignment makes all formulas true. -/
theorem outcome_of_isGround {inputs : List (String × Origin)} {fs : List Formula}
    (hread : readFormulas? (inputs.map Prod.fst) = some fs) (hground : ∀ f ∈ fs, f.isGround = true)
    (hne : fs ≠ []) (settings : Settings) :
    ∃ i s, (Attempt.new settings).addAll inputs = .ok (.collecting i) ∧ i.start = .ok s ∧
      (s.registry.size + 3 ^ s.registry.atoms.length < settings.maxClauses →
        3 ^ s.registry.atoms.length < settings.maxSteps →
        ∃ verdict log, Attempt.outcome settings inputs = .ok (verdict, log) ∧
          (verdict = .refuted ∨ verdict = .notRefuted) ∧
          (verdict = .notRefuted ↔ ∃ v, ∀ f ∈ fs, f.valueUnder v = true)) := by
  have hclosed : ∀ f ∈ fs, f.IsClosed := fun f hf => Formula.isClosed_of_isGround (hground f hf)
  obtain ⟨i, s, hadd, hstart, hs⟩ := exists_startsFrom.{0} hread hclosed hne settings
  refine ⟨i, s, hadd, hstart, fun hclauses hsteps =>
    ⟨s.run.2, _, Attempt.outcome_of_start hadd hstart, ?_⟩⟩
  have hvars := hs.vars_eq_nil fun f hf => Formula.boundVars_of_isGround (hground f hf)
  obtain ⟨cs, hinitial⟩ := Intake.exists_eq_initial_of_start hstart
  have hrun := Search.groundRun_start hvars hs.nodup hs.stepsMade_eq
    (hinitial ▸ Search.tracks_initial _ cs)
  rw [← hs.settings_eq] at hclauses hsteps
  have hcases := hrun.run_cases hclauses hsteps
  refine ⟨hcases.imp_right And.left, fun hverdict => ?_, ?_⟩
  · -- a truth assignment for the clauses makes the formulas true in the structure of terms
    rcases hcases with hrefuted | ⟨-, v, hv⟩
    · rw [hrefuted] at hverdict
      cases hverdict
    · have hvalid : ∀ c ∈ s.registry.clauses.toList, c.Valid (termStructure v) := fun c hc =>
        Clause.valid_termStructure (hvars c hc) (hv c hc)
      refine ⟨v, fun f hf => ?_⟩
      exact (Formula.holds_termStructure (hground f hf) v .var).mp
        (hs.holds_of_valid (termStructure v) hvalid f hf .var)
  · -- a truth assignment for the formulas gives a structure in which the clauses are true
    rintro ⟨v, hv⟩
    obtain ⟨N, hvalid⟩ := hs.exists_valid (termStructure v) fun f hf ε =>
      (Formula.holds_termStructure (hground f hf) v ε).mpr (hv f hf)
    rcases hcases with hrefuted | ⟨hverdict, -⟩
    · exact (Search.isEmpty_of_run_refuted hvalid hrefuted).elim (.var "")
    · exact hverdict

/-- The ceilings of the standard settings are high enough for `P ∨ Q` and `¬P`, so the attempt at
them is decided. -/
theorem outcome_orPQ_notP :
    readFormulas? ([("P ∨ Q", Origin.input), ("¬P", .input)].map Prod.fst) = some [orPQ, notP] ∧
      ∃ verdict log, Attempt.outcome .standard [("P ∨ Q", .input), ("¬P", .input)] =
          .ok (verdict, log) ∧ (verdict = .refuted ∨ verdict = .notRefuted) ∧
        (verdict = .notRefuted ↔ ∃ v, ∀ f ∈ [orPQ, notP], f.valueUnder v = true) := by
  have hread : readFormulas? ([("P ∨ Q", Origin.input), ("¬P", .input)].map Prod.fst) =
      some [orPQ, notP] := by
    rw [List.map_cons, readFormulas?, List.map_singleton, readFormulas?, readFormula?_orPQ,
      readFormula?_notP]
    rfl
  refine ⟨hread, ?_⟩
  obtain ⟨i, s, hadd, hstart, hdecided⟩ :=
    outcome_of_isGround hread (by decide) (List.cons_ne_nil _ _) .standard
  obtain rfl : intakePQ = i :=
    Attempt.collecting.inj (Except.ok.inj (addAll_intakePQ.symm.trans hadd))
  obtain rfl : searchPQ = s := Except.ok.inj ((Intake.start_eq clausesFrom_intakePQ
    (List.cons_ne_nil _ _)).symm.trans hstart)
  exact hdecided (by decide) (by decide)

end Clausal
