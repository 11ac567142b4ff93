import Clausal.Proofs.Unification
import Clausal.Redundancy

/-!
# Matching with a trail

A match, also one that fails halfway, only puts new bindings behind those that it finds.  So
dropping what lies behind the old bindings gives them back.

Hence literals can be placed on distinct targets with one trail, which holds the bindings made and a
mark for each target in use.  A literal is tried on one target after the other.  If it matches a
target that is free, the target is marked while the literals after it are placed.  When the trial
fails, the mark is taken away and the bindings are cut back to their old number.  A search that
fails has undone all that it did, and so each trial begins with the same trail.  Therefore the
search finds places exactly if the literals can be matched, one after the other, against distinct
targets that are free.
-/

namespace Clausal

namespace Substitution

variable {s s' s'' : Substitution} {v : String} {vs ws vs' ws' : List String}

/-! ## Bindings behind others -/

/-- Bindings have others behind them, of variables in `vs` that were not bound before, to terms with
variables in `ws`. -/
def IsExtendedBy (s s' : Substitution) (vs ws : List String) : Prop :=
  ∃ added, s'.bindings = s.bindings ++ added ∧
    ∀ b ∈ added, b.1 ∈ vs ∧ s.get? b.1 = none ∧ b.2.vars ⊆ ws

lemma IsExtendedBy.refl (s : Substitution) (vs ws : List String) : s.IsExtendedBy s vs ws :=
  ⟨[], (List.append_nil _).symm, fun _ hb => absurd hb List.not_mem_nil⟩

lemma IsExtendedBy.mono (h : s.IsExtendedBy s' vs ws) (hvs : vs ⊆ vs') (hws : ws ⊆ ws') :
    s.IsExtendedBy s' vs' ws' := by
  obtain ⟨added, hadded, hb⟩ := h
  refine ⟨added, hadded, fun b hmem => ?_⟩
  obtain ⟨hvar, hget, hterm⟩ := hb b hmem
  exact ⟨hvs hvar, hget, List.Subset.trans hterm hws⟩

/-- What is not bound by more bindings is not bound by fewer. -/
lemma IsExtendedBy.get?_eq_none (h : s.IsExtendedBy s' vs ws) (hv : s'.get? v = none) :
    s.get? v = none := by
  obtain ⟨added, hadded, -⟩ := h
  rw [get?, hadded, List.lookup_append, Option.or_eq_none_iff] at hv
  exact hv.1

lemma IsExtendedBy.trans (h : s.IsExtendedBy s' vs ws) (h' : s'.IsExtendedBy s'' vs ws) :
    s.IsExtendedBy s'' vs ws := by
  have hnone : ∀ v, s'.get? v = none → s.get? v = none := fun v => h.get?_eq_none
  obtain ⟨added, hadded, hb⟩ := h
  obtain ⟨added', hadded', hb'⟩ := h'
  refine ⟨added ++ added', by rw [hadded', hadded, List.append_assoc], fun b hmem => ?_⟩
  rcases List.mem_append.mp hmem with hmem | hmem
  · exact hb b hmem
  · obtain ⟨hvar, hget, hterm⟩ := hb' b hmem
    exact ⟨hvar, hnone _ hget, hterm⟩

/-- Binding a new variable puts its binding behind the others. -/
lemma isExtendedBy_bind (h : s.get? v = none) (t : Term) :
    s.IsExtendedBy (s.bind v t) [v] t.vars := by
  have hne : ∀ b ∈ s.bindings, b.1 ≠ v := by
    rintro b hb rfl
    have hbne := List.lookup_eq_none_iff.mp h b hb
    rw [bne_self_eq_false] at hbne
    cases hbne
  refine ⟨[(v, t)], bindings_bind_of_notMem t hne, fun b hb => ?_⟩
  obtain rfl := List.mem_singleton.mp hb
  exact ⟨List.mem_cons_self, h, List.Subset.refl _⟩

/-- Dropping what was put behind the bindings gives them back. -/
lemma IsExtendedBy.truncate (h : s.IsExtendedBy s' vs ws) : s'.truncate s.size = s := by
  obtain ⟨added, hadded, -⟩ := h
  rw [Substitution.truncate, hadded, size, List.take_left]

end Substitution

/-! ## What a match leaves behind -/

open Substitution

/-- Matching terms one by one puts bindings behind the old ones, provided that matching each of them
does. -/
lemma Term.isExtendedBy_matchListOnto {ps : List Term}
    (each : ∀ p ∈ ps, ∀ (t : Term) (s : Substitution),
      s.IsExtendedBy (p.matchOnto t s).bindings p.vars t.vars) (ts : List Term) (s : Substitution) :
    s.IsExtendedBy (matchListOnto ps ts s).bindings (ps.flatMap vars) (ts.flatMap vars) := by
  induction ps generalizing ts s with
  | nil =>
    rw [matchListOnto]
    · exact .refl s _ _
    · simp
  | cons p ps ih =>
    cases ts with
    | nil =>
      rw [matchListOnto]
      · exact .refl s _ _
      · simp
    | cons t ts =>
      have hfirst := (each p List.mem_cons_self t s).mono
        (List.subset_append_left p.vars (ps.flatMap vars))
        (List.subset_append_left t.vars (ts.flatMap vars))
      rw [matchListOnto, List.flatMap_cons, List.flatMap_cons]
      cases hr : p.matchOnto t s with
      | failure cause r =>
        rw [hr] at hfirst
        exact hfirst
      | success r =>
        rw [hr] at hfirst
        have hrest := ih (fun q hq => each q (List.mem_cons_of_mem _ hq)) ts r
        exact hfirst.trans
          (hrest.mono (List.subset_append_right _ _) (List.subset_append_right _ _))

/-- Matching a term puts bindings behind the old ones, whether it succeeds or fails. -/
lemma Term.isExtendedBy_matchOnto (p t : Term) (s : Substitution) :
    s.IsExtendedBy (p.matchOnto t s).bindings p.vars t.vars := by
  induction p generalizing t s with
  | var v =>
    rw [matchOnto]
    split
    · rename_i hget
      exact isExtendedBy_bind hget t
    · split <;> exact .refl s _ _
  | const c =>
    cases t with
    | const d =>
      rw [matchOnto]
      split <;> exact .refl s _ _
    | var | app =>
      rw [matchOnto]
      · exact .refl s _ _
      · simp
  | app f ps ih =>
    cases t with
    | app g ts =>
      rw [matchOnto, vars_app, vars_app]
      split
      · exact .refl s _ _
      · split
        · exact .refl s _ _
        · exact isExtendedBy_matchListOnto ih ts s
    | var | const =>
      rw [matchOnto]
      · exact .refl s _ _
      · simp

/-- Matching a literal puts bindings behind the old ones, whether it succeeds or fails. -/
lemma Literal.isExtendedBy_matchOnto (p l : Literal) (s : Substitution) :
    s.IsExtendedBy (p.matchOnto l s).bindings p.vars l.vars := by
  unfold matchOnto
  split
  · exact .refl s _ _
  · split
    · exact .refl s _ _
    · exact Term.isExtendedBy_matchListOnto (fun q _ => q.isExtendedBy_matchOnto) l.args s

/-- Only literals of the same sign match. -/
lemma Literal.positive_eq_of_matchOnto {l target : Literal} {s s' : Substitution}
    (h : l.matchOnto target s = .success s') : target.positive = l.positive := by
  unfold matchOnto at h
  split at h
  · cases h
  · rename_i hhead
    exact (Decidable.not_not.mp (not_or.mp hhead).1).symm

/-! ## Placing literals on targets -/

/-- The bindings made in a search for places and, for each target, whether it is in use. -/
structure Trail where
  bindings : Substitution
  used : List Bool
deriving DecidableEq, Repr

namespace Trail

/-- Tries to place a literal on the target with number `i`, if this is free, where `next` places the
literals after it.  What a trial that fails has done is undone. -/
def tryTarget (next : Trail → Bool × Trail) (l target : Literal) (i : ℕ) (trail : Trail) :
    Bool × Trail :=
  if trail.used[i]? = some false ∧ target.positive = l.positive then
    let mark := trail.bindings.size
    match l.matchOnto target trail.bindings with
    | .success s =>
        match next { bindings := s, used := trail.used.set i true } with
        | (true, found) => (true, found)
        | (false, left) =>
            (false, { bindings := left.bindings.truncate mark, used := left.used.set i false })
    | .failure _ s => (false, { trail with bindings := s.truncate mark })
  else (false, trail)

/-- Tries targets, of which the first has the number `i`, one after the other. -/
def tryTargets (next : Trail → Bool × Trail) (l : Literal) :
    (targets : List Literal) → (i : ℕ) → Trail → Bool × Trail
  | [], _, trail => (false, trail)
  | target :: targets, i, trail =>
      match tryTarget next l target i trail with
      | (true, found) => (true, found)
      | (false, left) => tryTargets next l targets (i + 1) left

/-- Places literals, one after the other, on targets that are free. -/
def place (targets : List Literal) : List Literal → Trail → Bool × Trail
  | [], trail => (true, trail)
  | l :: ls, trail => tryTargets (place targets ls) l targets 0 trail

/-- The targets that are free. -/
def free : (targets : List Literal) → (used : List Bool) → List Literal
  | target :: targets, false :: used => target :: free targets used
  | _ :: targets, true :: used => free targets used
  | _, _ => []

/-- A free target with the other free ones is a target with those that are free when it is in
use. -/
lemma mem_selections_free {targets : List Literal} {used : List Bool} {l : Literal}
    {others : List Literal} :
    (l, others) ∈ Clause.selections (free targets used) ↔
      ∃ j, targets[j]? = some l ∧ used[j]? = some false ∧
        others = free targets (used.set j true) := by
  induction targets generalizing used others with
  | nil => simp [free, Clause.selections]
  | cons target targets ih =>
    cases used with
    | nil => simp [free, Clause.selections]
    | cons u used =>
      rw [← Nat.or_exists_add_one]
      cases u with
      | true => simp [free, ih]
      | false =>
        rw [free, Clause.selections, List.mem_cons, List.mem_map]
        constructor
        · rintro (h | ⟨⟨m, rest⟩, hm, h⟩)
          · obtain ⟨rfl, rfl⟩ := Prod.mk.inj h
            exact Or.inl ⟨rfl, rfl, rfl⟩
          · obtain ⟨rfl, rfl⟩ := Prod.mk.inj h
            obtain ⟨j, hj, hfree, rfl⟩ := ih.mp hm
            exact Or.inr ⟨j, hj, hfree, rfl⟩
        · rintro (⟨h, -, rfl⟩ | ⟨j, hj, hfree, rfl⟩)
          · obtain rfl := Option.some.inj h
            exact Or.inl rfl
          · exact Or.inr ⟨(l, _), ih.mpr ⟨j, hj, hfree, rfl⟩, rfl⟩

/-- A search that fails leaves the trail as it found it. -/
def UndoesFailure (search : Trail → Bool × Trail) : Prop :=
  ∀ trail, (search trail).1 = false → (search trail).2 = trail

/-- A target is free and matched by a literal, so that the literals after it can be placed. -/
def Fits (next : Trail → Bool × Trail) (l target : Literal) (i : ℕ) (trail : Trail) : Prop :=
  trail.used[i]? = some false ∧ ∃ s, l.matchOnto target trail.bindings = .success s ∧
    (next { bindings := s, used := trail.used.set i true }).1 = true

variable {next : Trail → Bool × Trail} {l target : Literal}

/-- A trial succeeds exactly if the target fits. -/
lemma tryTarget_eq_true_iff {i : ℕ} {trail : Trail} :
    (tryTarget next l target i trail).1 = true ↔ Fits next l target i trail := by
  unfold tryTarget Fits
  split
  · rename_i htry
    cases l.matchOnto target trail.bindings with
    | failure cause s => simp
    | success s =>
      rcases hresult : next { bindings := s, used := trail.used.set i true } with ⟨found, left⟩
      cases found <;> simp [htry.1, hresult]
  · rename_i htry
    refine iff_of_false Bool.false_ne_true ?_
    rintro ⟨hfree, s, hmatch, -⟩
    exact htry ⟨hfree, Literal.positive_eq_of_matchOnto hmatch⟩

/-- A trial that fails leaves the trail as it found it. -/
lemma undoesFailure_tryTarget (hnext : UndoesFailure next) (i : ℕ) :
    UndoesFailure (tryTarget next l target i) := by
  intro trail
  unfold tryTarget
  split
  · rename_i htry
    have hcut : (l.matchOnto target trail.bindings).bindings.truncate trail.bindings.size =
        trail.bindings := (l.isExtendedBy_matchOnto target trail.bindings).truncate
    cases hmatch : l.matchOnto target trail.bindings with
    | failure cause s =>
      rw [hmatch, MatchOutcome.bindings] at hcut
      simp only [hcut, implies_true]
    | success s =>
      rw [hmatch, MatchOutcome.bindings] at hcut
      have hundo := hnext { bindings := s, used := trail.used.set i true }
      rcases hresult : next { bindings := s, used := trail.used.set i true } with ⟨found, left⟩
      rw [hresult] at hundo
      cases found with
      | true => simp [hresult]
      | false =>
        -- the mark is the only change to the marks, and the target was free before
        obtain rfl := hundo rfl
        obtain ⟨hi, hfree⟩ := List.getElem?_eq_some_iff.mp htry.1
        have hused : (trail.used.set i true).set i false = trail.used := by
          rw [List.set_set, ← hfree, List.set_getElem_self]
        simp only [hresult, hcut, hused, implies_true]
  · exact fun _ => rfl

/-- A target that fits ends the trials. -/
lemma tryTargets_cons_of_fits {targets : List Literal} {i : ℕ} {trail : Trail}
    (h : Fits next l target i trail) :
    (tryTargets next l (target :: targets) i trail).1 = true := by
  have htrue := tryTarget_eq_true_iff.mpr h
  rw [tryTargets]
  split
  · rfl
  · rename_i left hresult
    rw [hresult] at htrue
    cases htrue

/-- A target that does not fit makes no difference. -/
lemma tryTargets_cons_of_not_fits (hnext : UndoesFailure next) {targets : List Literal} {i : ℕ}
    {trail : Trail} (h : ¬ Fits next l target i trail) :
    tryTargets next l (target :: targets) i trail = tryTargets next l targets (i + 1) trail := by
  have hfalse : (tryTarget next l target i trail).1 = false :=
    Bool.eq_false_iff.mpr fun htrue => h (tryTarget_eq_true_iff.mp htrue)
  have hresult : tryTarget next l target i trail = (false, trail) :=
    Prod.ext hfalse (undoesFailure_tryTarget hnext i trail hfalse)
  rw [tryTargets, hresult]

/-- Targets are tried with success exactly if one of them fits. -/
lemma tryTargets_eq_true_iff (hnext : UndoesFailure next) {targets : List Literal} {i : ℕ}
    {trail : Trail} : (tryTargets next l targets i trail).1 = true ↔
      ∃ j target, targets[j]? = some target ∧ Fits next l target (i + j) trail := by
  induction targets generalizing i with
  | nil => simp [tryTargets]
  | cons target targets ih =>
    by_cases hfits : Fits next l target i trail
    · exact iff_of_true (tryTargets_cons_of_fits hfits) ⟨0, target, rfl, hfits⟩
    · rw [tryTargets_cons_of_not_fits hnext hfits, ← Nat.or_exists_add_one, or_iff_right, ih]
      · refine exists_congr fun j => ?_
        rw [List.getElem?_cons_succ, Nat.add_right_comm i 1 j]
        rfl
      · rintro ⟨target', htarget, hfits'⟩
        obtain rfl := Option.some.inj htarget
        exact hfits hfits'

/-- If no target fits, the trail is as it was before. -/
lemma undoesFailure_tryTargets (hnext : UndoesFailure next) (targets : List Literal) (i : ℕ) :
    UndoesFailure (tryTargets next l targets i) := by
  intro trail h
  induction targets generalizing i with
  | nil => rfl
  | cons target targets ih =>
    by_cases hfits : Fits next l target i trail
    · rw [tryTargets_cons_of_fits hfits] at h
      cases h
    · rw [tryTargets_cons_of_not_fits hnext hfits] at h ⊢
      exact ih (i + 1) h

/-- A search for places that fails leaves the trail as it found it. -/
lemma undoesFailure_place (targets ls : List Literal) : UndoesFailure (place targets ls) := by
  induction ls with
  | nil =>
    intro trail h
    cases h
  | cons l ls ih => exact undoesFailure_tryTargets ih targets 0

end Trail

/-- A literal and those after it can be matched against distinct targets exactly if it matches one
of them and those after it can be matched against the others. -/
lemma Clause.embeds_cons_iff {l : Literal} {ls targets : List Literal} {s : Substitution} :
    embeds (l :: ls) targets s = true ↔ ∃ target others, (target, others) ∈ selections targets ∧
      ∃ s', l.matchOnto target s = .success s' ∧ embeds ls others s' = true := by
  rw [embeds, List.any_eq_true, Prod.exists]
  refine exists_congr fun target => exists_congr fun others => and_congr_right fun _ => ?_
  cases hmatch : l.matchOnto target s with
  | success s' => simp [hmatch]
  | failure cause s' => simp [hmatch]

/-- A search finds places exactly if the literals can be matched against distinct targets that are
free. -/
lemma Trail.place_eq_embeds (targets ls : List Literal) (trail : Trail) :
    (place targets ls trail).1 = Clause.embeds ls (free targets trail.used) trail.bindings := by
  induction ls generalizing trail with
  | nil => rfl
  | cons l ls ih =>
    rw [Bool.eq_iff_iff, place, tryTargets_eq_true_iff (undoesFailure_place targets ls),
      Clause.embeds_cons_iff]
    simp only [mem_selections_free, Fits, ih, Nat.zero_add]
    constructor
    · rintro ⟨j, target, htarget, hfree, s, hmatch, hrest⟩
      exact ⟨target, _, ⟨j, htarget, hfree, rfl⟩, s, hmatch, hrest⟩
    · rintro ⟨target, _, ⟨j, htarget, hfree, rfl⟩, s, hmatch, hrest⟩
      exact ⟨j, target, htarget, hfree, s, hmatch, hrest⟩

/-- Full subsumption, decided with a trail. -/
def Clause.subsumesByTrail (c d : Clause) : Bool :=
  c.literals.length ≤ d.literals.length &&
    (Trail.place d.literals c.literals
      { bindings := .empty, used := List.replicate d.literals.length false }).1

/-- At first all targets are free. -/
lemma Trail.free_replicate (targets : List Literal) :
    free targets (List.replicate targets.length false) = targets := by
  induction targets with
  | nil => rfl
  | cons target targets ih => rw [List.length_cons, List.replicate_succ, free, ih]

/-- A search with a trail decides full subsumption. -/
lemma Clause.subsumesByTrail_eq (c d : Clause) : c.subsumesByTrail d = c.subsumes d := by
  rw [subsumesByTrail, subsumes, Trail.place_eq_embeds, Trail.free_replicate]

end Clausal
