import Clausal.Proofs.Intake
import Clausal.Proofs.SearchSteps
import Mathlib.Data.List.Permutation
import Mathlib.Data.Sym.Sym2

/-!
# Saturation

A search that ends without a refutation and without reaching a ceiling is saturated: it has resolved
every two of its clauses, and their resolvents are all covered by the clauses registered.

The number `paired` splits the pairs of clauses.  Those with both numbers below it have been
resolved, and a round resolves the others, so that no pair is ever resolved twice.  A round that
stops early leaves pairs behind, although `paired` counts them as done.  Then the empty clause is
registered or the ceiling on clauses is reached, and the next step ends the search with another
verdict.

The pairs that count as resolved are those that a step reports if it is made with rounds that note
them.
-/

namespace Clausal

/-! ## Pairs that are resolved -/

/-- The pairs of clauses whose resolvents a step asks for. -/
def Search.resolvedInStep (s : Search) : List ParentPair :=
  if s.registry.findEmpty?.isSome ∨ s.settings.maxSteps < s.stepsMade + 1 ∨
      s.settings.maxClauses ≤ s.registry.size then []
  else
    Round.resolvedPairs s.settings (s.stepsMade + 1) { registry := s.registry, stopped := false }
      (s.registry.untriedPairs s.paired)

namespace Attempt

/-- The pairs of clauses whose resolvents a step of an attempt asks for. -/
def resolvedInStep : Attempt → List ParentPair
  | .collecting i =>
      match i.start with
      | .error _ => []
      | .ok s => s.resolvedInStep
  | .searching s => s.resolvedInStep
  | .finished _ _ => []

/-- The attempts that can be reached under the given settings by taking in texts and making steps in
any order, whether these succeed or fail, with the pairs of clauses resolved on the way. -/
inductive Reached (settings : Settings) : Attempt → List ParentPair → Prop where
  | new : Reached settings (.new settings) []
  | add {a : Attempt} {tried : List ParentPair} (h : Reached settings a tried) (text : String)
      (origin : Origin) : Reached settings (a.add text origin).2 tried
  | step {a : Attempt} {tried : List ParentPair} (h : Reached settings a tried) :
      Reached settings a.step.2 (tried ++ a.resolvedInStep)

end Attempt

namespace Search

/-- A step that does not run a round resolves nothing. -/
lemma resolvedInStep_of_not_canResolve {s : Search} (h : ¬ s.CanResolve) :
    s.resolvedInStep = [] := by
  refine if_pos ?_
  by_contra hnot
  rw [not_or, not_or] at hnot
  refine h ⟨fun hempty => hnot.1 (Registry.isSome_findEmpty?_iff.mpr hempty), ?_, ?_⟩
  · have hsteps := hnot.2.1
    omega
  · exact Nat.not_le.mp hnot.2.2

/-- A step that runs a round resolves the untried pairs until the round stops. -/
lemma resolvedInStep_of_canResolve {s : Search} (h : s.CanResolve) :
    s.resolvedInStep = Round.resolvedPairs s.settings (s.stepsMade + 1) ⟨s.registry, false⟩
      (s.registry.untriedPairs s.paired) := by
  refine if_neg ?_
  have hsteps := h.stepsMade_lt
  have hsize := h.size_lt
  rw [Registry.isSome_findEmpty?_iff]
  rintro (hempty | hceiling)
  · exact h.noEmpty hempty
  · omega

/-- One step of a search, with the pairs whose resolvents the step asks for. -/
def stepReporting (search : Search) : (Search × Option Verdict) × List ParentPair :=
  let s := search.counted
  match s.registry.findEmpty? with
  | some (id, c) => ((s.finish (.contradiction id c.provenance.parents), some .refuted), [])
  | none =>
      if s.settings.maxSteps < s.stepsMade ∨ s.settings.maxClauses ≤ s.registry.size then
        ((s.finish .timeout, some .undetermined), [])
      else
        let result := s.registry.resolveRoundReporting s.settings s.stepsMade s.paired
        let next := { s with registry := result.1, paired := s.registry.size }
        (if next.registry.size = s.registry.size then
          (next.finish .noNewClauses, some .notRefuted)
        else (next, none), result.2)

/-- A step that reports makes the step and reports the pairs that it resolves. -/
lemma stepReporting_eq (s : Search) : s.stepReporting = (s.step, s.resolvedInStep) := by
  unfold stepReporting step resolvedInStep
  simp only [Registry.resolveRoundReporting_eq]
  cases hfind : s.registry.findEmpty? with
  | some found =>
    simp only [counted, hfind, Option.isSome_some, true_or, if_true]
  | none =>
    by_cases hceiling :
        s.settings.maxSteps < s.stepsMade + 1 ∨ s.settings.maxClauses ≤ s.registry.size
    · simp only [counted, hfind, hceiling, or_true, if_true]
    · simp only [counted, hfind, hceiling, Option.isSome_none, Bool.false_eq_true,
        or_self, if_false]
      rfl

end Search

namespace Attempt

/-- One step of an attempt, with the pairs of clauses whose resolvents the step asks for. -/
def stepReporting (a : Attempt) :
    (Except ProveError (Option Verdict) × Attempt) × List ParentPair :=
  match a with
  | .collecting i =>
      match i.start with
      | .error e => ((.error e, a), [])
      | .ok s => (ofStep s.stepReporting.1, s.stepReporting.2)
  | .searching s => (ofStep s.stepReporting.1, s.stepReporting.2)
  | .finished _ verdict => ((.ok (some verdict), a), [])

/-- A step that reports makes the step and reports the pairs that it resolves. -/
lemma stepReporting_eq (a : Attempt) : a.stepReporting = (a.step, a.resolvedInStep) := by
  cases a with
  | collecting i =>
    rw [stepReporting, step, resolvedInStep]
    cases i.start with
    | error e => rfl
    | ok s =>
      dsimp only
      rw [s.stepReporting_eq]
  | searching s => rw [stepReporting, s.stepReporting_eq, step, resolvedInStep]
  | finished s verdict => rfl

end Attempt

namespace Search

/-! ## The invariant -/

/-- Every two clauses with numbers below `n` are resolved, and their resolvents covered. -/
def PairsDone (s : Search) (n : ℕ) (tried : List ParentPair) : Prop :=
  ∀ p : ParentPair, p.leftId < p.rightId → p.rightId < n → s.registry.get? p.leftId = some p.left →
    s.registry.get? p.rightId = some p.right →
    p ∈ tried ∧ ∀ step, ∀ res ∈ p.resolvents step,
      s.registry.Covers s.settings.subsumption res.clause

/-- The pairs resolved so far have numbers below `paired` and differ from each other.  They are all
the pairs with such numbers, unless the next step is bound to end the search. -/
structure Tracks (s : Search) (tried : List ParentPair) : Prop where
  paired_le : s.paired ≤ s.registry.size
  ordered : ∀ p ∈ tried, p.leftId < p.rightId ∧ p.rightId < s.paired
  nodup : (tried.map fun p => (p.leftId, p.rightId)).Nodup
  pairsDone : ¬ s.registry.HasEmpty → s.registry.size < s.settings.maxClauses →
    s.PairsDone s.paired tried

/-- Nothing is resolved when a search starts. -/
lemma tracks_initial (settings : Settings) (cs : List Clause) :
    (initial settings cs).Tracks [] where
  paired_le := Nat.zero_le _
  ordered _ hp := absurd hp List.not_mem_nil
  nodup := List.nodup_nil
  pairsDone _ _ _ _ hlt := absurd hlt (Nat.not_lt_zero _)

/-- Ending a search without a round resolves nothing. -/
lemma Tracks.finish {s : Search} {tried : List ParentPair} (h : s.Tracks tried) (e : LogEntry) :
    (s.counted.finish e).Tracks tried :=
  ⟨h.paired_le, h.ordered, h.nodup, h.pairsDone⟩

variable {s : Search} {tried : List ParentPair}

/-- The pairs resolved in a round are new. -/
lemma Tracks.nodup_append (h : s.Tracks tried) (hs : s.CanResolve) :
    ((tried ++ s.resolvedInStep).map fun p => (p.leftId, p.rightId)).Nodup := by
  have hsublist : s.resolvedInStep.Sublist (s.registry.untriedPairs s.paired) := by
    rw [resolvedInStep_of_canResolve hs]
    exact Round.resolvedPairs_sublist _ _ _ _
  rw [List.map_append, List.nodup_append]
  refine ⟨h.nodup, (hsublist.map _).nodup (s.registry.nodup_untriedPairs s.paired), ?_⟩
  rintro a ha b hb rfl
  obtain ⟨p, hp, rfl⟩ := List.mem_map.mp ha
  obtain ⟨q, hq, heq⟩ := List.mem_map.mp hb
  have hlt := (h.ordered p hp).2
  have hle := (Registry.mem_untriedPairs.mp (hsublist.subset hq)).2.1
  rw [(Prod.mk.inj heq).2] at hle
  exact Nat.lt_irrefl _ (Nat.lt_of_lt_of_le hlt hle)

/-- After a round every two of the clauses from before it are resolved, unless the next step is
bound to end the search. -/
lemma Tracks.pairsDone_round (h : s.Tracks tried) (hs : s.CanResolve)
    (hempty : ¬ s.counted.round.registry.HasEmpty)
    (hsize : s.counted.round.registry.size < s.settings.maxClauses) :
    s.counted.round.PairsDone s.registry.size (tried ++ s.resolvedInStep) := by
  have hround : s.counted.round.registry = ((s.registry.untriedPairs s.paired).foldl
      (Round.tryPair s.settings (s.stepsMade + 1)) ⟨s.registry, false⟩).registry :=
    Registry.resolveRound_eq _ _ _ _
  have hrun : ((s.registry.untriedPairs s.paired).foldl
      (Round.tryPair s.settings (s.stepsMade + 1)) ⟨s.registry, false⟩).stopped = false := by
    rw [← Bool.not_eq_true]
    intro hstopped
    rw [hround] at hempty hsize
    rcases Round.exists_isEmpty_or_le_of_stopped hstopped with hreason | hreason
    · exact hempty hreason
    · exact Nat.not_lt.mpr hreason hsize
  intro p hlt hright hleftClause hrightClause
  have hleftClause := s.isPartOf_round.get?_eq_of_lt hleftClause (Nat.lt_trans hlt hright)
  have hrightClause := s.isPartOf_round.get?_eq_of_lt hrightClause hright
  by_cases hpaired : p.rightId < s.paired
  · -- an old pair, which was resolved before
    obtain ⟨hp, hcovers⟩ := h.pairsDone hs.noEmpty hs.size_lt p hlt hpaired hleftClause hrightClause
    exact ⟨List.mem_append_left _ hp,
      fun step res hres => (hcovers step res hres).mono s.isPartOf_round⟩
  · -- a pair with a new clause, which is resolved in this round, as the round does not stop
    have hp : p ∈ s.registry.untriedPairs s.paired :=
      Registry.mem_untriedPairs.mpr ⟨hlt, Nat.not_lt.mp hpaired, hleftClause, hrightClause⟩
    constructor
    · refine List.mem_append_right _ ?_
      rw [resolvedInStep_of_canResolve hs, Round.resolvedPairs_eq_self hrun]
      exact hp
    · intro step res hres
      obtain ⟨res', hres', hliterals⟩ :=
        ParentPair.exists_mem_resolvents_literals_eq hres (s.stepsMade + 1)
      rw [hround]
      exact (Registry.covers_congr hliterals).mp
        (Round.covers_of_foldl_tryPair hrun p hp res' hres')

/-- A round keeps the invariant. -/
lemma Tracks.round (h : s.Tracks tried) (hs : s.CanResolve) :
    s.counted.round.Tracks (tried ++ s.resolvedInStep) where
  paired_le := s.isPartOf_round.size_le
  ordered p hp := by
    rcases List.mem_append.mp hp with hp | hp
    · obtain ⟨hlt, hpaired⟩ := h.ordered p hp
      exact ⟨hlt, Nat.lt_of_lt_of_le hpaired h.paired_le⟩
    · rw [resolvedInStep_of_canResolve hs] at hp
      obtain ⟨hlt, -, -, hright⟩ := Registry.mem_untriedPairs.mp
        ((Round.resolvedPairs_sublist _ _ _ _).subset hp)
      exact ⟨hlt, (Array.getElem?_eq_some_iff.mp hright).1⟩
  nodup := h.nodup_append hs
  pairsDone hempty hsize := h.pairsDone_round hs hempty hsize

/-- No two clauses are resolved twice, in whatever order. -/
lemma Tracks.nodup_unordered (h : s.Tracks tried) :
    (tried.map fun p => s(p.leftId, p.rightId)).Nodup := by
  have hordered : ∀ ij ∈ tried.map fun p => (p.leftId, p.rightId), ij.1 < ij.2 := by
    intro ij hij
    obtain ⟨p, hp, rfl⟩ := List.mem_map.mp hij
    exact (h.ordered p hp).1
  have hmk := h.nodup.map_on (f := fun ij : ℕ × ℕ => s(ij.1, ij.2)) ?_
  · rw [List.map_map] at hmk
    exact hmk
  · rintro ⟨i, j⟩ hij ⟨k, l⟩ hkl heq
    have hlt := hordered _ hij
    have hlt' := hordered _ hkl
    rcases Sym2.eq_iff.mp heq with ⟨hik, hjl⟩ | ⟨hil, hjk⟩
    · exact Prod.ext hik hjl
    · simp only at hlt hlt' hil hjk
      omega

/-- The clauses of a search are saturated: the empty clause is not among them, and every two of them
are resolved and their resolvents covered. -/
structure Saturated (s : Search) (tried : List ParentPair) : Prop where
  noEmpty : ¬ s.registry.HasEmpty
  pairsDone : s.PairsDone s.registry.size tried

/-- A round that adds nothing leaves the clauses saturated. -/
lemma Tracks.saturated (h : s.Tracks tried) (hs : s.CanResolve)
    (hsize : s.counted.round.registry.size = s.registry.size) :
    s.counted.round.Saturated (tried ++ s.resolvedInStep) := by
  have hclauses : s.counted.round.registry.clauses = s.registry.clauses :=
    s.isPartOf_round.clauses_eq hsize
  have hempty : ¬ s.counted.round.registry.HasEmpty := by
    rw [Registry.HasEmpty, hclauses]
    exact hs.noEmpty
  refine ⟨hempty, ?_⟩
  rw [hsize]
  exact h.pairsDone_round hs hempty (hsize ▸ hs.size_lt)

/-- What a step does to the invariant: it is kept, with the pairs that the step resolves, and if the
step ends the search without a refutation and below the ceilings, the clauses are saturated. -/
lemma Tracks.step {t : Search} {verdict : Option Verdict} (h : s.Tracks tried)
    (hstep : Outcome s t verdict) :
    t.settings = s.settings ∧ t.Tracks (tried ++ s.resolvedInStep) ∧
      (verdict = some .notRefuted → t.Saturated (tried ++ s.resolvedInStep)) := by
  cases hstep with
  | contradiction e hempty =>
    rw [resolvedInStep_of_not_canResolve fun hs => hs.noEmpty hempty, List.append_nil]
    exact ⟨rfl, h.finish e, fun hverdict => nomatch hverdict⟩
  | ceiling e _ hfull =>
    rw [resolvedInStep_of_not_canResolve hfull, List.append_nil]
    exact ⟨rfl, h.finish e, fun hverdict => nomatch hverdict⟩
  | saturated e hs hsize =>
    obtain ⟨hpaired, hordered, hnodup, hdone⟩ := h.round hs
    obtain ⟨hempty, hpairs⟩ := h.saturated hs hsize
    exact ⟨rfl, ⟨hpaired, hordered, hnodup, hdone⟩, fun _ => ⟨hempty, hpairs⟩⟩
  | progress hs _ => exact ⟨rfl, h.round hs, fun hverdict => nomatch hverdict⟩

/-- A run that comes to the verdict that the clauses are not refuted ends with saturated clauses. -/
lemma Tracks.exists_saturated_run {s : Search} {tried : List ParentPair} (h : s.Tracks tried)
    (hverdict : s.run.2 = .notRefuted) : ∃ tried', s.run.1.Saturated tried' := by
  have hkeep : ∀ s t : Search, (∃ tried, s.Tracks tried) → Outcome s t none →
      ∃ tried, t.Tracks tried := by
    rintro s t ⟨tried, hs⟩ hstep
    exact ⟨_, (hs.step hstep).2.1⟩
  obtain ⟨t, ⟨tried', ht⟩, hlast⟩ := exists_outcome_run ⟨tried, h⟩ hkeep
  exact ⟨_, (ht.step hlast).2.2 (congrArg some hverdict)⟩

end Search

/-! ## Attempts -/

namespace Attempt

/-- The invariant of an attempt: nothing is resolved before the search starts, and from then on the
search keeps its own invariant and is saturated if it ends so. -/
def Tracks (settings : Settings) : Attempt → List ParentPair → Prop
  | .collecting i, tried => i.settings = settings ∧ tried = []
  | .searching s, tried => s.settings = settings ∧ s.Tracks tried
  | .finished s verdict, tried =>
      s.settings = settings ∧ s.Tracks tried ∧ (verdict = .notRefuted → s.Saturated tried)

/-- A step of a search keeps the invariant. -/
lemma tracks_ofStep {settings : Settings} {s : Search} {tried : List ParentPair}
    (hsettings : s.settings = settings) (h : s.Tracks tried) :
    Tracks settings (ofStep s.step).2 (tried ++ s.resolvedInStep) := by
  obtain ⟨hkept, htracks, hsaturated⟩ := h.step s.outcome_step
  cases hstep : s.step with
  | mk t verdict =>
    rw [hstep] at hkept htracks hsaturated
    cases verdict with
    | none => exact ⟨hkept.trans hsettings, htracks⟩
    | some verdict =>
      exact ⟨hkept.trans hsettings, htracks, fun hverdict => hsaturated (congrArg some hverdict)⟩

/-- Every attempt that can be reached keeps the invariant. -/
lemma Reached.tracks {settings : Settings} {a : Attempt} {tried : List ParentPair}
    (h : Reached settings a tried) : Tracks settings a tried := by
  induction h with
  | new => exact ⟨rfl, rfl⟩
  | @add a tried _ text origin ih =>
    cases a with
    | collecting i =>
      refine ⟨Eq.trans ?_ ih.1, ih.2⟩
      exact i.settings_add text origin
    | searching s => exact ih
    | finished s verdict => exact ih
  | @step a tried _ ih =>
    cases a with
    | collecting i =>
      obtain ⟨hsettings, rfl⟩ := ih
      rw [resolvedInStep, Attempt.step]
      cases hstart : i.start with
      | error e => exact ⟨hsettings, rfl⟩
      | ok s =>
        obtain ⟨cs, rfl⟩ := Intake.exists_eq_initial_of_start hstart
        exact tracks_ofStep hsettings (Search.tracks_initial _ cs)
    | searching s => exact tracks_ofStep ih.1 ih.2
    | finished s verdict =>
      rw [resolvedInStep, List.append_nil]
      exact ih

/-- Taking in texts leads from attempts that can be reached to such attempts. -/
lemma Reached.addAll {settings : Settings} {a b : Attempt} {tried : List ParentPair}
    (h : Reached settings a tried) {inputs : List (String × Origin)}
    (hadd : a.addAll inputs = .ok b) : Reached settings b tried := by
  induction inputs generalizing a with
  | nil =>
    cases hadd
    exact h
  | cons input rest ih =>
    obtain ⟨text, origin⟩ := input
    have hnext := h.add text origin
    rw [Attempt.addAll] at hadd
    split at hadd
    · cases hadd
    · rename_i c hc
      rw [hc] at hnext
      exact ih hnext hadd

/-- An attempt that is about to make the steps of a search can reach the end of its run. -/
lemma Reached.exists_run {settings : Settings} {a : Attempt} {tried : List ParentPair}
    (h : Reached settings a tried) {s : Search} (hstep : a.step = ofStep s.step) :
    ∃ tried', Reached settings (.finished s.run.1 s.run.2) tried' := by
  fun_induction Search.run s generalizing a tried with
  | case1 s t verdict heq =>
    have hnext := h.step
    rw [hstep, heq] at hnext
    exact ⟨_, hnext⟩
  | case2 s t heq ih =>
    have hnext := h.step
    rw [hstep, heq] at hnext
    exact ih hnext rfl

/-- The end of every attempt that comes to a verdict can be reached. -/
lemma exists_reached_of_outcome {settings : Settings} {inputs : List (String × Origin)}
    {verdict : Verdict} {log : ProofLog} (h : outcome settings inputs = .ok (verdict, log)) :
    ∃ a tried, Reached settings a tried ∧ a.verdict? = some verdict ∧ a.registry.log = log := by
  obtain ⟨a, hadd, hrun⟩ := bind_eq_ok h
  have ha := Reached.new.addAll hadd
  cases a with
  | collecting i =>
    obtain ⟨s, hstart, heq⟩ := map_eq_ok hrun
    have hstep : (collecting i).step = ofStep s.step := by
      rw [Attempt.step, hstart]
    obtain ⟨tried, hreached⟩ := ha.exists_run hstep
    obtain ⟨rfl, rfl⟩ := Prod.mk.inj heq
    exact ⟨_, tried, hreached, rfl, rfl⟩
  | searching s =>
    obtain ⟨tried, hreached⟩ := ha.exists_run (s := s) rfl
    obtain ⟨rfl, rfl⟩ := Prod.mk.inj (Except.ok.inj hrun)
    exact ⟨_, tried, hreached, rfl, rfl⟩
  | finished s v =>
    obtain ⟨rfl, rfl⟩ := Prod.mk.inj (Except.ok.inj hrun)
    exact ⟨_, [], ha, rfl, rfl⟩

end Attempt

/-- The pairs that count as resolved are those that a step reports.  In every attempt that can be
reached no two clauses are resolved twice.  If the attempt has come to the verdict that the formulas
are not refuted, then no clause is empty, every two clauses have been resolved, and each resolvent
of two clauses is a tautology or subsumed by a clause. -/
theorem saturated_of_notRefuted {settings : Settings} {a : Attempt} {tried : List ParentPair}
    (h : Attempt.Reached settings a tried) :
    (∀ b : Attempt, b.stepReporting = (b.step, b.resolvedInStep)) ∧
      (tried.map fun p => s(p.leftId, p.rightId)).Nodup ∧
      (a.verdict? = some .notRefuted →
        (∀ c ∈ a.registry.clauses.toList, c.isEmpty = false) ∧
        ∀ p : ParentPair, p.leftId < p.rightId → a.registry.get? p.leftId = some p.left →
          a.registry.get? p.rightId = some p.right →
          p ∈ tried ∧ ∀ step, ∀ res ∈ p.resolvents step, res.clause.isTautology = true ∨
            ∃ e ∈ a.registry.clauses.toList,
              e.subsumesIn settings.subsumption res.clause = true) := by
  refine ⟨Attempt.stepReporting_eq, ?_⟩
  have htracks := h.tracks
  cases a with
  | collecting i =>
    obtain ⟨-, rfl⟩ := htracks
    exact ⟨List.nodup_nil, fun hverdict => nomatch hverdict⟩
  | searching s => exact ⟨htracks.2.nodup_unordered, fun hverdict => nomatch hverdict⟩
  | finished s verdict =>
    obtain ⟨rfl, htracks, hsaturated⟩ := htracks
    refine ⟨htracks.nodup_unordered, fun hverdict => ?_⟩
    obtain ⟨hempty, hpairs⟩ := hsaturated (Option.some.inj hverdict)
    refine ⟨fun c hc => ?_, fun p hlt hleft hright => ?_⟩
    · rw [← Bool.not_eq_true]
      exact fun hisEmpty => hempty ⟨c, hc, hisEmpty⟩
    · exact hpairs p hlt (Array.getElem?_eq_some_iff.mp hright).1 hleft hright

/-- `P` or `Q`. -/
def orPQ : Formula :=
  .or (.atom { predicate := "P", args := [], positive := true })
    (.atom { predicate := "Q", args := [], positive := true })

/-- Not `P`. -/
def notP : Formula :=
  .atom { predicate := "P", args := [], positive := false }

lemma readFormula?_orPQ : readFormula? "P ∨ Q" = some (some orPQ) := by
  let st : Statement :=
    .joined false [] (some .or) (.atom ⟨none, false, "P", none⟩) (.atom ⟨none, false, "Q", none⟩)
  have hlower : Formula.ofStatement st = .ok orPQ := rfl
  exact readFormula?_of_text_eq rfl hlower (by decide) (by decide) (by decide)

lemma readFormula?_notP : readFormula? "¬P" = some (some notP) := by
  let st : Statement := .atom ⟨none, true, "P", none⟩
  have hlower : Formula.ofStatement st = .ok notP := rfl
  exact readFormula?_of_text_eq rfl hlower (by decide) (by decide) (by decide)

/-- The intake that has taken in `P ∨ Q` and `¬P`. -/
def intakePQ : Intake where
  settings := .standard
  supply := (SkolemSupply.initial.reserve orPQ).reserve notP
  pending := [⟨1, "P ∨ Q", .input, orPQ⟩, ⟨2, "¬P", .input, notP⟩]
  count := 2

/-- The search with which the attempt at `P ∨ Q` and `¬P` starts. -/
def searchPQ : Search where
  settings := .standard
  registry :=
    { clauses := #[⟨[⟨"P", [], true⟩, ⟨"Q", [], true⟩], some 0, .given .input⟩,
        ⟨[⟨"P", [], false⟩], some 1, .given .input⟩]
      log := ⟨#[.initial [⟨0, "P ∨ Q", "input"⟩, ⟨1, "¬P", "input"⟩]]⟩ }
  stepsMade := 0
  paired := 0

lemma addAll_intakePQ : (Attempt.new .standard).addAll [("P ∨ Q", .input), ("¬P", .input)] =
    .ok (.collecting intakePQ) := by
  rw [Attempt.new, Attempt.addAll_cons_of_readFormula? _ readFormula?_orPQ,
    Attempt.addAll_cons_of_readFormula? _ readFormula?_notP]
  rfl

set_option maxRecDepth 100000 in
/-- The clause form of `P ∨ Q` and `¬P`. -/
lemma clausesFrom_intakePQ : Intake.clausesFrom intakePQ.pending intakePQ.supply =
    .ok [.ofLiterals [⟨"P", [], true⟩, ⟨"Q", [], true⟩] (.given .input),
      .ofLiterals [⟨"P", [], false⟩] (.given .input)] := by
  cbv

set_option maxRecDepth 100000 in
/-- The first step of this search is a round that adds `Q`. -/
lemma step_searchPQ : searchPQ.step.2 = none := by
  cbv

set_option maxRecDepth 100000 in
/-- The clauses after the first step. -/
lemma clauses_step_searchPQ : searchPQ.step.1.registry.clauses.toList =
    [⟨[⟨"P", [], true⟩, ⟨"Q", [], true⟩], some 0, .given .input⟩,
      ⟨[⟨"P", [], false⟩], some 1, .given .input⟩,
      ⟨[⟨"Q", [], true⟩], some 2, ⟨[0, 1], .resolvent 1⟩⟩] := by
  cbv

set_option maxRecDepth 100000 in
/-- The second step of this search adds nothing. -/
lemma step_step_searchPQ : searchPQ.step.1.step.2 = some .notRefuted := by
  cbv

/-- The attempt at `P ∨ Q` and `¬P` reaches the verdict that they are not refuted, and its clauses
are saturated. -/
theorem saturated_orPQ_notP :
    ∃ a tried, Attempt.Reached .standard a tried ∧ a.verdict? = some .notRefuted ∧
      (tried.map fun p => s(p.leftId, p.rightId)).Nodup ∧
      (∀ c ∈ a.registry.clauses.toList, c.isEmpty = false) ∧
      ∀ p : ParentPair, p.leftId < p.rightId → a.registry.get? p.leftId = some p.left →
        a.registry.get? p.rightId = some p.right →
        p ∈ tried ∧ ∀ step, ∀ res ∈ p.resolvents step, res.clause.isTautology = true ∨
          ∃ e ∈ a.registry.clauses.toList, e.subsumesIn .full res.clause = true := by
  have hstart : intakePQ.start = .ok searchPQ :=
    Intake.start_eq clausesFrom_intakePQ (List.cons_ne_nil _ _)
  have hstep : (Attempt.collecting intakePQ).step = Attempt.ofStep searchPQ.step := by
    rw [Attempt.step, hstart]
  obtain ⟨tried, hreached⟩ := (Attempt.Reached.new.addAll addAll_intakePQ).exists_run hstep
  rw [Search.run_of_step_none step_searchPQ, Search.run_of_step_some step_step_searchPQ] at hreached
  obtain ⟨-, hnodup, hsaturated⟩ := saturated_of_notRefuted hreached
  exact ⟨_, tried, hreached, rfl, hnodup, hsaturated rfl⟩

end Clausal
