import Clausal.Proofs.Clausification
import Clausal.Proofs.Saturation

/-!
# Ceilings

A run makes at most one step more than its ceiling on steps allows rounds.  It never has more
clauses than its ceiling on clauses, unless more were given.  The verdict says exactly how it ended:
with the empty clause, with a round that registered nothing, or, without either, at one of the
ceilings.

The rounds of a run are counted by what they register: `gains` lists these numbers in order.  A run
that goes on after a round has registered something in it, so that all numbers but the last are
positive.
-/

namespace Clausal

/-! ## Steps one after the other -/

namespace Search

/-- The number of clauses that the round of a step registers, if the step runs a round. -/
def gain? (s : Search) : Option ℕ :=
  if s.registry.findEmpty?.isSome ∨ s.settings.maxSteps < s.stepsMade + 1 ∨
      s.settings.maxClauses ≤ s.registry.size then none
  else some (s.counted.round.registry.size - s.registry.size)

/-- A step runs a round exactly if it is not ended before. -/
lemma ended_iff_not_canResolve {s : Search} :
    (s.registry.findEmpty?.isSome ∨ s.settings.maxSteps < s.stepsMade + 1 ∨
      s.settings.maxClauses ≤ s.registry.size) ↔ ¬ s.CanResolve := by
  rw [Registry.isSome_findEmpty?_iff]
  constructor
  · rintro (hempty | hsteps | hclauses) hs
    · exact hs.noEmpty hempty
    · have hlt := hs.stepsMade_lt
      omega
    · exact Nat.not_lt.mpr hclauses hs.size_lt
  · intro hs
    by_contra hnot
    obtain ⟨hempty, hceilings⟩ := not_or.mp hnot
    obtain ⟨hsteps, hclauses⟩ := not_or.mp hceilings
    exact hs ⟨hempty, by omega, Nat.not_le.mp hclauses⟩

/-- A step that does not run a round registers nothing in one. -/
lemma gain?_of_not_canResolve {s : Search} (h : ¬ s.CanResolve) : s.gain? = none :=
  if_pos (ended_iff_not_canResolve.mpr h)

/-- A step that runs a round registers as many clauses as there are more after it. -/
lemma gain?_of_canResolve {s : Search} (h : s.CanResolve) :
    s.gain? = some (s.counted.round.registry.size - s.registry.size) :=
  if_neg fun hended => ended_iff_not_canResolve.mp hended h

end Search

namespace Attempt

/-- The number of clauses that the round of a step registers, if the step runs a round. -/
def gain? : Attempt → Option ℕ
  | .collecting i =>
      match i.start with
      | .error _ => none
      | .ok s => s.gain?
  | .searching s => s.gain?
  | .finished _ _ => none

/-- The attempt after a number of steps. -/
def after (a : Attempt) : ℕ → Attempt
  | 0 => a
  | n + 1 => a.step.2.after n

/-- The numbers of clauses that the rounds among the first `n` steps register, in order. -/
def gains (a : Attempt) : ℕ → List ℕ
  | 0 => []
  | n + 1 => a.gain?.toList ++ a.step.2.gains n

/-- An attempt whose search can start goes on as the search does. -/
lemma step_of_start {i : Intake} {s : Search} (h : i.start = .ok s) :
    (collecting i).step = (searching s).step := by
  rw [Attempt.step, h]
  rfl

/-- An attempt whose search can start counts the rounds of the search. -/
lemma gain?_of_start {i : Intake} {s : Search} (h : i.start = .ok s) :
    (collecting i).gain? = (searching s).gain? := by
  rw [gain?, h]
  rfl

end Attempt

/-! ## The ceiling on clauses -/

/-- A round that starts below the ceiling on clauses does not go above it. -/
lemma Search.size_round_le {s : Search} (h : s.CanResolve) :
    s.counted.round.registry.size ≤ s.settings.maxClauses := by
  have hround : s.counted.round.registry = ((s.registry.untriedPairs s.paired).foldl
      (Round.tryPair s.settings (s.stepsMade + 1)) ⟨s.registry, false⟩).registry :=
    Registry.resolveRound_eq _ _ _ _
  rw [hround]
  -- as long as a round has not stopped, there is room for one more clause
  refine (Round.foldl_tryPair_induct (P := fun round =>
    round.registry.size ≤ s.settings.maxClauses ∧
      (round.stopped = false → round.registry.size < s.settings.maxClauses))
    ⟨Nat.le_of_lt h.size_lt, fun _ => h.size_lt⟩ ?_).1
  intro round p _ res _ hround hstopped _
  have hlt := hround.2 hstopped
  have hsize : (Round.registered s.settings (s.stepsMade + 1) round p res).registry.size =
      round.registry.size + 1 := Array.size_push _
  refine ⟨by omega, fun hgoes => ?_⟩
  obtain ⟨-, hbelow⟩ := Bool.or_eq_false_iff.mp hgoes
  exact Nat.not_le.mp (of_decide_eq_false hbelow)

/-- A step does not take a search above its ceiling on clauses, unless it was there before. -/
lemma Search.size_step_le {s : Search} {bound : ℕ} (hceiling : s.settings.maxClauses ≤ bound)
    (h : s.registry.size ≤ bound) : s.step.1.registry.size ≤ bound := by
  have houtcome := s.outcome_step
  generalize s.step = result at houtcome
  obtain ⟨t, verdict⟩ := result
  cases houtcome with
  | contradiction => exact h
  | ceiling => exact h
  | saturated e hs _ => exact Nat.le_trans (size_round_le hs) hceiling
  | progress hs _ => exact Nat.le_trans (size_round_le hs) hceiling

/-- However many steps are made, a search does not come above its ceiling on clauses, unless it was
there before. -/
lemma Attempt.size_after_searching_le {s : Search} {bound : ℕ}
    (hceiling : s.settings.maxClauses ≤ bound) (h : s.registry.size ≤ bound) (n : ℕ) :
    ((searching s).after n).registry.size ≤ bound := by
  induction n generalizing s with
  | zero => exact h
  | succ n ih =>
    have hsize := Search.size_step_le hceiling h
    have hsettings := s.outcome_step.settings_eq
    rw [after, step]
    generalize s.step = result at hsize hsettings
    obtain ⟨t, verdict⟩ := result
    cases verdict with
    | none => exact ih (hsettings ▸ hceiling) hsize
    | some verdict =>
      have hfinished : ∀ m, (finished t verdict).after m = finished t verdict := by
        intro m
        induction m with
        | zero => rfl
        | succ m ih => exact ih
      rw [ofStep, hfinished]
      exact hsize

/-! ## The verdict -/

/-- The verdict says how a search ended, where `gains` are the numbers of clauses that its rounds
registered: with the empty clause, at a ceiling, or with a round that registered nothing. -/
structure Search.EndsExactly (settings : Settings) (r : Registry) (gains : List ℕ)
    (verdict : Verdict) : Prop where
  refuted_iff : verdict = .refuted ↔ r.HasEmpty
  undetermined_iff : verdict = .undetermined ↔ ¬ r.HasEmpty ∧ (settings.maxClauses ≤ r.size ∨
    gains.length = settings.maxSteps ∧ ∀ g ∈ gains, 0 < g)
  notRefuted_iff : verdict = .notRefuted ↔ gains.getLast? = some 0

namespace Search

variable {s t : Search} {verdict : Verdict} {earlier : List ℕ}

/-- The last number of a list of positive numbers is not zero. -/
lemma getLast?_ne_some_zero (hpos : ∀ g ∈ earlier, 0 < g) : earlier.getLast? ≠ some 0 := by
  intro hlast
  exact Nat.lt_irrefl 0 (hpos 0 (List.mem_of_getLast? hlast))

/-- The step that ends a search says how it ended, if all rounds before have registered
something. -/
lemma Outcome.endsExactly (hstep : Outcome s t (some verdict))
    (hlength : earlier.length = s.stepsMade) (hpos : ∀ g ∈ earlier, 0 < g)
    (hsteps : s.stepsMade ≤ s.settings.maxSteps) :
    EndsExactly s.settings t.registry (earlier ++ s.gain?.toList) verdict := by
  cases hstep with
  | contradiction e hempty =>
    rw [gain?_of_not_canResolve fun hs => hs.noEmpty hempty, Option.toList_none, List.append_nil]
    have hempty' : (s.counted.finish e).registry.HasEmpty := hempty
    refine ⟨iff_of_true rfl hempty', iff_of_false (by decide) fun h => h.1 hempty', ?_⟩
    exact iff_of_false (by decide) (getLast?_ne_some_zero hpos)
  | ceiling e hempty hfull =>
    rw [gain?_of_not_canResolve hfull, Option.toList_none, List.append_nil]
    have hempty' : ¬ (s.counted.finish e).registry.HasEmpty := hempty
    have hreached : s.settings.maxClauses ≤ (s.counted.finish e).registry.size ∨
        earlier.length = s.settings.maxSteps := by
      by_contra hnot
      obtain ⟨hclauses, hsteps'⟩ := not_or.mp hnot
      exact hfull ⟨hempty, by omega, Nat.not_le.mp hclauses⟩
    refine ⟨iff_of_false (by decide) hempty', iff_of_true rfl ⟨hempty', ?_⟩, ?_⟩
    · exact hreached.imp_right fun hlength' => ⟨hlength', hpos⟩
    · exact iff_of_false (by decide) (getLast?_ne_some_zero hpos)
  | saturated e hs hsize =>
    rw [gain?_of_canResolve hs, hsize, Nat.sub_self, Option.toList_some]
    have hclauses : (s.counted.round.finish e).registry.clauses = s.registry.clauses :=
      s.isPartOf_round.clauses_eq hsize
    have hempty' : ¬ (s.counted.round.finish e).registry.HasEmpty := by
      rw [Registry.HasEmpty, hclauses]
      exact hs.noEmpty
    have hsize' : (s.counted.round.finish e).registry.size < s.settings.maxClauses := by
      rw [Registry.size, hclauses]
      exact hs.size_lt
    refine ⟨iff_of_false (by decide) hempty', iff_of_false (by decide) ?_, iff_of_true rfl ?_⟩
    · rintro ⟨-, hclauses' | ⟨-, hpos'⟩⟩
      · exact Nat.not_le.mpr hsize' hclauses'
      · exact Nat.lt_irrefl 0 (hpos' 0 (List.mem_append_right _ List.mem_cons_self))
    · rw [List.getLast?_append, List.getLast?_singleton, Option.some_or]

end Search

/-- A search that is about to be run comes to its verdict after as many steps as its ceiling on
steps leaves, and one more at most.  The verdict says how it ended. -/
lemma Attempt.exists_after_eq_finished {s : Search} {earlier : List ℕ}
    (hlength : earlier.length = s.stepsMade) (hpos : ∀ g ∈ earlier, 0 < g)
    (hsteps : s.stepsMade ≤ s.settings.maxSteps) :
    ∃ n, s.stepsMade + (n + 1) ≤ s.settings.maxSteps + 1 ∧
      (∀ k ≤ n, ((searching s).after k).verdict? = none) ∧
      (searching s).after (n + 1) = .finished s.run.1 s.run.2 ∧
      Search.EndsExactly s.settings s.run.1.registry (earlier ++ (searching s).gains (n + 1))
        s.run.2 := by
  fun_induction Search.run s generalizing earlier with
  | case1 s t verdict hstep =>
    refine ⟨0, by omega, ?_, ?_, ?_⟩
    · intro k hk
      rw [Nat.le_zero.mp hk]
      rfl
    · rw [after, step, hstep]
      rfl
    · rw [gains, gains, List.append_nil]
      exact (Search.outcome_of_step_eq hstep).endsExactly hlength hpos hsteps
  | case2 s t hstep ih =>
    have hnext : (searching s).step.2 = searching t := by
      rw [step, hstep]
      rfl
    obtain ⟨hsettings, hmade, hlt⟩ := Search.step_none hstep
    obtain ⟨hs, hround, -⟩ := (Search.outcome_of_step_eq hstep).eq_round_of_none
    have hgain : (searching s).gain? = some (t.registry.size - s.registry.size) := by
      rw [hround]
      exact Search.gain?_of_canResolve hs
    have hmore := (Search.outcome_of_step_eq hstep).size_lt_of_none
    have hlength' : (earlier ++ [t.registry.size - s.registry.size]).length = t.stepsMade := by
      rw [List.length_append, List.length_singleton, hlength, hmade]
    have hpos' : ∀ g ∈ earlier ++ [t.registry.size - s.registry.size], 0 < g := by
      rw [List.forall_mem_append, List.forall_mem_singleton]
      exact ⟨hpos, Nat.sub_pos_of_lt hmore⟩
    obtain ⟨n, hn, hnone, hend, hexact⟩ := ih hlength' hpos' (by rw [hsettings, hmade]; exact hlt)
    rw [hsettings, hmade] at hn
    refine ⟨n + 1, by omega, ?_, ?_, ?_⟩
    · intro k hk
      cases k with
      | zero => rfl
      | succ k =>
        rw [after, hnext]
        exact hnone k (Nat.le_of_succ_le_succ hk)
    · rw [after, hnext]
      exact hend
    · rw [gains, hnext, hgain, Option.toList_some, ← List.append_assoc]
      rw [hsettings] at hexact
      exact hexact

/-- Texts that say formulas, and are not all blank, are accepted, and the search starts. -/
lemma exists_start_of_readFormulas? {inputs : List (String × Origin)} {fs : List Formula}
    (hread : readFormulas? (inputs.map Prod.fst) = some fs) (hne : fs ≠ []) (settings : Settings) :
    ∃ i cs, (Attempt.new settings).addAll inputs = .ok (.collecting i) ∧
      i.start = .ok (Search.initial settings cs) := by
  obtain ⟨i, hadd, hi⟩ := Attempt.exists_extends_addAll hread (.new settings)
  obtain rfl : i.pending.map PendingFormula.formula = fs := hi.pending
  obtain rfl : i.settings = settings := hi.settings
  have hpending : i.pending ≠ [] := fun hnil => hne (List.map_eq_nil_iff.mpr hnil)
  obtain ⟨cs, hcs⟩ := Intake.exists_clausesFrom_eq i.pending i.supply
  have hcs_ne := Intake.clausesFrom_ne_nil hpending hcs
  exact ⟨i, cs, hadd, Intake.start_eq hcs hcs_ne⟩

/-- Texts that say formulas, and are not all blank, are accepted, and the attempt comes to a verdict
after one step more than its ceiling on steps at most.  At no time are there more clauses than the
ceiling on clauses, or those given if they are more.  At the end, the formulas are refuted exactly
if the empty clause is registered.  The verdict is open exactly if it is not and there are as many
clauses as the ceiling allows, or as many rounds were run as the ceiling allows and all of them
registered something.  The formulas are not refuted exactly if a last round was run that registered
nothing. -/
theorem verdict_iff_of_readFormulas? {inputs : List (String × Origin)} {fs : List Formula}
    (hread : readFormulas? (inputs.map Prod.fst) = some fs) (hne : fs ≠ []) (settings : Settings) :
    ∃ i s, (Attempt.new settings).addAll inputs = .ok (.collecting i) ∧ i.start = .ok s ∧
      (∀ k, ((Attempt.collecting i).after k).registry.size ≤
        max settings.maxClauses s.registry.size) ∧
      ∃ n ≤ settings.maxSteps + 1, ∃ verdict last, (Attempt.collecting i).after n = last ∧
        (∀ k < n, ((Attempt.collecting i).after k).verdict? = none) ∧
        last.verdict? = some verdict ∧
        Attempt.outcome settings inputs = .ok (verdict, last.registry.log) ∧
        (verdict = .refuted ↔ last.registry.HasEmpty) ∧
        (verdict = .undetermined ↔ ¬ last.registry.HasEmpty ∧
          (settings.maxClauses ≤ last.registry.size ∨
            ((Attempt.collecting i).gains n).length = settings.maxSteps ∧
            ∀ g ∈ (Attempt.collecting i).gains n, 0 < g)) ∧
        (verdict = .notRefuted ↔ ((Attempt.collecting i).gains n).getLast? = some 0) := by
  obtain ⟨i, cs, hadd, hstart⟩ := exists_start_of_readFormulas? hread hne settings
  have hstep := Attempt.step_of_start hstart
  refine ⟨i, _, hadd, hstart, fun k => ?_, ?_⟩
  · cases k with
    | zero => exact Nat.zero_le _
    | succ k =>
      rw [Attempt.after, hstep]
      exact Attempt.size_after_searching_le (Nat.le_max_left _ _) (Nat.le_max_right _ _) (k + 1)
  · have hlength : ([] : List ℕ).length = (Search.initial settings cs).stepsMade := rfl
    obtain ⟨n, hn, hnone, hend, hexact⟩ := Attempt.exists_after_eq_finished hlength
      (fun _ hg => absurd hg List.not_mem_nil) (Nat.zero_le _)
    have hafter : (Attempt.collecting i).after (n + 1) =
        .finished (Search.initial settings cs).run.1 (Search.initial settings cs).run.2 := by
      rw [Attempt.after, hstep]
      exact hend
    have hgains : (Attempt.collecting i).gains (n + 1) =
        (Attempt.searching (Search.initial settings cs)).gains (n + 1) := by
      rw [Attempt.gains, Attempt.gains, Attempt.gain?_of_start hstart, hstep]
    rw [List.nil_append, ← hgains] at hexact
    refine ⟨n + 1, Nat.le_trans (Nat.le_add_left _ _) hn, _, _, hafter, fun k hk => ?_, rfl,
      Attempt.outcome_of_start hadd hstart, hexact.refuted_iff, hexact.undetermined_iff,
      hexact.notRefuted_iff⟩
    cases k with
    | zero => rfl
    | succ k =>
      have hnone' := hnone (k + 1) (Nat.le_of_lt_succ hk)
      rw [Attempt.after] at hnone' ⊢
      rw [hstep]
      exact hnone'

/-- The attempt at `P ∨ Q` and `¬P` ends, within its ceilings, with a round that registers
nothing. -/
theorem gains_orPQ_notP :
    readFormulas? ([("P ∨ Q", Origin.input), ("¬P", .input)].map Prod.fst) = some [orPQ, notP] ∧
      ∃ n ≤ 101, ((Attempt.collecting intakePQ).after n).verdict? = some .notRefuted ∧
        ((Attempt.collecting intakePQ).after n).registry.size ≤ 2000 ∧
        ((Attempt.collecting intakePQ).gains n).getLast? = some 0 := by
  have hread : readFormulas? ([("P ∨ Q", Origin.input), ("¬P", .input)].map Prod.fst) =
      some [orPQ, notP] := by
    rw [List.map_cons, readFormulas?, List.map_singleton, readFormulas?, readFormula?_orPQ,
      readFormula?_notP]
    rfl
  refine ⟨hread, ?_⟩
  obtain ⟨i, s, hadd, hstart, hsize, n, hn, verdict, last, hlast, -, hverdict, houtcome,
    -, -, hgains⟩ :=
    verdict_iff_of_readFormulas? hread (List.cons_ne_nil _ _) .standard
  obtain rfl : intakePQ = i :=
    Attempt.collecting.inj (Except.ok.inj (addAll_intakePQ.symm.trans hadd))
  obtain rfl : searchPQ = s := Except.ok.inj ((Intake.start_eq clausesFrom_intakePQ
    (List.cons_ne_nil _ _)).symm.trans hstart)
  have hrun : searchPQ.run.2 = .notRefuted := by
    rw [Search.run_of_step_none step_searchPQ, Search.run_of_step_some step_step_searchPQ]
  have hnotRefuted : verdict = .notRefuted := by
    rw [Attempt.outcome_of_start hadd hstart, hrun] at houtcome
    exact (Prod.mk.inj (Except.ok.inj houtcome)).1.symm
  refine ⟨n, hn, ?_, hsize n, hgains.mp hnotRefuted⟩
  rw [hlast, hverdict, hnotRefuted]

end Clausal
