import Clausal.Proofs.Clausification
import Clausal.Proofs.Saturation
import Mathlib.Data.List.Induction

/-!
# Sequences of calls

An attempt is used by calls that take in a text or make a step, in any order, and that may fail.
What an attempt has become can be read off the calls.  It still collects exactly if no step has
succeeded.  Then it holds, in order, the formulas that the texts of the calls say, each under the
number of its text among all texts offered; texts that are blank or cannot be read are counted and
leave nothing else behind.

The attempts that can be reached are those after some calls, and the pairs of clauses resolved on
the way are those that these calls resolve.
-/

namespace Clausal

/-! ## Taking in a text -/

/-- A text holds no statement exactly if all its characters are blank. -/
lemma Statement.parse_eq_ok_none_iff {text : String} :
    parse text = .ok none ↔ ∀ c ∈ text.toList, Text.isBlank c = true := by
  have hblank : (Span.trim ⟨0, text.toList⟩).chars.isEmpty = true ↔
      ∀ c ∈ text.toList, Text.isBlank c = true :=
    List.isEmpty_iff.trans Text.trim_eq_nil_iff
  unfold parse
  simp only
  cases hunmatched : Span.unmatched? ⟨0, text.toList⟩ with
  | some position =>
    refine ⟨fun h => ?_, fun h => ?_⟩
    · cases h
    · have hbalanced : Span.unmatched? ⟨0, text.toList⟩ = none :=
        Span.unmatched?_eq_none_iff.mpr
          (Text.balanced_of_forall_notMem_marks fun c hc => Text.notMem_marks_of_isBlank (h c hc))
      rw [hunmatched] at hbalanced
      cases hbalanced
  | none =>
    rw [← hblank]
    simp only
    split
    · rename_i hempty
      exact ⟨fun _ => hempty, fun _ => rfl⟩
    · rename_i hempty
      refine ⟨fun h => ?_, fun h => absurd h hempty⟩
      obtain ⟨st, -, hst⟩ := map_eq_ok h
      cases hst

/-- A text says no formula, and is accepted, exactly if all its characters are blank. -/
lemma readFormula?_eq_some_none_iff {text : String} :
    readFormula? text = some none ↔ ∀ c ∈ text.toList, Text.isBlank c = true := by
  rw [← Statement.parse_eq_ok_none_iff]
  refine ⟨parse_of_readFormula?_none, fun h => ?_⟩
  rw [readFormula?, h]

namespace Intake

/-- A text that is taken in fails for a fault of its own, or is blank, or says a formula, which
waits from then on with its symbols reserved. -/
lemma add_cases (i : Intake) (text : String) (origin : Origin) :
    readFormula? text = none ∧
        (∃ e, i.add text origin = (.error e, { i with count := i.count + 1 }) ∧
          ((∃ cause, e = .badFormula (i.count + 1) text cause) ∨
            ∃ cause, e = .noClauseForm (i.count + 1) text cause)) ∨
      readFormula? text = some none ∧
        i.add text origin = (.ok (), { i with count := i.count + 1 }) ∨
      ∃ f, readFormula? text = some (some f) ∧
        i.add text origin =
          (.ok (),
            { i with
              supply := i.supply.reserve f
              pending := i.pending ++ [{ number := i.count + 1, text, origin, formula := f }]
              count := i.count + 1 }) := by
  unfold add readFormula?
  cases Statement.parse text with
  | error e => exact Or.inl ⟨rfl, _, rfl, Or.inl ⟨e, rfl⟩⟩
  | ok o =>
    cases o with
    | none => exact Or.inr (Or.inl ⟨rfl, rfl⟩)
    | some st =>
      dsimp only
      cases Formula.ofStatement st with
      | error e => exact Or.inl ⟨rfl, _, rfl, Or.inr ⟨e, rfl⟩⟩
      | ok f => exact Or.inr (Or.inr ⟨f, rfl, rfl⟩)

/-- What is known of the formulas that wait: they are the given ones, in order, their numbers rise
up to the number of texts offered, and their symbols are reserved. -/
structure Collects (i : Intake) (fs : List Formula) : Prop where
  formulas : i.pending.map PendingFormula.formula = fs
  numbers : (i.pending.map PendingFormula.number).Pairwise (· < ·)
  number_le : ∀ p ∈ i.pending, p.number ≤ i.count
  symbols : ∀ p ∈ i.pending, p.formula.symbols ⊆ i.supply.reserved

/-- Nothing waits at first. -/
lemma collects_new (settings : Settings) : (new settings).Collects [] where
  formulas := rfl
  numbers := List.Pairwise.nil
  number_le _ hp := absurd hp List.not_mem_nil
  symbols _ hp := absurd hp List.not_mem_nil

/-- Counting a text changes nothing else. -/
lemma Collects.count {i : Intake} {fs : List Formula} (h : i.Collects fs) :
    Collects { i with count := i.count + 1 } fs :=
  ⟨h.formulas, h.numbers, fun p hp => Nat.le_succ_of_le (h.number_le p hp), h.symbols⟩

/-- A formula that is taken in waits after the others. -/
lemma Collects.append {i : Intake} {fs : List Formula} (h : i.Collects fs) (text : String)
    (origin : Origin) (f : Formula) :
    Collects
      { i with
        supply := i.supply.reserve f
        pending := i.pending ++ [{ number := i.count + 1, text, origin, formula := f }]
        count := i.count + 1 } (fs ++ [f]) where
  formulas := by rw [List.map_append, h.formulas, List.map_singleton]
  numbers := by
    rw [List.map_append, List.map_singleton, List.pairwise_append]
    refine ⟨h.numbers, List.pairwise_singleton _ _, fun m hm n hn => ?_⟩
    obtain ⟨p, hp, rfl⟩ := List.mem_map.mp hm
    rw [List.mem_singleton.mp hn]
    exact Nat.lt_succ_of_le (h.number_le p hp)
  number_le := by
    rw [List.forall_mem_append, List.forall_mem_singleton]
    exact ⟨fun p hp => Nat.le_succ_of_le (h.number_le p hp), Nat.le_refl _⟩
  symbols := by
    rw [List.forall_mem_append, List.forall_mem_singleton]
    refine ⟨fun p hp => ?_, List.subset_append_left _ _⟩
    exact List.Subset.trans (h.symbols p hp) (List.subset_append_right _ _)

/-- Taking in a text adds the formula that it says, if there is one. -/
lemma Collects.add {i : Intake} {fs : List Formula} (h : i.Collects fs) (text : String)
    (origin : Origin) :
    (i.add text origin).2.Collects (fs ++ (readFormula? text).join.toList) := by
  obtain ⟨hread, e, hadd, -⟩ | ⟨hread, hadd⟩ | ⟨f, hread, hadd⟩ := i.add_cases text origin
  · rw [hread, hadd, Option.join_none, Option.toList_none, List.append_nil]
    exact h.count
  · rw [hread, hadd, Option.join_some, Option.toList_none, List.append_nil]
    exact h.count
  · rw [hread, hadd, Option.join_some, Option.toList_some]
    exact h.append text origin f

/-- The search fails to start only if no formula waits, for want of anything to refute. -/
lemma start_eq_error_iff {i : Intake} {e : ProveError} :
    i.start = .error e ↔ e = .nothingToRefute ∧ i.pending = [] := by
  obtain ⟨cs, hcs⟩ := exists_clausesFrom_eq i.pending i.supply
  by_cases hpending : i.pending = []
  · rw [start, hpending]
    exact ⟨fun h => ⟨(Except.error.inj h).symm, rfl⟩, fun h => congrArg Except.error h.1.symm⟩
  · rw [start_eq hcs (clausesFrom_ne_nil hpending hcs)]
    refine ⟨fun h => ?_, fun h => absurd h.2 hpending⟩
    cases h

end Intake

/-! ## Calls -/

/-- What can be asked of an attempt. -/
inductive Call where
  | add (text : String) (origin : Origin)
  | step
deriving DecidableEq, Repr

/-- The formula that the text of a call says. -/
def Call.formula? : Call → Option Formula
  | .add text _ => (readFormula? text).join
  | .step => none

namespace Attempt

/-- The attempt after a call. -/
def call (a : Attempt) : Call → Attempt
  | .add text origin => (a.add text origin).2
  | .step => a.step.2

/-- The attempt after calls, made one after the other whether they succeed or fail. -/
def afterCalls (settings : Settings) (calls : List Call) : Attempt :=
  calls.foldl call (new settings)

/-- A call that is made after others takes in a text that is not blank. -/
def TakesIn (settings : Settings) (before : List Call) : Call → Prop
  | .add text origin =>
      ((afterCalls settings before).add text origin).1 = .ok () ∧
        ∃ c ∈ text.toList, Text.isBlank c = false
  | .step => False

/-- A call that is made after others is a step that succeeds. -/
def StepSucceeds (settings : Settings) (before : List Call) : Call → Prop
  | .add _ _ => False
  | .step => ∃ verdict?, (afterCalls settings before).step.1 = .ok verdict?

end Attempt

/-- One of the calls, made after those before it, is of the given kind. -/
def SomeCall (P : List Call → Call → Prop) (calls : List Call) : Prop :=
  ∃ before c after, calls = before ++ c :: after ∧ P before c

/-- Without calls there is none of any kind. -/
lemma not_someCall_nil (P : List Call → Call → Prop) : ¬ SomeCall P [] := by
  rintro ⟨before, c, after, hnil, -⟩
  exact List.append_ne_nil_of_right_ne_nil _ (List.cons_ne_nil _ _) hnil.symm

/-- One more call is of the given kind, or one before it is. -/
lemma someCall_append_singleton {P : List Call → Call → Prop} {calls : List Call} {c : Call} :
    SomeCall P (calls ++ [c]) ↔ SomeCall P calls ∨ P calls c := by
  constructor
  · rintro ⟨before, d, after, happend, hP⟩
    rcases List.eq_nil_or_concat after with rfl | ⟨after, e, rfl⟩
    · obtain ⟨rfl, hd⟩ := List.append_inj' happend rfl
      rw [List.singleton_inj.mp hd]
      exact Or.inr hP
    · rw [List.concat_eq_append, ← List.cons_append, ← List.append_assoc] at happend
      obtain ⟨rfl, -⟩ := List.append_inj' happend rfl
      exact Or.inl ⟨before, d, after, rfl, hP⟩
  · rintro (⟨before, d, after, rfl, hP⟩ | hP)
    · exact ⟨before, d, after ++ [c], by rw [List.append_assoc, List.cons_append], hP⟩
    · exact ⟨calls, c, [], rfl, hP⟩

namespace Attempt

variable {settings : Settings} {calls : List Call}

/-- One more call. -/
lemma afterCalls_append_singleton (c : Call) :
    afterCalls settings (calls ++ [c]) = (afterCalls settings calls).call c := by
  rw [afterCalls, List.foldl_append]
  rfl

/-- What an attempt is after calls: while no step has succeeded it collects, and formulas wait
exactly if a text that is not blank was taken in; after that it collects no more. -/
inductive Phase (settings : Settings) (calls : List Call) : Attempt → Prop where
  | collecting {i : Intake} (collects : i.Collects (calls.filterMap Call.formula?))
      (notStarted : ¬ SomeCall (StepSucceeds settings) calls)
      (takenIn : SomeCall (TakesIn settings) calls ↔ i.pending ≠ []) :
      Phase settings calls (.collecting i)
  | started {a : Attempt} (notCollecting : ∀ i, a ≠ .collecting i)
      (started : SomeCall (StepSucceeds settings) calls)
      (takenIn : SomeCall (TakesIn settings) calls) :
      Phase settings calls a

/-- An attempt that makes a step of a search does not collect any more. -/
lemma ofStep_ne_collecting (result : Search × Option Verdict) (i : Intake) :
    (ofStep result).2 ≠ .collecting i := by
  obtain ⟨s, verdict?⟩ := result
  cases verdict? with
  | none => exact Attempt.noConfusion
  | some verdict => exact Attempt.noConfusion

/-- A step of a search succeeds. -/
lemma exists_ofStep_eq_ok (result : Search × Option Verdict) :
    ∃ verdict?, (ofStep result).1 = .ok verdict? := by
  obtain ⟨s, verdict?⟩ := result
  cases verdict? with
  | none => exact ⟨_, rfl⟩
  | some verdict => exact ⟨_, rfl⟩

/-- Taking in a text while an attempt collects: it collects the formula that the text says, if
any. -/
lemma Phase.add_collecting {i : Intake} (h : Phase settings calls (.collecting i))
    (hcalls : afterCalls settings calls = .collecting i) (text : String) (origin : Origin) :
    Phase settings (calls ++ [.add text origin]) (.collecting (i.add text origin).2) := by
  cases h with
  | started notCollecting _ _ => exact absurd rfl (notCollecting i)
  | collecting hcollects hnot htaken =>
    refine .collecting ?_ ?_ ?_
    · rw [List.filterMap_append]
      exact hcollects.add text origin
    · rw [someCall_append_singleton, not_or]
      exact ⟨hnot, id⟩
    · have htext : TakesIn settings calls (.add text origin) ↔
          (i.add text origin).1 = .ok () ∧ ∃ c ∈ text.toList, Text.isBlank c = false := by
        rw [TakesIn, hcalls]
        rfl
      rw [someCall_append_singleton, htaken, htext]
      obtain ⟨-, e, hadd, -⟩ | ⟨hread, hadd⟩ | ⟨f, hread, hadd⟩ := i.add_cases text origin
      · rw [hadd]
        simp
      · rw [hadd, or_iff_left]
        rintro ⟨-, c, hc, hblank⟩
        rw [readFormula?_eq_some_none_iff.mp hread c hc] at hblank
        cases hblank
      · rw [hadd]
        refine ⟨fun _ => List.append_ne_nil_of_right_ne_nil _ (List.cons_ne_nil _ _), fun _ => ?_⟩
        refine Or.inr ⟨rfl, ?_⟩
        -- a text that says a formula is not blank
        by_contra hblank
        have hnone : readFormula? text = some none := by
          refine readFormula?_eq_some_none_iff.mpr fun c hc => ?_
          by_contra hc'
          exact hblank ⟨c, hc, Bool.eq_false_iff.mpr hc'⟩
        rw [hread] at hnone
        cases hnone

/-- Making a step while an attempt collects: the search starts if a formula waits, and nothing
changes if none does. -/
lemma Phase.step_collecting {i : Intake} (h : Phase settings calls (.collecting i))
    (hcalls : afterCalls settings calls = .collecting i) :
    Phase settings (calls ++ [.step]) (Attempt.step (.collecting i)).2 := by
  cases h with
  | started notCollecting _ _ => exact absurd rfl (notCollecting i)
  | collecting hcollects hnot htaken =>
    have hstep : StepSucceeds settings calls .step ↔
        ∃ verdict?, (Attempt.step (.collecting i)).1 = .ok verdict? := by
      rw [StepSucceeds, hcalls]
    have htaken' : SomeCall (TakesIn settings) (calls ++ [.step]) ↔ i.pending ≠ [] := by
      rw [someCall_append_singleton, ← htaken]
      exact or_iff_left id
    rw [Attempt.step] at hstep ⊢
    cases hstart : i.start with
    | error e =>
      rw [hstart] at hstep
      refine .collecting ?_ ?_ htaken'
      · rw [List.filterMap_append]
        exact (List.append_nil _).symm ▸ hcollects
      · rw [someCall_append_singleton, not_or, hstep]
        refine ⟨hnot, ?_⟩
        rintro ⟨verdict?, hverdict⟩
        cases hverdict
    | ok s =>
      rw [hstart] at hstep
      have hpending : i.pending ≠ [] := by
        intro hnil
        rw [Intake.start_eq_error_iff.mpr ⟨rfl, hnil⟩] at hstart
        cases hstart
      refine .started (ofStep_ne_collecting _) ?_ (htaken'.mpr hpending)
      rw [someCall_append_singleton, hstep]
      exact Or.inr (exists_ofStep_eq_ok _)

/-- A call to an attempt that does not collect any more leaves it so. -/
lemma call_ne_collecting {a : Attempt} (h : ∀ i, a ≠ .collecting i) (c : Call) (i : Intake) :
    a.call c ≠ .collecting i := by
  cases a with
  | collecting i => exact absurd rfl (h i)
  | searching s =>
    cases c with
    | add text origin => exact h i
    | step => exact ofStep_ne_collecting _ i
  | finished s verdict =>
    cases c with
    | add text origin => exact h i
    | step => exact h i

/-- The calls tell the phase of an attempt. -/
lemma phase_afterCalls (settings : Settings) (calls : List Call) :
    Phase settings calls (afterCalls settings calls) := by
  induction calls using List.reverseRecOn with
  | nil =>
    refine .collecting (Intake.collects_new settings) (not_someCall_nil _) ?_
    exact iff_of_false (not_someCall_nil _) fun hne => hne rfl
  | append_singleton calls c ih =>
    rw [afterCalls_append_singleton]
    generalize hcalls : afterCalls settings calls = a at ih ⊢
    cases ih with
    | collecting hcollects hnot htaken =>
      have hphase := Phase.collecting hcollects hnot htaken
      cases c with
      | add text origin => exact hphase.add_collecting hcalls text origin
      | step => exact hphase.step_collecting hcalls
    | started hne hstarted htaken =>
      refine .started (call_ne_collecting hne c) ?_ ?_
      · exact someCall_append_singleton.mpr (Or.inl hstarted)
      · exact someCall_append_singleton.mpr (Or.inl htaken)

/-! ## Attempts that can be reached -/

/-- The pairs of clauses whose resolvents a call asks for. -/
def resolvedInCall (a : Attempt) : Call → List ParentPair
  | .add _ _ => []
  | .step => a.resolvedInStep

/-- The pairs of clauses whose resolvents calls ask for, made one after the other. -/
def resolvedInCalls : Attempt → List Call → List ParentPair
  | _, [] => []
  | a, c :: calls => a.resolvedInCall c ++ (a.call c).resolvedInCalls calls

/-- One more call. -/
lemma resolvedInCalls_append_singleton (a : Attempt) (calls : List Call) (c : Call) :
    a.resolvedInCalls (calls ++ [c]) =
      a.resolvedInCalls calls ++ (calls.foldl call a).resolvedInCall c := by
  induction calls generalizing a with
  | nil => exact List.append_nil _
  | cons d calls ih =>
    rw [List.cons_append, resolvedInCalls, ih, resolvedInCalls, List.append_assoc, List.foldl_cons]

/-- An attempt can be reached exactly if it is what calls lead to, with the pairs of clauses that
these calls resolve. -/
lemma reached_iff_exists_calls {a : Attempt} {tried : List ParentPair} :
    Reached settings a tried ↔
      ∃ calls, afterCalls settings calls = a ∧ (new settings).resolvedInCalls calls = tried := by
  have hcall : ∀ calls (c : Call), (new settings).resolvedInCalls (calls ++ [c]) =
      (new settings).resolvedInCalls calls ++ (afterCalls settings calls).resolvedInCall c :=
    resolvedInCalls_append_singleton (new settings)
  constructor
  · intro h
    induction h with
    | new => exact ⟨[], rfl, rfl⟩
    | add _ text origin ih =>
      obtain ⟨calls, rfl, rfl⟩ := ih
      exact ⟨calls ++ [.add text origin], afterCalls_append_singleton _,
        (hcall _ _).trans (List.append_nil _)⟩
    | step _ ih =>
      obtain ⟨calls, rfl, rfl⟩ := ih
      exact ⟨calls ++ [.step], afterCalls_append_singleton _, hcall _ _⟩
  · rintro ⟨calls, rfl, rfl⟩
    induction calls using List.reverseRecOn with
    | nil => exact Reached.new
    | append_singleton calls c ih =>
      rw [afterCalls_append_singleton, hcall]
      cases c with
      | add text origin =>
        rw [resolvedInCall, List.append_nil]
        exact ih.add text origin
      | step => exact ih.step

end Attempt

end Clausal
