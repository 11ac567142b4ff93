import Clausal.Proofs.BoundNames
import Clausal.Proofs.RoundTrip
import Clausal.Search.Attempt

/-!
# What an attempt takes in

An attempt that is given texts, all of which say a formula or are blank, accepts all of them.  Then
the formulas that wait for the search are those that the texts say, in order, and all their symbols
are kept out of the supply of Skolem symbols.  Starting the search registers the clauses of these
formulas under the numbers `0`, `1`, and so on.
-/

namespace Clausal

/-! ## The formulas that texts say -/

/-- The formula that a text says, if it can be read and lowered; a blank text says none. -/
def readFormula? (text : String) : Option (Option Formula) :=
  match Statement.parse text with
  | .error _ => none
  | .ok none => some none
  | .ok (some statement) => (Formula.ofStatement statement).toOption.map some

/-- The formulas that texts say, in order, if all of the texts can be read and lowered. -/
def readFormulas? : List String → Option (List Formula)
  | [] => some []
  | text :: rest => do
      let formula ← readFormula? text
      let formulas ← readFormulas? rest
      return formula.toList ++ formulas

/-- A text that says a formula is read as a statement that is lowered to the formula. -/
lemma exists_statement_of_readFormula? {text : String} {f : Formula}
    (h : readFormula? text = some (some f)) :
    ∃ st, Statement.parse text = .ok (some st) ∧ Formula.ofStatement st = .ok f := by
  unfold readFormula? at h
  split at h
  · cases h
  · cases h
  · rename_i st hparse
    refine ⟨st, hparse, ?_⟩
    cases hlower : Formula.ofStatement st with
    | error e =>
      rw [hlower] at h
      cases h
    | ok g =>
      rw [hlower] at h
      cases h
      rfl

/-- A text that is read as a statement says the formula that the statement is lowered to. -/
lemma readFormula?_of_parse {text : String} {st : Statement} {f : Formula}
    (hparse : Statement.parse text = .ok (some st)) (hlower : Formula.ofStatement st = .ok f) :
    readFormula? text = some (some f) := by
  rw [readFormula?, hparse]
  dsimp only
  rw [hlower]
  rfl

/-- The text of a statement says the formula that the statement is lowered to. -/
lemma readFormula?_of_text_eq {st : Statement} {text : String} {f : Formula}
    (htext : st.text = text) (hlower : Formula.ofStatement st = .ok f) (h : st.IsReadable)
    (hfits : st.textLevels < Statement.maxNesting) (hapart : ∀ a ∈ st.atoms, ¬ a.RunsTogether) :
    readFormula? text = some (some f) := by
  rw [← htext]
  exact readFormula?_of_parse (h.parse_text hfits hapart) hlower

/-- A text that says no formula is read as blank. -/
lemma parse_of_readFormula?_none {text : String} (h : readFormula? text = some none) :
    Statement.parse text = .ok none := by
  unfold readFormula? at h
  split at h
  · cases h
  · rename_i hparse
    exact hparse
  · rename_i st hparse
    obtain ⟨f, -, hf⟩ := Option.map_eq_some_iff.mp h
    cases hf

/-- Texts say formulas when the first text says one or is blank and the others say the rest. -/
lemma readFormulas?_cons {text : String} {rest : List String} {fs : List Formula}
    (h : readFormulas? (text :: rest) = some fs) :
    ∃ f gs, readFormula? text = some f ∧ readFormulas? rest = some gs ∧ fs = f.toList ++ gs := by
  obtain ⟨f, hf, h⟩ := Option.bind_eq_some_iff.mp h
  obtain ⟨gs, hgs, h⟩ := Option.bind_eq_some_iff.mp h
  exact ⟨f, gs, hf, hgs, (Option.some.inj h).symm⟩

/-- Texts that say formulas or are blank say all of these formulas. -/
lemma exists_readFormulas? {texts : List String} (h : ∀ text ∈ texts, (readFormula? text).isSome) :
    ∃ fs, readFormulas? texts = some fs ∧
      ∀ f, f ∈ fs ↔ ∃ text ∈ texts, readFormula? text = some (some f) := by
  induction texts with
  | nil => exact ⟨[], rfl, fun f => by simp⟩
  | cons text rest ih =>
    obtain ⟨htext, hrest⟩ := List.forall_mem_cons.mp h
    obtain ⟨o, ho⟩ := Option.isSome_iff_exists.mp htext
    obtain ⟨fs, hfs, hmem⟩ := ih hrest
    refine ⟨o.toList ++ fs, ?_, fun f => ?_⟩
    · rw [readFormulas?, ho, hfs]
      rfl
    · rw [List.mem_append, Option.mem_toList, List.exists_mem_cons_iff, hmem, ho, Option.some.injEq]

/-- The formulas that texts say have plain binders. -/
lemma hasPlainBinders_of_readFormulas? {texts : List String} {fs : List Formula}
    (h : readFormulas? texts = some fs) : ∀ f ∈ fs, f.HasPlainBinders := by
  induction texts generalizing fs with
  | nil =>
    cases h
    exact fun f hf => absurd hf List.not_mem_nil
  | cons text rest ih =>
    obtain ⟨f, gs, hf, hgs, rfl⟩ := readFormulas?_cons h
    intro g hg
    rcases List.mem_append.mp hg with hg | hg
    · rw [Option.mem_toList.mp hg] at hf
      obtain ⟨st, hparse, hlower⟩ := exists_statement_of_readFormula? hf
      exact Formula.hasPlainBinders_of_parse hparse hlower
    · exact ih hgs g hg

/-! ## Collecting -/

namespace Intake

/-- The intake `j` has, besides what `i` has, the formulas `fs`, and no symbol of them may be used
as a Skolem symbol. -/
structure Extends (i : Intake) (fs : List Formula) (j : Intake) : Prop where
  settings : j.settings = i.settings
  pending : j.pending.map PendingFormula.formula = i.pending.map PendingFormula.formula ++ fs
  reserved : i.supply.reserved ⊆ j.supply.reserved
  symbols : ∀ f ∈ fs, f.symbols ⊆ j.supply.reserved

/-- Taking in formulas one after the other. -/
lemma Extends.trans {i j k : Intake} {fs gs : List Formula} (h : i.Extends fs j)
    (h' : j.Extends gs k) : i.Extends (fs ++ gs) k where
  settings := h'.settings.trans h.settings
  pending := by rw [h'.pending, h.pending, List.append_assoc]
  reserved := List.Subset.trans h.reserved h'.reserved
  symbols f hf := by
    rcases List.mem_append.mp hf with hf | hf
    · exact List.Subset.trans (h.symbols f hf) h'.reserved
    · exact h'.symbols f hf

/-- A text that says a formula is accepted, the formula waits, and its symbols are reserved. -/
lemma add_of_readFormula? (i : Intake) {text : String} {f : Formula}
    (h : readFormula? text = some (some f)) (origin : Origin) :
    i.add text origin =
      (.ok (),
        { i with
          supply := i.supply.reserve f
          pending := i.pending ++ [{ number := i.count + 1, text, origin, formula := f }]
          count := i.count + 1 }) := by
  obtain ⟨st, hparse, hlower⟩ := exists_statement_of_readFormula? h
  rw [add, hparse]
  simp only [hlower]

/-- Taking in a text, whether it succeeds or fails, keeps the settings. -/
lemma settings_add (i : Intake) (text : String) (origin : Origin) :
    (i.add text origin).2.settings = i.settings := by
  unfold add
  split
  · rfl
  · rfl
  · split <;> rfl

/-- Every text that is taken in is counted. -/
lemma count_add (i : Intake) (text : String) (origin : Origin) :
    (i.add text origin).2.count = i.count + 1 := by
  unfold add
  split
  · rfl
  · rfl
  · split <;> rfl

/-- A text that is accepted says a formula or is blank. -/
lemma isSome_readFormula?_of_add {i : Intake} {text : String} {origin : Origin}
    (h : (i.add text origin).1 = .ok ()) : (readFormula? text).isSome := by
  unfold add at h
  cases hparse : Statement.parse text with
  | error e =>
    rw [hparse] at h
    cases h
  | ok o =>
    cases o with
    | none =>
      rw [readFormula?, hparse]
      rfl
    | some st =>
      cases hlower : Formula.ofStatement st with
      | error e =>
        simp only [hparse, hlower] at h
        cases h
      | ok f =>
        rw [readFormula?_of_parse hparse hlower]
        rfl

/-- A text that says a formula or is blank is accepted. -/
lemma exists_extends_add (i : Intake) {text : String} {f : Option Formula}
    (h : readFormula? text = some f) (origin : Origin) :
    ∃ j, i.add text origin = (.ok (), j) ∧ i.Extends f.toList j := by
  cases f with
  | none =>
    refine ⟨{ i with count := i.count + 1 }, ?_, rfl, ?_, List.Subset.refl _, ?_⟩
    · rw [add, parse_of_readFormula?_none h]
    · exact (List.append_nil _).symm
    · exact fun f hf => absurd hf List.not_mem_nil
  | some f =>
    refine ⟨_, i.add_of_readFormula? h origin, rfl, ?_, ?_, ?_⟩
    · exact List.map_append
    · exact List.subset_append_right _ _
    · intro g hg
      obtain rfl := Option.some.inj (Option.mem_toList.mp hg)
      exact List.subset_append_left _ _

end Intake

/-- An attempt that collects takes in a text that says a formula and goes on with the other
texts. -/
lemma Attempt.addAll_cons_of_readFormula? (i : Intake) {text : String} {f : Formula}
    (h : readFormula? text = some (some f)) (origin : Origin) (rest : List (String × Origin)) :
    (collecting i).addAll ((text, origin) :: rest) =
      (collecting
        { i with
          supply := i.supply.reserve f
          pending := i.pending ++ [{ number := i.count + 1, text, origin, formula := f }]
          count := i.count + 1 }).addAll rest := by
  rw [addAll, add, i.add_of_readFormula? h]

/-- Texts that say formulas are all accepted while an attempt collects. -/
lemma Attempt.exists_extends_addAll {inputs : List (String × Origin)} {fs : List Formula}
    (h : readFormulas? (inputs.map Prod.fst) = some fs) (i : Intake) :
    ∃ j, (Attempt.collecting i).addAll inputs = .ok (.collecting j) ∧ i.Extends fs j := by
  induction inputs generalizing i fs with
  | nil =>
    cases h
    exact ⟨i, rfl, rfl, (List.append_nil _).symm, List.Subset.refl _,
      fun f hf => absurd hf List.not_mem_nil⟩
  | cons input rest ih =>
    obtain ⟨text, origin⟩ := input
    obtain ⟨f, gs, hf, hgs, rfl⟩ := readFormulas?_cons h
    obtain ⟨j, hadd, hj⟩ := i.exists_extends_add hf origin
    obtain ⟨k, haddAll, hk⟩ := ih hgs j
    refine ⟨k, ?_, hj.trans hk⟩
    rw [addAll, add, hadd]
    exact haddAll

/-- An attempt that accepts texts still collects, has counted them, and each of them says a formula
or is blank. -/
lemma Attempt.exists_collecting_of_addAll {inputs : List (String × Origin)}
    {i : Intake} {a : Attempt} (h : (Attempt.collecting i).addAll inputs = .ok a) :
    ∃ j, a = .collecting j ∧ j.count = i.count + inputs.length ∧
      ∀ input ∈ inputs, (readFormula? input.1).isSome := by
  induction inputs generalizing i with
  | nil =>
    cases h
    exact ⟨i, rfl, rfl, fun input hinput => absurd hinput List.not_mem_nil⟩
  | cons input rest ih =>
    obtain ⟨text, origin⟩ := input
    rw [addAll, add] at h
    cases hadd : i.add text origin with
    | mk result i' =>
      rw [hadd] at h
      cases result with
      | error e => cases h
      | ok _ =>
        obtain ⟨j, rfl, hcount, hrest⟩ := ih h
        have hone := i.count_add text origin
        rw [hadd] at hone
        refine ⟨j, rfl, ?_, List.forall_mem_cons.mpr ⟨?_, hrest⟩⟩
        · rw [hcount, hone, List.length_cons, Nat.add_right_comm, Nat.add_assoc]
        · exact Intake.isSome_readFormula?_of_add (congrArg Prod.fst hadd)

/-- Taking in texts one part after the other. -/
lemma Attempt.addAll_append {inputs : List (String × Origin)} {a b : Attempt}
    (h : a.addAll inputs = .ok b) (rest : List (String × Origin)) :
    a.addAll (inputs ++ rest) = b.addAll rest := by
  induction inputs generalizing a with
  | nil =>
    cases h
    rfl
  | cons input inputs ih =>
    obtain ⟨text, origin⟩ := input
    rw [List.cons_append, addAll]
    rw [addAll] at h
    split at h
    · cases h
    · exact ih h

/-! ## Starting -/

/-- Registering clauses one after the other registers their literals. -/
lemma Registry.literals_foldl_register (cs : List Clause) (r : Registry) :
    (cs.foldl Registry.register r).clauses.toList.map Clause.literals =
      r.clauses.toList.map Clause.literals ++ cs.map Clause.literals := by
  induction cs generalizing r with
  | nil => exact (List.append_nil _).symm
  | cons c cs ih =>
    have hpush : (r.register c).clauses.toList.map Clause.literals =
        r.clauses.toList.map Clause.literals ++ [c.literals] := by
      rw [Registry.register, Array.toList_push, List.map_append, List.map_singleton]
    rw [List.foldl_cons, ih, hpush, List.append_assoc, List.map_cons, List.singleton_append]

/-- The search with which an attempt at the given clauses starts. -/
def Search.initial (settings : Settings) (cs : List Clause) : Search :=
  let registry := cs.foldl Registry.register .empty
  { settings
    registry := registry.note (.initial registry.records)
    stepsMade := 0
    paired := 0 }

/-- The literals of the clauses with which a search starts. -/
lemma Search.literals_initial (settings : Settings) (cs : List Clause) :
    (initial settings cs).registry.clauses.toList.map Clause.literals = cs.map Clause.literals :=
  Registry.literals_foldl_register cs .empty

/-- A search starts with the clauses of the formulas, if there are any. -/
lemma Intake.start_eq {i : Intake} {cs : List Clause}
    (h : clausesFrom i.pending i.supply = .ok cs) (hne : cs ≠ []) :
    i.start = .ok (Search.initial i.settings cs) := by
  rw [start, h]
  exact if_neg (fun hempty => hne (List.isEmpty_iff.mp hempty))

/-- Every search that starts is of this kind. -/
lemma Intake.exists_eq_initial_of_start {i : Intake} {s : Search} (h : i.start = .ok s) :
    ∃ cs, s = Search.initial i.settings cs := by
  unfold start at h
  split at h
  · cases h
  · split at h
    · cases h
    · exact ⟨_, (Except.ok.inj h).symm⟩

/-! ## Whole attempts -/

namespace Attempt

/-- What comes of an attempt at texts: they are taken in one after the other and the attempt
runs. -/
def outcome (settings : Settings) (inputs : List (String × Origin)) :
    Except ProveError (Verdict × ProofLog) :=
  (new settings).addAll inputs >>= run

/-- An attempt whose search starts comes to what the run of the search comes to. -/
lemma outcome_of_start {settings : Settings} {inputs : List (String × Origin)} {i : Intake}
    {s : Search} (hadd : (new settings).addAll inputs = .ok (.collecting i))
    (hstart : i.start = .ok s) :
    outcome settings inputs = .ok (s.run.2, s.run.1.registry.log) := by
  rw [outcome, hadd]
  change (i.start.map fun s => run.ofRun s.run) = _
  rw [hstart]
  rfl

/-- An attempt at blank texts fails, as there is nothing to refute. -/
lemma outcome_of_nil {settings : Settings} {inputs : List (String × Origin)}
    (h : readFormulas? (inputs.map Prod.fst) = some []) :
    outcome settings inputs = .error .nothingToRefute := by
  obtain ⟨i, hadd, hi⟩ := exists_extends_addAll h (.new settings)
  have hpending : i.pending = [] := List.map_eq_nil_iff.mp hi.pending
  have hstart : i.start = .error .nothingToRefute := by
    rw [Intake.start, hpending]
    rfl
  rw [outcome, new, hadd]
  change (i.start.map fun s => run.ofRun s.run) = _
  rw [hstart]
  rfl

/-- Proving is an attempt at the premises. -/
lemma prove_eq_outcome (settings : Settings) (formulas : List String) :
    prove settings formulas = outcome settings (premises formulas) :=
  rfl

/-- Proving a goal is an attempt at the premises and the negated goal. -/
lemma proveGoal_eq_outcome (settings : Settings) (formulas : List String) (goal : String) :
    proveGoal settings formulas goal =
      outcome settings (premises formulas ++ [(negatedGoalText goal, .negatedGoal)]) :=
  rfl

end Attempt

end Clausal
