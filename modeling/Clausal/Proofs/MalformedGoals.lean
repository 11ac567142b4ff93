import Clausal.Proofs.Ceilings
import Clausal.Proofs.DeeperReading
import Clausal.Proofs.RoundTrip

/-!
# Goals that cannot be read

A goal is negated as a text, by a negation sign and parentheses around it, and only the text that
results is read.  If the parentheses of the goal are balanced, then its negation cannot be read if
the goal cannot, and the fault is the same unless two more levels are too many.

A goal whose parentheses are not balanced may close the one that is put before it and open the one
that is closed after it.  The text of its negation is then balanced, and what the negation sign
governs ends inside the goal: `¬(P) ∧ (P)` is read for `P) ∧ (P`.  `Escapes` describes these goals.
Among the goals that cannot be read they are the only ones that are ever given a verdict.
-/

namespace Clausal

open Text

namespace Statement

/-! ## Reading the negation of a goal -/

/-- A goal closes the parenthesis before it.  The text inside is read as `l`, only blanks separate
it from a connective, and the text from there to the parenthesis after the goal is read as `r`. -/
def Escapes (goal : String) (op : Connective) (l r : Statement) : Prop :=
  ∃ inside gap outside : List Char,
    goal.toList = inside ++ ')' :: (gap ++ op.symbol :: outside) ∧ Balanced inside ∧
    (∀ c ∈ gap, isBlank c = true) ∧ Balanced (outside ++ [')']) ∧
    readSpan ⟨0, inside⟩ 3 = .ok l ∧ readSpan ⟨0, outside ++ [')']⟩ 1 = .ok r

variable {goal : String} {op : Connective} {l r st : Statement} {start : ℕ}
  {u w outside : List Char} {o : Option Statement} {e : ParseError}

lemma toList_negatedGoalText (goal : String) :
    (negatedGoalText goal).toList = '¬' :: ('(' :: goal.toList ++ [')']) := by
  rw [negatedGoalText, String.toList_append, String.toList_append]
  rfl

/-- A text that is read has balanced parentheses. -/
lemma balanced_of_parse {text : String} (h : parse text = .ok o) : Balanced text.toList := by
  unfold parse at h
  simp only at h
  split at h
  · cases h
  · rename_i hmatched
    exact Span.unmatched?_eq_none_iff.mp hmatched

/-- A text is not read because of its parentheses, or because of what is between them. -/
lemma parse_eq_error_cases {text : String} (h : parse text = .error e) :
    ¬ Balanced text.toList ∧ e.fault = .unbalancedParenthesis ∨
      Balanced text.toList ∧ readSpan ⟨0, text.toList⟩ 0 = .error e := by
  unfold parse at h
  simp only at h
  split at h
  · rename_i position hposition
    cases h
    refine Or.inl ⟨fun hbalanced => ?_, rfl⟩
    rw [Span.unmatched?_eq_none_iff.mpr hbalanced] at hposition
    cases hposition
  · rename_i hmatched
    refine Or.inr ⟨Span.unmatched?_eq_none_iff.mp hmatched, ?_⟩
    split at h
    · cases h
    · cases hread : readSpan ⟨0, text.toList⟩ 0 with
      | ok st =>
        rw [hread] at h
        cases h
      | error e' =>
        rw [hread] at h
        cases h
        rfl

/-- The negation of a goal with balanced parentheses is read as the negation of what the goal is
read as, two levels deeper. -/
lemma parse_negatedGoalText_of_balanced (h : Balanced goal.toList) :
    parse (negatedGoalText goal) = (readSpan ⟨2, goal.toList⟩ 2).map fun st => some st.negate := by
  have hinner : IsOperand ('(' :: goal.toList ++ [')']) := h.isOperand_enclose
  have hphrase : IsPhrase (negatedGoalText goal).toList := by
    rw [toList_negatedGoalText]
    exact (hinner.cons ⟨by decide, by decide, by decide⟩ (by decide)).toIsPhrase
  rw [parse_of_isPhrase hphrase, toList_negatedGoalText, readSpan_negate hinner, if_neg (by decide),
    readSpan_enclose h, if_neg (by decide)]
  cases readSpan ⟨0 + 1 + 1, goal.toList⟩ (0 + 1 + 1) <;> rfl

/-- A negation sign, text in parentheses and more text without a connective outside its parentheses
are read only if the text at the end is blank. -/
lemma readSpan_negated_append_eq_ok_iff (hu : Balanced u) (hw : Balanced w)
    (hnone : ∀ i, Span.connectiveFrom w 0 i = none) :
    readSpan ⟨start, '¬' :: ('(' :: u ++ [')'] ++ w)⟩ 1 = .ok st ↔
      (∀ c ∈ w, isBlank c = true) ∧
        ∃ body, readSpan ⟨start + 1 + 1, u⟩ 3 = .ok body ∧ st = body.negate := by
  obtain ⟨gap, hw_eq, hgap⟩ := exists_append_trimEnd w
  have hcore : Balanced (trimEnd w) := Balanced.of_append_blank (hw_eq ▸ hw) hgap
  have hcore_none : ∀ i, Span.connectiveFrom (trimEnd w) 0 i = none := by
    intro i
    have hi := hnone i
    rw [hw_eq, Span.connectiveFrom_append hcore, Option.or_eq_none_iff] at hi
    exact hi.1
  have hoperand : IsOperand ('(' :: u ++ [')'] ++ trimEnd w) :=
    hu.isOperand_enclose.append hcore hcore_none fun c hc => isBlank_of_getLast?_trimEnd w hc
  have hsign := hoperand.cons (c := '¬') ⟨by decide, by decide, by decide⟩ (by decide)
  have htrim : readSpan ⟨start, '¬' :: ('(' :: u ++ [')'] ++ w)⟩ 1 =
      readSpan ⟨start, '¬' :: ('(' :: u ++ [')'] ++ trimEnd w)⟩ 1 := by
    conv_lhs => rw [hw_eq, ← List.append_assoc, ← List.cons_append]
    exact readSpan_congr (Span.trim_append_blank hsign.trimmed hgap)
  rw [htrim, readSpan_negate hoperand, if_neg (by decide)]
  by_cases hnil : trimEnd w = []
  · rw [hnil, List.append_nil, readSpan_enclose hu, if_neg (by decide)]
    rw [hnil, List.nil_append] at hw_eq
    rw [hw_eq, and_iff_right hgap]
    constructor
    · intro h
      obtain ⟨body, hbody, rfl⟩ := map_eq_ok h
      exact ⟨body, hbody, rfl⟩
    · rintro ⟨body, hbody, rfl⟩
      rw [hbody]
      rfl
  · rw [readSpan_enclose_append hu hoperand hnil, if_neg (by decide)]
    refine iff_of_false ?_ ?_
    · intro h
      cases h
    · rintro ⟨hblank, -⟩
      exact hnil (trimEnd_append (a := []) hblank)

/-- A text with a character that is not blank is not empty when it is trimmed. -/
lemma chars_trim_ne_nil {s : Span} {c : Char} (hmem : c ∈ s.chars) (hc : isBlank c = false) :
    s.trim.chars ≠ [] := by
  intro hnil
  obtain ⟨before, after, heq, hbefore, hafter⟩ := exists_append_trim s.chars
  have htrim : trimEnd (trimStart s.chars) = [] := hnil
  rw [htrim, List.append_nil] at heq
  rw [heq] at hmem
  have hblank := List.forall_mem_append.mpr ⟨hbefore, hafter⟩ c hmem
  rw [hc] at hblank
  cases hblank

/-- How the negation of a goal is read that closes the parenthesis before it, if the next connective
is outside all parentheses. -/
lemma exists_parse_negatedGoalText_eq
    (hgoal : goal.toList = u ++ ')' :: (w ++ op.symbol :: outside)) (hu : Balanced u)
    (hw : Balanced w) (hnone : ∀ i, Span.connectiveFrom w 0 i = none)
    (houtside : Balanced (outside ++ [')'])) :
    ∃ start, parse (negatedGoalText goal) =
      (do
        let l ← readSpan ⟨0, '¬' :: ('(' :: u ++ [')'] ++ w)⟩ 1
        let r ← readSpan ⟨start, outside ++ [')']⟩ 1
        pure (some (join op l r))) := by
  have htext : (negatedGoalText goal).toList =
      '¬' :: ('(' :: u ++ [')'] ++ w) ++ op.symbol :: (outside ++ [')']) := by
    rw [toList_negatedGoalText, hgoal]
    simp
  have hsign : IsOperand ('¬' :: ('(' :: u ++ [')'])) :=
    hu.isOperand_enclose.cons ⟨by decide, by decide, by decide⟩ (by decide)
  have hleft : Balanced ('¬' :: ('(' :: u ++ [')'] ++ w)) := hsign.balanced.append hw
  have hleft_none : Span.connectiveFrom ('¬' :: ('(' :: u ++ [')'] ++ w)) 0 0 = none := by
    rw [← List.cons_append, Span.connectiveFrom_append hsign.balanced,
      hsign.connectiveFrom_eq, hnone]
    rfl
  have hphrase : IsPhrase (negatedGoalText goal).toList := by
    rw [htext]
    refine ⟨⟨⟨'¬', rfl, by decide⟩, ⟨')', ?_, by decide⟩⟩, ?_⟩
    · have hlast : (op.symbol :: outside ++ [')']).getLast? = some ')' := List.getLast?_concat
      rw [List.getLast?_append, ← List.cons_append, hlast, Option.some_or]
    · exact hleft.append (houtside.cons op.symbol_ne.1 op.symbol_ne.2)
  have hsplit : Span.splitConnective?
      ⟨0, '¬' :: ('(' :: u ++ [')'] ++ w) ++ op.symbol :: (outside ++ [')'])⟩ =
      some (⟨0, '¬' :: ('(' :: u ++ [')'] ++ w)⟩, op,
        ⟨0 + ('¬' :: ('(' :: u ++ [')'] ++ w)).length + 1, outside ++ [')']⟩) :=
    Span.splitConnective?_append hleft hleft_none op
  rw [← htext, ← Span.trim_of_isTrimmed hphrase.trimmed] at hsplit
  have hleft_ne := chars_trim_ne_nil (s := ⟨0, '¬' :: ('(' :: u ++ [')'] ++ w)⟩) (c := '¬')
    List.mem_cons_self (by decide)
  rw [parse_of_isPhrase hphrase, readSpan_of_splitConnective? hsplit hleft_ne
    (chars_trim_ne_nil (List.mem_append_right _ (List.mem_singleton.mpr rfl)) (by decide)),
    if_neg (by decide)]
  refine ⟨0 + ('¬' :: ('(' :: u ++ [')'] ++ w)).length + 1, ?_⟩
  cases readSpan ⟨0, '¬' :: ('(' :: u ++ [')'] ++ w)⟩ (0 + 1) with
  | error e => rfl
  | ok l => cases readSpan ⟨_, outside ++ [')']⟩ (0 + 1) <;> rfl

/-- Before the last parenthesis one more is open than after it. -/
lemma openAfter_of_append_close {cs : List Char} {n m : ℕ}
    (h : openAfter (cs ++ [')']) n = some m) : openAfter cs n = some (m + 1) := by
  rw [openAfter_append] at h
  obtain ⟨k, hk, hclose⟩ := Option.bind_eq_some_iff.mp h
  cases k with
  | zero => cases hclose
  | succ k =>
    obtain rfl : k = m := Option.some.inj hclose
    exact hk

/-- If the parentheses of a goal are not balanced, but those of its negation are, then the goal
closes the parenthesis before it and is balanced from there to the parenthesis after it. -/
lemma exists_append_of_not_balanced (hgoal : ¬ Balanced goal.toList)
    (h : Balanced (negatedGoalText goal).toList) :
    ∃ inside rest, goal.toList = inside ++ ')' :: rest ∧ Balanced inside ∧
      Balanced (rest ++ [')']) := by
  have hopen : openAfter goal.toList 1 = some 1 := by
    rw [toList_negatedGoalText, Text.Balanced, openAfter_cons (by decide) (by decide),
      List.cons_append, openAfter_open] at h
    exact openAfter_of_append_close h
  have hunopened : openAfter goal.toList 0 = none := by
    cases hm : openAfter goal.toList 0 with
    | none => rfl
    | some m =>
      have hadd := openAfter_add hm 1
      rw [Nat.zero_add, hopen, Option.some.injEq, Nat.right_eq_add] at hadd
      rw [hadd] at hm
      exact absurd hm hgoal
  obtain ⟨inside, rest, hchars, hinside⟩ := exists_append_of_openAfter_eq_none hunopened
  refine ⟨inside, rest, hchars, hinside, ?_⟩
  rw [hchars, openAfter_append, Balanced.openAfter_eq hinside, Option.bind_some,
    openAfter_close] at hopen
  rw [Text.Balanced, openAfter_append, hopen]
  rfl

/-- Without a connective behind it the text that the goal puts in parentheses is taken for a
predicate without a name. -/
lemma parse_negatedGoalText_ne_ok (hgoal : goal.toList = u ++ ')' :: w) (hu : Balanced u)
    (hw : Balanced (w ++ [')'])) (hnone : ∀ i, Span.connectiveFrom (w ++ [')']) 0 i = none) :
    parse (negatedGoalText goal) ≠ .ok o := by
  have hoperand : IsOperand ('(' :: u ++ [')'] ++ (w ++ [')'])) := by
    refine hu.isOperand_enclose.append hw hnone fun c hc => ?_
    rw [List.getLast?_concat] at hc
    cases hc
    decide
  have htext : (negatedGoalText goal).toList = '¬' :: ('(' :: u ++ [')'] ++ (w ++ [')'])) := by
    rw [toList_negatedGoalText, hgoal]
    simp
  have hphrase : IsPhrase (negatedGoalText goal).toList := by
    rw [htext]
    exact (hoperand.cons ⟨by decide, by decide, by decide⟩ (by decide)).toIsPhrase
  intro h
  rw [parse_of_isPhrase hphrase, htext, readSpan_negate hoperand, if_neg (by decide),
    readSpan_enclose_append hu hoperand (List.append_ne_nil_of_right_ne_nil _ (by decide)),
    if_neg (by decide)] at h
  cases h

/-- The parenthesis after a goal is no connective, so it belongs to what follows the connective. -/
lemma exists_eq_append_close {rest gap behind : List Char}
    (h : rest ++ [')'] = gap ++ op.symbol :: behind) :
    ∃ outside, behind = outside ++ [')'] ∧ rest = gap ++ op.symbol :: outside := by
  rcases List.eq_nil_or_concat behind with rfl | ⟨outside, c, rfl⟩
  · obtain ⟨-, hlast⟩ := List.append_inj' h rfl
    exact absurd (List.singleton_inj.mp hlast).symm op.symbol_ne.2
  · rw [List.concat_eq_append, ← List.cons_append, ← List.append_assoc] at h
    obtain ⟨hrest, hlast⟩ := List.append_inj' h rfl
    exact ⟨outside, by rw [List.concat_eq_append, hlast], hrest⟩

/-- If the parentheses of a goal are not balanced, but its negation is read, then the goal closes
the parenthesis before it. -/
lemma exists_escapes_of_parse (hgoal : ¬ Balanced goal.toList)
    (h : parse (negatedGoalText goal) = .ok o) :
    ∃ op l r, Escapes goal op l r ∧ o = some (join op l.negate r) := by
  obtain ⟨inside, rest, hchars, hinside, hrest⟩ :=
    exists_append_of_not_balanced hgoal (balanced_of_parse h)
  by_cases hnone : ∀ i, Span.connectiveFrom (rest ++ [')']) 0 i = none
  · exact absurd h (parse_negatedGoalText_ne_ok hchars hinside hrest hnone)
  · rw [not_forall] at hnone
    obtain ⟨i, hi⟩ := hnone
    obtain ⟨⟨k, op⟩, hfound⟩ := Option.ne_none_iff_exists'.mp hi
    obtain ⟨gap, behind, hsplit, hgap, hgap_none⟩ :=
      Span.exists_append_of_connectiveFrom hrest hfound
    obtain ⟨outside, rfl, rfl⟩ := exists_eq_append_close hsplit
    have houtside : Balanced (outside ++ [')']) := by
      rw [hsplit] at hrest
      have hop := Balanced.of_append_left hgap hrest
      rwa [Text.Balanced, openAfter_cons op.symbol_ne.1 op.symbol_ne.2] at hop
    obtain ⟨start, hparse⟩ := exists_parse_negatedGoalText_eq hchars hinside hgap hgap_none houtside
    rw [hparse] at h
    obtain ⟨l', hl', h⟩ := bind_eq_ok h
    obtain ⟨r, hr, h⟩ := bind_eq_ok h
    cases h
    obtain ⟨hblank, l, hl, rfl⟩ := (readSpan_negated_append_eq_ok_iff hinside hgap hgap_none).mp hl'
    exact ⟨op, l, r, ⟨inside, gap, outside, hchars, hinside, hblank, houtside,
      readSpan_eq_ok_of_le (Nat.le_refl _) hl, readSpan_eq_ok_of_le (Nat.le_refl _) hr⟩, rfl⟩

/-- What the negation sign governs ends where the goal closes the parenthesis. -/
lemma Escapes.parse_negatedGoalText (h : Escapes goal op l r) :
    parse (negatedGoalText goal) = .ok (some (join op l.negate r)) := by
  obtain ⟨inside, gap, outside, hchars, hinside, hblank, houtside, hl, hr⟩ := h
  have hmarks : ∀ c ∈ gap, c ∉ marks := fun c hc => notMem_marks_of_isBlank (hblank c hc)
  have hgap : Balanced gap := balanced_of_forall_notMem_marks hmarks
  have hnone : ∀ i, Span.connectiveFrom gap 0 i = none :=
    connectiveFrom_of_forall_isPlain (fun c hc => isPlain_of_notMem_marks (hmarks c hc)) 0
  obtain ⟨start, hparse⟩ := exists_parse_negatedGoalText_eq hchars hinside hgap hnone houtside
  have hl' : readSpan ⟨0, '¬' :: ('(' :: inside ++ [')'] ++ gap)⟩ 1 = .ok l.negate :=
    (readSpan_negated_append_eq_ok_iff hinside hgap hnone).mpr
      ⟨hblank, l, readSpan_eq_ok_of_le (Nat.le_refl _) hl, rfl⟩
  have hr' : readSpan ⟨start, outside ++ [')']⟩ 1 = .ok r :=
    readSpan_eq_ok_of_le (Nat.le_refl _) hr
  rw [hparse, hl', ok_bind, hr']
  rfl

/-- The negation of a goal that cannot be read is read only if the goal closes the parenthesis
before it. -/
lemma parse_negatedGoalText_eq_ok_iff (h : parse goal = .error e) :
    parse (negatedGoalText goal) = .ok o ↔
      ∃ op l r, Escapes goal op l r ∧ o = some (join op l.negate r) := by
  constructor
  · intro hok
    rcases parse_eq_error_cases h with ⟨hgoal, -⟩ | ⟨hgoal, herror⟩
    · exact exists_escapes_of_parse hgoal hok
    · rw [parse_negatedGoalText_of_balanced hgoal] at hok
      obtain ⟨st, hst, -⟩ := map_eq_ok hok
      have hst' : readSpan ⟨0, goal.toList⟩ 0 = .ok st := readSpan_eq_ok_of_le (Nat.zero_le _) hst
      rw [herror] at hst'
      cases hst'
  · rintro ⟨op, l, r, hescapes, rfl⟩
    exact hescapes.parse_negatedGoalText

/-- Any fault of a goal but that of its parentheses is a fault of its negation. -/
lemma exists_parse_negatedGoalText_eq_error (h : parse goal = .error e)
    (hfault : e.fault ≠ .unbalancedParenthesis) :
    ∃ e', parse (negatedGoalText goal) = .error e' ∧
      (e'.fault = e.fault ∨ e'.fault = .tooDeep) := by
  rcases parse_eq_error_cases h with ⟨-, hunbalanced⟩ | ⟨hgoal, herror⟩
  · exact absurd hunbalanced hfault
  · have hsinks : Sinks (· = ·) (readSpan ⟨0, goal.toList⟩ 0) (readSpan ⟨2, goal.toList⟩ 2) :=
      sinks_readSpan (Nat.zero_le _) rfl
    obtain ⟨e', he', hsame⟩ := hsinks.exists_eq_error herror
    refine ⟨e', ?_, hsame⟩
    rw [parse_negatedGoalText_of_balanced hgoal, he']
    rfl

end Statement

/-! ## Attempts at goals -/

lemma map_fst_premises (formulas : List String) : (premises formulas).map Prod.fst = formulas := by
  rw [premises, List.map_map]
  exact List.zipIdx_map_fst 0 formulas

/-- An attempt comes to a verdict exactly if each text says a formula or is blank and not all are
blank. -/
lemma Attempt.exists_outcome_eq_ok_iff (settings : Settings) (inputs : List (String × Origin)) :
    (∃ result, outcome settings inputs = .ok result) ↔
      (∀ text ∈ inputs.map Prod.fst, (readFormula? text).isSome) ∧
        ∃ text ∈ inputs.map Prod.fst, ∃ f, readFormula? text = some (some f) := by
  constructor
  · rintro ⟨result, hresult⟩
    obtain ⟨a, hadd, -⟩ := bind_eq_ok hresult
    obtain ⟨j, -, -, hinputs⟩ := exists_collecting_of_addAll hadd
    have haccepted : ∀ text ∈ inputs.map Prod.fst, (readFormula? text).isSome :=
      List.forall_mem_map.mpr hinputs
    refine ⟨haccepted, ?_⟩
    obtain ⟨fs, hread, hmem⟩ := exists_readFormulas? haccepted
    cases fs with
    | nil =>
      rw [outcome_of_nil hread] at hresult
      cases hresult
    | cons f fs =>
      obtain ⟨text, htext, hsays⟩ := (hmem f).mp List.mem_cons_self
      exact ⟨text, htext, f, hsays⟩
  · rintro ⟨haccepted, text, htext, f, hsays⟩
    obtain ⟨fs, hread, hmem⟩ := exists_readFormulas? haccepted
    have hf : f ∈ fs := (hmem f).mpr ⟨text, htext, hsays⟩
    obtain ⟨i, cs, hadd, hstart⟩ :=
      exists_start_of_readFormulas? hread (List.ne_nil_of_mem hf) settings
    exact ⟨_, outcome_of_start hadd hstart⟩

open Statement in
/-- The negation of a goal that cannot be read says a formula exactly if the goal closes the
parenthesis before it and what is read then can be lowered.  It is never taken for a blank text. -/
lemma isSome_readFormula?_negatedGoalText_iff {goal : String} {e : ParseError}
    (h : parse goal = .error e) :
    (readFormula? (negatedGoalText goal)).isSome ↔
      ∃ op l r f, Escapes goal op l r ∧ Formula.ofStatement (join op l.negate r) = .ok f := by
  constructor
  · intro hsome
    obtain ⟨o, ho⟩ := Option.isSome_iff_exists.mp hsome
    cases o with
    | none =>
      obtain ⟨_, _, _, -, hblank⟩ :=
        (parse_negatedGoalText_eq_ok_iff h).mp (parse_of_readFormula?_none ho)
      cases hblank
    | some f =>
      obtain ⟨st, hparse, hlower⟩ := exists_statement_of_readFormula? ho
      obtain ⟨op, l, r, hescapes, hst⟩ := (parse_negatedGoalText_eq_ok_iff h).mp hparse
      cases hst
      exact ⟨op, l, r, f, hescapes, hlower⟩
  · rintro ⟨op, l, r, f, hescapes, hlower⟩
    rw [readFormula?_of_parse hescapes.parse_negatedGoalText hlower]
    rfl

/-- An attempt at a goal comes to a verdict exactly if the premises and the negation of the goal are
accepted and not all of them are blank. -/
lemma exists_proveGoal_eq_ok_iff (settings : Settings) (formulas : List String) (goal : String) :
    (∃ result, proveGoal settings formulas goal = .ok result) ↔
      (∀ text ∈ formulas ++ [negatedGoalText goal], (readFormula? text).isSome) ∧
        ∃ text ∈ formulas ++ [negatedGoalText goal], ∃ f, readFormula? text = some (some f) := by
  rw [Attempt.proveGoal_eq_outcome, Attempt.exists_outcome_eq_ok_iff, List.map_append,
    map_fst_premises]
  rfl

/-- If the premises are accepted and the negation of a goal cannot be read, then this is what an
attempt at the goal reports. -/
lemma proveGoal_of_parse_negatedGoalText {settings : Settings} {formulas : List String}
    {goal : String} {e : ParseError} (haccepted : ∀ text ∈ formulas, (readFormula? text).isSome)
    (h : Statement.parse (negatedGoalText goal) = .error e) :
    proveGoal settings formulas goal =
      .error (.badFormula (formulas.length + 1) (negatedGoalText goal) e) := by
  obtain ⟨fs, hread, -⟩ := exists_readFormulas? haccepted
  rw [← map_fst_premises formulas] at hread
  obtain ⟨i, hadd, -⟩ := Attempt.exists_extends_addAll hread (.new settings)
  obtain ⟨j, hj, hcount, -⟩ := Attempt.exists_collecting_of_addAll hadd
  obtain rfl := Attempt.collecting.inj hj
  have hlength : (premises formulas).length = formulas.length := by
    rw [premises, List.length_map, List.length_zipIdx]
  have hnumber : i.count = formulas.length := by
    rw [hcount, hlength]
    exact Nat.zero_add _
  rw [Attempt.proveGoal_eq_outcome, Attempt.outcome, Attempt.new, Attempt.addAll_append hadd,
    Attempt.addAll, Attempt.add, Intake.add, h, hnumber]
  rfl

/-- An attempt at a goal that cannot be read comes to a verdict exactly if the premises are accepted
and the goal closes the parenthesis before it, so that another formula is read in place of its
negation.  A goal with any fault but unbalanced parentheses is reported, with the same fault or as
too deep. -/
theorem proveGoal_of_parse_eq_error {goal : String} {e : ParseError}
    (h : Statement.parse goal = .error e) (settings : Settings) (formulas : List String) :
    ((∃ result, proveGoal settings formulas goal = .ok result) ↔
        (∀ text ∈ formulas, (readFormula? text).isSome) ∧
          ∃ op l r f, Statement.Escapes goal op l r ∧
            Formula.ofStatement (Statement.join op l.negate r) = .ok f) ∧
      ((∀ text ∈ formulas, (readFormula? text).isSome) → e.fault ≠ .unbalancedParenthesis →
        ∃ e', proveGoal settings formulas goal =
            .error (.badFormula (formulas.length + 1) (negatedGoalText goal) e') ∧
          (e'.fault = e.fault ∨ e'.fault = .tooDeep)) := by
  constructor
  · rw [exists_proveGoal_eq_ok_iff, List.forall_mem_append, List.forall_mem_singleton,
      isSome_readFormula?_negatedGoalText_iff h]
    constructor
    · rintro ⟨haccepted, -⟩
      exact haccepted
    · rintro ⟨haccepted, op, l, r, f, hescapes, hlower⟩
      have hsays := readFormula?_of_parse hescapes.parse_negatedGoalText hlower
      exact ⟨⟨haccepted, op, l, r, f, hescapes, hlower⟩, negatedGoalText goal,
        List.mem_append_right _ (List.mem_singleton.mpr rfl), f, hsays⟩
  · intro haccepted hfault
    obtain ⟨e', herror, hsame⟩ := Statement.exists_parse_negatedGoalText_eq_error h hfault
    exact ⟨e', proveGoal_of_parse_negatedGoalText haccepted herror, hsame⟩

/-! ## A goal that is proved although it cannot be read -/

/-- The predicate `P` as it is written. -/
def writtenP : WrittenAtom :=
  { binder := none, negated := false, name := "P", arguments := none }

lemma readSpan_P (start depth : ℕ) (h : depth < Statement.maxNesting) :
    Statement.readSpan ⟨start, ['P']⟩ depth = .ok (.atom writtenP) := by
  rw [Statement.readSpan]
  exact if_neg (Nat.not_le.mpr h)

/-- The goal `P) ∧ (P` closes the parenthesis before it after the first `P`. -/
lemma escapes_P : Statement.Escapes "P) ∧ (P" .and (.atom writtenP) (.atom writtenP) := by
  refine ⟨['P'], [' '], [' ', '(', 'P'], rfl, rfl, List.forall_mem_singleton.mpr rfl, rfl,
    readSpan_P 0 3 (by decide), ?_⟩
  have henclosed : Statement.readSpan ⟨0, [' ', '(', 'P', ')']⟩ 1 =
      Statement.readSpan ⟨2, ['P']⟩ 2 := by
    rw [Statement.readSpan]
    rfl
  exact henclosed.trans (readSpan_P 2 2 (by decide))

/-- The formula `¬P ∧ P`, which is read in place of the negation of `P) ∧ (P`. -/
def notPAndP : Formula :=
  .and (.atom { predicate := "P", args := [], positive := false })
    (.atom { predicate := "P", args := [], positive := true })

/-- There is a verdict on `P) ∧ (P`, which cannot be read, and none on `P ∧`, which cannot be read
either. -/
theorem exists_proveGoal_P :
    Statement.parse "P) ∧ (P" = .error ⟨.unbalancedParenthesis, 1⟩ ∧
      (∃ result, proveGoal .standard [] "P) ∧ (P" = .ok result) ∧
      Statement.parse "P ∧" = .error ⟨.missingOperand .and, 2⟩ ∧
      ∃ e, proveGoal .standard [] "P ∧" = .error (.badFormula 1 "¬(P ∧)" e) ∧
        (e.fault = .missingOperand .and ∨ e.fault = .tooDeep) := by
  have hmissing : Statement.parse "P ∧" = .error ⟨.missingOperand .and, 2⟩ := by
    have hread : Statement.readSpan ⟨0, "P ∧".toList⟩ 0 = .error ⟨.missingOperand .and, 2⟩ := by
      rw [Statement.readSpan]
      rfl
    have hparse : Statement.parse "P ∧" = (Statement.readSpan ⟨0, "P ∧".toList⟩ 0).map some := rfl
    rw [hparse, hread]
    rfl
  have hnone : ∀ text ∈ ([] : List String), (readFormula? text).isSome :=
    fun text htext => absurd htext List.not_mem_nil
  refine ⟨rfl, ?_, hmissing, ?_⟩
  · exact (proveGoal_of_parse_eq_error rfl .standard []).1.mpr
      ⟨hnone, .and, .atom writtenP, .atom writtenP, notPAndP, escapes_P, rfl⟩
  · exact (proveGoal_of_parse_eq_error hmissing .standard []).2 hnone (by decide)

/-- The intake that has taken in the negation of `P) ∧ (P`. -/
def intakeEscaped : Intake where
  settings := .standard
  supply := SkolemSupply.initial.reserve notPAndP
  pending := [⟨1, negatedGoalText "P) ∧ (P", .negatedGoal, notPAndP⟩]
  count := 1

/-- The search with which the attempt at `P) ∧ (P` starts. -/
def searchEscaped : Search where
  settings := .standard
  registry :=
    { clauses := #[⟨[⟨"P", [], false⟩], some 0, .given .negatedGoal⟩,
        ⟨[⟨"P", [], true⟩], some 1, .given .negatedGoal⟩]
      log := ⟨#[.initial [⟨0, "¬P", "negated goal"⟩, ⟨1, "P", "negated goal"⟩]]⟩ }
  stepsMade := 0
  paired := 0

set_option maxRecDepth 100000 in
/-- The clause form of `¬P ∧ P`. -/
lemma clausesFrom_intakeEscaped :
    Intake.clausesFrom intakeEscaped.pending intakeEscaped.supply =
      .ok [.ofLiterals [⟨"P", [], false⟩] (.given .negatedGoal),
        .ofLiterals [⟨"P", [], true⟩] (.given .negatedGoal)] := by
  cbv

set_option maxRecDepth 100000 in
/-- The first step of this search is a round that adds the empty clause. -/
lemma step_searchEscaped : searchEscaped.step.2 = none := by
  cbv

set_option maxRecDepth 100000 in
/-- The second step of this search finds the empty clause. -/
lemma step_step_searchEscaped : searchEscaped.step.1.step.2 = some .refuted := by
  cbv

/-- The goal `P) ∧ (P` is proved from no premises, although its parentheses are not balanced. -/
theorem proveGoal_escaped_refuted :
    Statement.parse "P) ∧ (P" = .error ⟨.unbalancedParenthesis, 1⟩ ∧
      ∃ log, proveGoal .standard [] "P) ∧ (P" = .ok (.refuted, log) := by
  have hread : readFormula? (negatedGoalText "P) ∧ (P") = some (some notPAndP) :=
    readFormula?_of_parse escapes_P.parse_negatedGoalText rfl
  have hadd : (Attempt.new .standard).addAll
      (premises [] ++ [(negatedGoalText "P) ∧ (P", .negatedGoal)]) =
        .ok (.collecting intakeEscaped) := by
    rw [premises, List.zipIdx_nil, List.map_nil, List.nil_append, Attempt.new,
      Attempt.addAll_cons_of_readFormula? _ hread]
    rfl
  have hstart : intakeEscaped.start = .ok searchEscaped :=
    Intake.start_eq clausesFrom_intakeEscaped (List.cons_ne_nil _ _)
  have houtcome := Attempt.outcome_of_start hadd hstart
  rw [Search.run_of_step_none step_searchEscaped, Search.run_of_step_some step_step_searchEscaped]
    at houtcome
  exact ⟨rfl, _, houtcome⟩

end Clausal
