import Clausal.Proofs.Rereading

/-!
# Reading what was written

The text of a statement that was read is read again as the same statement, with two exceptions.  The
parentheses that writing adds count as levels, so that the text may be nested too deeply.  And a
quantifier that belongs to an atom is written directly before the name, so that the variable and a
name that begins like a variable run together.
-/

namespace Clausal

open Text

/-! ## Atoms -/

namespace WrittenAtom

open Statement

/-- The levels that the text of an atom takes. -/
def textLevels (a : WrittenAtom) : ℕ :=
  a.binder.isSome.toNat + (a.negated.toNat + argumentLevels a.arguments)

/-- The variable of an atom's quantifier and the name are written as one word. -/
def RunsTogether (a : WrittenAtom) : Prop :=
  a.binder.isSome = true ∧ a.negated = false ∧
    ∃ c, a.name.toList.head? = some c ∧ continuesVariable c = true

instance : DecidablePred RunsTogether := fun a =>
  decidable_of_iff (a.binder.isSome = true ∧ a.negated = false ∧
      a.name.toList.head?.any continuesVariable = true)
    (by simp [RunsTogether, Option.any_eq_true])

variable {a : WrittenAtom}

/-- The parts of the text of an atom. -/
lemma toList_text (a : WrittenAtom) : a.text.toList =
    runChars a.binder.toList ++
      (signChars a.negated ++ (a.name.toList ++ argumentChars a.arguments)) := by
  cases hbinder : a.binder <;> cases hnegated : a.negated <;> cases harguments : a.arguments <;>
    simp [text, hbinder, hnegated, harguments, runChars, signChars, argumentChars]

/-- The text of an atom is an operand. -/
lemma IsReadable.isOperand (h : a.IsReadable) : IsOperand a.text.toList := by
  have hbody : IsOperand (signChars a.negated ++ (a.name.toList ++ argumentChars a.arguments)) :=
    isOperand_sign (isOperand_predicate h)
  rw [toList_text]
  cases hbinder : a.binder with
  | none => exact hbody
  | some b => exact isOperand_run (List.forall_mem_singleton.mpr (h.binder b hbinder)) hbody

/-- A predicate with its sign is read as an atom without a binder. -/
lemma IsReadable.writes_body (h : a.IsReadable) :
    Writes (signChars a.negated ++ (a.name.toList ++ argumentChars a.arguments))
      (.atom { a with binder := none }) (a.negated.toNat + argumentLevels a.arguments) False := by
  have hsigned : Statement.signed a.negated (.atom { a with binder := none, negated := false }) =
      .atom { a with binder := none } := by
    cases hnegated : a.negated <;> rfl
  rw [← hsigned]
  exact (writes_predicate h).sign (isOperand_predicate h)

/-- A predicate with its sign ends a run of binders, unless it begins like the name of a
variable. -/
lemma IsReadable.endsRun_body (h : a.IsReadable) (hbinder : a.binder.isSome = true)
    (hapart : ¬ a.RunsTogether) :
    EndsRun (signChars a.negated ++ (a.name.toList ++ argumentChars a.arguments)) := by
  obtain ⟨c, rest, hchars, hhead, hmark⟩ := exists_predicate_cons h
  cases hnegated : a.negated with
  | true => exact ⟨'¬', _, rfl, by decide, by decide, continuesVariable_of_mem_marks (by decide)⟩
  | false =>
    refine ⟨c, rest, hchars, ?_, Quantifier.ofSymbol?_of_notMem_marks hmark, ?_⟩
    · exact isBlank_of_isWordChar (h.name c (List.mem_of_mem_head? hhead))
    · rw [← Bool.not_eq_true]
      exact fun hcontinues => hapart ⟨hbinder, hnegated, c, hhead, hcontinues⟩

/-- No parentheses enclose a predicate with its sign. -/
lemma IsReadable.enclosed?_body (h : a.IsReadable) (start : ℕ) :
    Span.enclosed? ⟨start, signChars a.negated ++ (a.name.toList ++ argumentChars a.arguments)⟩ =
      none := by
  obtain ⟨c, rest, hchars, -, hmark⟩ := exists_predicate_cons h
  cases a.negated with
  | true => exact Span.enclosed?_of_ne (by decide)
  | false =>
    rw [hchars]
    exact Span.enclosed?_of_ne (ne_of_notMem_marks hmark).1

/-- The text of an atom is read again. -/
lemma IsReadable.writes (h : a.IsReadable) :
    Writes a.text.toList (.atom a) a.textLevels a.RunsTogether := by
  have hbody := h.writes_body
  rw [toList_text, textLevels]
  cases hbinder : a.binder with
  | none =>
    have hatom : { a with binder := none } = a := by rw [← hbinder]
    rw [hatom] at hbody
    refine Writes.congr ?_ (iff_of_false not_false (fun hruns => ?_))
    · rw [Option.isSome_none, Bool.toNat_false, Nat.zero_add]
      exact hbody
    · rw [RunsTogether, hbinder] at hruns
      exact Bool.false_ne_true hruns.1
  | some b =>
    have hisSome : a.binder.isSome = true := by rw [hbinder]; rfl
    have hb := h.binder b hbinder
    by_cases hruns : a.RunsTogether
    -- the variable and the name are one word, so reading stops at the second character of the word
    · obtain ⟨-, hnegated, c, hhead, hcontinues⟩ := id hruns
      obtain ⟨d, rest, hchars, hhead', -⟩ := exists_predicate_cons h
      obtain rfl : c = d := Option.some.inj (hhead.symm.trans hhead')
      have hoperand := isOperand_predicate h
      rw [hchars] at hoperand
      rw [hnegated, hchars]
      exact (writes_of_continuesVariable hb hoperand hcontinues _ _).congr
        (iff_of_true trivial hruns)
    · have hatom : { a with binder := some b } = a := by rw [← hbinder]
      have hbind : Writes _ (.atom { a with binder := some b }) _ False :=
        hbody.bind (isOperand_sign (isOperand_predicate h)) (h.endsRun_body hisSome hruns)
          (List.forall_mem_singleton.mpr hb)
          (fun start => congrArg Option.isSome (h.enclosed?_body start))
      rw [hatom] at hbind
      exact hbind.congr (iff_of_false not_false hruns)

end WrittenAtom

/-! ## Statements -/

namespace Statement

/-- The statement under a run of binders in front of its parentheses. -/
def bound : List Binder → Statement → Statement
  | [], st => st
  | first :: more, st => bind first more true st

/-- The levels that a sign, binders and the parentheses after them take. -/
def leadLevels (negated : Bool) (binders : List Binder) : ℕ :=
  if !negated && binders.isEmpty then 0 else negated.toNat + (binders.length + 1)

/-- The levels that the text of a statement takes. -/
def textLevels : Statement → ℕ
  | .atom a => a.textLevels
  | .scoped negated binders _ operand => leadLevels negated binders + operand.textLevels
  | .joined negated binders _ left right =>
      leadLevels negated binders +
        (1 + max (left.needsParentheses.toNat + left.textLevels)
          (right.needsParentheses.toNat + right.textLevels))

/-- The atoms of a statement, from left to right. -/
def atoms : Statement → List WrittenAtom
  | .atom a => [a]
  | .scoped _ _ _ operand => operand.atoms
  | .joined _ _ _ left right => left.atoms ++ right.atoms

/-- The text of an operand, in parentheses if it needs them. -/
def operandChars (st : Statement) : List Char :=
  if st.needsParentheses then '(' :: st.text.toList ++ [')'] else st.text.toList

variable {st : Statement} {levels : ℕ} {merges : Prop} {negated : Bool} {binders : List Binder}
  {core : String} {u : List Char}

/-- A sign and binders in front of two operands belong to their node. -/
lemma signed_bound_join (negated : Bool) (binders : List Binder) (op : Connective)
    (left right : Statement) :
    signed negated (bound binders (join op left right)) =
      .joined negated binders (some op) left right := by
  cases negated <;> cases binders <;> simp [signed, bound, join, bind, negate]

/-- A sign and binders in front of an atom or a negated node make a node with one operand. -/
lemma signed_bound_of_takesBinders {first : Binder} {more : List Binder}
    (h : st.takesBinders = false) :
    signed negated (bound (first :: more) st) = .scoped negated (first :: more) none st := by
  have hbind : bind first more true st = .scoped false (first :: more) none st := by
    match st with
    | .atom a => simp [bind]
    | .scoped true _ _ _ => rfl
    | .joined true _ _ _ _ => rfl
  cases negated <;> simp [signed, bound, hbind, negate]

/-- A sign and binders are written one after the other. -/
lemma toList_leadText (negated : Bool) (binders : List Binder) :
    (leadText negated binders).toList = signChars negated ++ runChars binders := by
  have hsign : (if negated then "¬" else "").toList = signChars negated := by
    cases negated <;> rfl
  rw [leadText, String.toList_append, hsign, String.toList_join, List.flatMap_map, runChars]

/-- The parts of a text with something in front of it. -/
lemma toList_withLead (hlead : (!negated && binders.isEmpty) = false) (core : String) :
    (withLead negated binders core).toList =
      signChars negated ++ (runChars binders ++ ('(' :: core.toList ++ [')'])) := by
  rw [withLead, hlead, if_neg Bool.false_ne_true, String.toList_append, String.toList_append,
    String.toList_append, toList_leadText]
  simp

/-- A text in parentheses with binders in front of it is an operand. -/
lemma isOperand_bound (hbinders : ∀ b ∈ binders, b.IsReadable) (hcore : Balanced u) :
    IsOperand (runChars binders ++ ('(' :: u ++ [')'])) := by
  cases binders with
  | nil => exact hcore.isOperand_enclose
  | cons first more => exact isOperand_run hbinders hcore.isOperand_enclose

/-- A text with something in front of it is an operand. -/
lemma isOperand_withLead (hlead : (!negated && binders.isEmpty) = false)
    (hbinders : ∀ b ∈ binders, b.IsReadable) (hcore : Balanced core.toList) :
    IsOperand (withLead negated binders core).toList := by
  rw [toList_withLead hlead]
  exact isOperand_sign (isOperand_bound hbinders hcore)

/-- Binders before a text in parentheses. -/
lemma Writes.bound (h : Writes u st levels merges) (hbinders : ∀ b ∈ binders, b.IsReadable)
    (hu : Balanced u) : Writes (runChars binders ++ ('(' :: u ++ [')'])) (bound binders st)
      (binders.length + (1 + levels)) merges := by
  cases binders with
  | nil =>
    rw [List.length_nil, Nat.zero_add]
    exact h.enclose hu
  | cons first more =>
    have hends : EndsRun ('(' :: u ++ [')']) :=
      ⟨'(', _, rfl, by decide, by decide, continuesVariable_of_mem_marks (by decide)⟩
    exact (h.enclose hu).bind hu.isOperand_enclose hends hbinders
      (fun start => congrArg Option.isSome (Span.enclosed?_of_balanced hu))

/-- What stands in front of a text is read with it. -/
lemma Writes.withLead (h : Writes core.toList st levels merges) (hcore : Balanced core.toList)
    (hbinders : ∀ b ∈ binders, b.IsReadable) (negated : Bool) :
    Writes (withLead negated binders core).toList (signed negated (Statement.bound binders st))
      (leadLevels negated binders + levels) merges := by
  cases hlead : (!negated && binders.isEmpty) with
  | true =>
    rw [Bool.and_eq_true, Bool.not_eq_true', List.isEmpty_iff] at hlead
    obtain ⟨rfl, rfl⟩ := hlead
    rw [leadLevels, if_pos (by rfl), Nat.zero_add]
    exact h
  | false =>
    have hlevels : leadLevels negated binders + levels =
        negated.toNat + (binders.length + (1 + levels)) := by
      rw [leadLevels, hlead, if_neg Bool.false_ne_true]
      omega
    rw [toList_withLead hlead, hlevels]
    exact (h.bound hbinders hcore).sign (isOperand_bound hbinders hcore)

/-- The text of a joined statement without what stands in front of it. -/
lemma toList_core (op : Connective) (left right : Statement) :
    ((if left.needsParentheses then "(" ++ left.text ++ ")" else left.text) ++
      " " ++ op.text ++ " " ++
      (if right.needsParentheses then "(" ++ right.text ++ ")" else right.text)).toList =
      left.operandChars ++ ' ' :: op.symbol :: ' ' :: right.operandChars := by
  have hoperand : ∀ st : Statement,
      (if st.needsParentheses then "(" ++ st.text ++ ")" else st.text).toList =
        st.operandChars := by
    intro st
    cases hneeds : st.needsParentheses <;> simp [operandChars, hneeds]
  simp [hoperand, Connective.text]

/-- The text of a readable statement can stand in parentheses, and as an operand once it has those
that it needs. -/
lemma IsReadable.isPhrase {st : Statement} (h : st.IsReadable) :
    IsPhrase st.text.toList ∧ IsOperand st.operandChars := by
  match st with
  | .atom a =>
    exact ⟨(WrittenAtom.IsReadable.isOperand h).toIsPhrase, WrittenAtom.IsReadable.isOperand h⟩
  | .scoped negated binders none operand =>
    obtain ⟨-, hne, hbinders, -, hoperand⟩ := h
    have hlead : (!negated && binders.isEmpty) = false := by
      rw [List.isEmpty_eq_false_iff.mpr hne, Bool.and_false]
    have hwhole := isOperand_withLead hlead hbinders hoperand.isPhrase.1.balanced
    exact ⟨hwhole.toIsPhrase, hwhole⟩
  | .joined negated binders (some op) left right =>
    obtain ⟨-, hbinders, hleft, hright⟩ := h
    have hcore := hleft.isPhrase.2.toIsPhrase.join hright.isPhrase.2.toIsPhrase op
    rw [← toList_core] at hcore
    rw [operandChars, text, needsParentheses, Option.isSome_some, Bool.true_and]
    cases hlead : (!negated && binders.isEmpty) with
    | true =>
      rw [withLead, hlead, if_pos rfl]
      exact ⟨hcore, hcore.balanced.isOperand_enclose⟩
    | false =>
      have hwhole := isOperand_withLead hlead hbinders hcore.balanced
      exact ⟨hwhole.toIsPhrase, hwhole⟩

/-- The parentheses that an operand needs take one level. -/
lemma Writes.operand (h : Writes st.text.toList st levels merges) (hst : IsPhrase st.text.toList) :
    Writes st.operandChars st (st.needsParentheses.toNat + levels) merges := by
  rw [operandChars]
  cases st.needsParentheses with
  | false =>
    rw [Bool.toNat_false, Nat.zero_add]
    exact h
  | true => exact h.enclose hst.balanced

/-- The text of a readable statement is read again. -/
theorem IsReadable.writes {st : Statement} (h : st.IsReadable) :
    Writes st.text.toList st st.textLevels (∃ a ∈ st.atoms, a.RunsTogether) := by
  match st with
  | .atom a => exact (WrittenAtom.IsReadable.writes h).congr (by simp [atoms])
  | .scoped negated (first :: more) none operand =>
    -- an operand that took the binders would be read as one node with them
    obtain ⟨-, -, hbinders, htakes, hoperand⟩ := h
    have hwhole := hoperand.writes.withLead hoperand.isPhrase.1.balanced hbinders negated
    rw [signed_bound_of_takesBinders htakes] at hwhole
    exact hwhole
  | .joined negated binders (some op) left right =>
    obtain ⟨-, hbinders, hleft, hright⟩ := h
    have hcore := (hleft.writes.operand hleft.isPhrase.1).join
      (hright.writes.operand hright.isPhrase.1) hleft.isPhrase.2 hright.isPhrase.2.toIsPhrase op
    have hphrase := hleft.isPhrase.2.toIsPhrase.join hright.isPhrase.2.toIsPhrase op
    rw [← toList_core] at hcore hphrase
    have hwhole := hcore.withLead hphrase.balanced hbinders negated
    rw [signed_bound_join] at hwhole
    refine hwhole.congr ?_
    simp only [atoms, List.mem_append, or_and_right, exists_or]

/-- A text that can stand in parentheses is read as a whole. -/
lemma parse_of_isPhrase {text : String} (h : IsPhrase text.toList) :
    parse text = (readSpan ⟨0, text.toList⟩ 0).map some := by
  have hmatched : Span.unmatched? ⟨0, text.toList⟩ = none :=
    Span.unmatched?_eq_none_iff.mpr h.balanced
  unfold parse
  simp only [hmatched, Span.trim_of_isTrimmed h.trimmed, h.trimmed.isEmpty_eq_false,
    Bool.false_eq_true, if_false]

/-- How the text of a readable statement is read as a whole. -/
lemma IsReadable.exists_parse_text {st : Statement} (h : st.IsReadable) :
    ∃ result, parse st.text = result.map some ∧
      Rereads st st.textLevels (∃ a ∈ st.atoms, a.RunsTogether) 0 result :=
  ⟨readSpan ⟨0, st.text.toList⟩ 0, parse_of_isPhrase h.isPhrase.1, h.writes 0 0⟩

/-- The text of a readable statement is read as this statement if its levels fit and no variable
runs together with a name. -/
lemma IsReadable.parse_text {st : Statement} (h : st.IsReadable)
    (hfits : st.textLevels < maxNesting) (hapart : ∀ a ∈ st.atoms, ¬ a.RunsTogether) :
    parse st.text = .ok (some st) := by
  obtain ⟨result, hparse, hresult⟩ := h.exists_parse_text
  rw [hparse]
  cases hresult with
  | same _ _ => rfl
  | tooDeep _ hdeep => omega
  | badBoundVariable _ hmerges =>
    obtain ⟨a, ha, hruns⟩ := hmerges
    exact absurd hruns (hapart a ha)

/-- The text of a statement that was read is never read as another statement.  It is read as the
same one, or it is nested too deeply, or the variable of an atom's quantifier runs together with the
name. -/
theorem parse_text_of_parse {text : String} {st : Statement} (h : parse text = .ok (some st)) :
    parse st.text = .ok (some st) ∨
      (∃ position, parse st.text = .error ⟨.tooDeep, position⟩) ∨
      (∃ position, parse st.text = .error ⟨.badBoundVariable, position⟩) ∧
        ∃ a ∈ st.atoms, a.RunsTogether := by
  obtain ⟨result, hparse, hresult⟩ := (isReadable_of_parse h).exists_parse_text
  rw [hparse]
  cases hresult with
  | same _ _ => exact Or.inl rfl
  | tooDeep position _ => exact Or.inr (Or.inl ⟨position, rfl⟩)
  | badBoundVariable position hmerges => exact Or.inr (Or.inr ⟨⟨position, rfl⟩, hmerges⟩)

/-- Every `x` is `p`. -/
def allp : Statement :=
  .atom ⟨some ⟨.universal, "x"⟩, false, "p", some "x"⟩

lemma parse_allp : parse "∀x p(x)" = .ok (some allp) := by
  have hatom : readSpan ⟨3, "p(x)".toList⟩ 1 = .ok (.atom ⟨none, false, "p", some "x"⟩) := by
    rw [readSpan]
    rfl
  have hquantified : readSpan ⟨0, "∀x p(x)".toList⟩ 0 =
      (readSpan ⟨3, "p(x)".toList⟩ 1).map (bind ⟨.universal, "x"⟩ [] false) := by
    rw [readSpan]
    rfl
  have hparse : parse "∀x p(x)" = (readSpan ⟨0, "∀x p(x)".toList⟩ 0).map some :=
    rfl
  rw [hparse, hquantified, hatom]
  rfl

/-- The statement that every `x` is `p` is written without the blank before `p`. -/
theorem parse_text_allp : parse "∀x p(x)" = .ok (some allp) ∧
    (parse allp.text = .ok (some allp) ∨
      (∃ position, parse allp.text = .error ⟨.tooDeep, position⟩) ∨
      (∃ position, parse allp.text = .error ⟨.badBoundVariable, position⟩) ∧
        ∃ a ∈ allp.atoms, a.RunsTogether) :=
  ⟨parse_allp, parse_text_of_parse parse_allp⟩

/-- The text of a statement that was read is accepted exactly if its levels fit and no variable runs
together with a name. -/
theorem parse_text_eq_ok_iff {text : String} {st : Statement} (h : parse text = .ok (some st)) :
    (∃ result, parse st.text = .ok result) ↔
      st.textLevels < maxNesting ∧ ∀ a ∈ st.atoms, ¬ a.RunsTogether := by
  obtain ⟨result, hparse, hresult⟩ := (isReadable_of_parse h).exists_parse_text
  rw [hparse]
  cases hresult with
  | same hfits hapart =>
    rw [Nat.zero_add] at hfits
    exact iff_of_true ⟨some st, rfl⟩ ⟨hfits, fun a ha hruns => hapart ⟨a, ha, hruns⟩⟩
  | tooDeep position hdeep =>
    rw [Nat.zero_add] at hdeep
    refine iff_of_false ?_ (fun hfits => absurd hfits.1 (Nat.not_lt.mpr hdeep))
    rintro ⟨_, hok⟩
    cases hok
  | badBoundVariable position hmerges =>
    obtain ⟨a, ha, hruns⟩ := hmerges
    refine iff_of_false ?_ (fun hfits => hfits.2 a ha hruns)
    rintro ⟨_, hok⟩
    cases hok

/-- The statement that every `x` is `p` takes few levels, and its text is refused. -/
theorem parse_text_allp_eq_ok_iff : parse "∀x p(x)" = .ok (some allp) ∧
    ((∃ result, parse allp.text = .ok result) ↔
      allp.textLevels < maxNesting ∧ ∀ a ∈ allp.atoms, ¬ a.RunsTogether) :=
  ⟨parse_allp, parse_text_eq_ok_iff parse_allp⟩

/-- The predicate `P` under `n` binders `∀x`. -/
def runOverP (n : ℕ) : Statement :=
  .scoped false (List.replicate n ⟨.universal, "x"⟩) none (.atom ⟨none, false, "P", none⟩)

variable {n : ℕ}

lemma isReadable_runOverP : (runOverP (n + 2)).IsReadable := by
  have hatom : WrittenAtom.IsReadable ⟨none, false, "P", none⟩ := by decide +kernel
  refine ⟨rfl, List.cons_ne_nil _ _, fun b hb => ?_, rfl, hatom⟩
  rw [List.eq_of_mem_replicate hb]
  exact ⟨'x', by decide +kernel, rfl⟩

/-- A run of binders before `P` without parentheses is read if there is a level for each of them. -/
lemma parse_runOverP (hn : n + 2 < maxNesting) :
    parse (leadText false (List.replicate (n + 2) ⟨.universal, "x"⟩) ++ "P") =
      .ok (some (runOverP (n + 2))) := by
  obtain ⟨-, -, hbinders, -, hatom⟩ := isReadable_runOverP (n := n)
  have hoperand : IsOperand "P".toList := WrittenAtom.IsReadable.isOperand hatom
  have hends : EndsRun "P".toList := ⟨'P', [], rfl, by decide, by decide, by decide +kernel⟩
  have hwrites : Writes (runChars (List.replicate (n + 2) ⟨.universal, "x"⟩) ++ "P".toList)
      (runOverP (n + 2)) ((List.replicate (n + 2) (⟨.universal, "x"⟩ : Binder)).length + 0) False :=
    (WrittenAtom.IsReadable.writes_body hatom).bind hoperand hends hbinders
      (fun start => congrArg Option.isSome (Span.enclosed?_of_ne (by decide)))
  have hphrase := (isOperand_run hbinders hoperand).toIsPhrase
  have hchars : (leadText false (List.replicate (n + 2) ⟨.universal, "x"⟩) ++ "P").toList =
      runChars (List.replicate (n + 2) ⟨.universal, "x"⟩) ++ "P".toList := by
    rw [String.toList_append, toList_leadText]
    rfl
  rw [← List.replicate_succ, ← hchars] at hphrase
  have hread := hwrites 0 0
  rw [parse_of_isPhrase hphrase, hchars]
  generalize readSpan ⟨0, _⟩ 0 = result at hread ⊢
  rw [List.length_replicate] at hread
  cases hread with
  | same _ _ => rfl
  | tooDeep _ hdeep => omega
  | badBoundVariable _ hmerges => exact absurd hmerges not_false

/-- The text of `P` under a run of binders has parentheses, which take one level more. -/
lemma parse_text_runOverP (hn : maxNesting ≤ n + 3) :
    ∃ position, parse (runOverP (n + 2)).text = .error ⟨.tooDeep, position⟩ := by
  obtain ⟨result, hparse, hresult⟩ := (isReadable_runOverP (n := n)).exists_parse_text
  have hlevels : (runOverP (n + 2)).textLevels = n + 3 := by
    simp [runOverP, textLevels, leadLevels, WrittenAtom.textLevels, argumentLevels]
  rw [hlevels] at hresult
  rw [hparse]
  cases hresult with
  | same hfits _ => omega
  | tooDeep position _ => exact ⟨position, rfl⟩
  | badBoundVariable _ hmerges =>
    obtain ⟨a, ha, hbinder, -⟩ := hmerges
    obtain rfl := List.mem_singleton.mp ha
    exact absurd hbinder Bool.false_ne_true

/-- The text of a statement that was read may be refused, because a variable runs together with a
name or because its parentheses are one level too many. -/
theorem parse_text_eq_error :
    (parse "∀x p(x)" = .ok (some allp) ∧ parse allp.text = .error ⟨.badBoundVariable, 2⟩) ∧
      parse (leadText false (List.replicate 255 ⟨.universal, "x"⟩) ++ "P") =
        .ok (some (runOverP 255)) ∧
      ∃ position, parse (runOverP 255).text = .error ⟨.tooDeep, position⟩ := by
  have htext : allp.text = "∀xp(x)" := rfl
  have hquantified : readSpan ⟨0, "∀xp(x)".toList⟩ 0 = .error ⟨.badBoundVariable, 2⟩ := by
    rw [readSpan]
    rfl
  have hparse : parse "∀xp(x)" = (readSpan ⟨0, "∀xp(x)".toList⟩ 0).map some :=
    rfl
  have hbad : parse allp.text = .error ⟨.badBoundVariable, 2⟩ := by
    rw [htext, hparse, hquantified]
    rfl
  have hfits : 253 + 2 < maxNesting := by decide
  have hdeep : maxNesting ≤ 253 + 3 := by decide
  exact ⟨⟨parse_allp, hbad⟩, parse_runOverP hfits, parse_text_runOverP hdeep⟩

end Statement

end Clausal
