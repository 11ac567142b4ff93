import Clausal.Proofs.ReadableStatements

/-!
# Reading a text in parts

A text is put together from other texts by a sign, binders, parentheses or a connective.  `Writes`
says of a text how it is read, wherever it stands: as which statement, how many levels it takes and
when a variable in it runs together with a name.  There is one lemma for each way of putting texts
together.

Two operands around a connective must be told apart, so an operand has no connective outside its
parentheses.  Only names, signs, binders and text in parentheses are of this kind.
-/

namespace Clausal

namespace Text

/-! ## Operands -/

/-- A text that can stand in parentheses. -/
structure IsPhrase (cs : List Char) : Prop where
  trimmed : IsTrimmed cs
  balanced : Balanced cs

/-- A text that can stand beside a connective: it has none itself outside its parentheses. -/
structure IsOperand (cs : List Char) : Prop extends IsPhrase cs where
  connectiveFrom_eq (i : ℕ) : Span.connectiveFrom cs 0 i = none

/-- Whether a character after a variable is part of its name. -/
def continuesVariable (c : Char) : Bool :=
  isLowercase c || isNumeric c || c == '_'

/-- No mark is part of a name. -/
lemma continuesVariable_of_mem_marks {c : Char} (h : c ∈ marks) : continuesVariable c = false := by
  obtain ⟨-, hword, hlower, hnumeric⟩ := classes_of_mem_marks c h
  rw [isWordChar, Bool.or_eq_false_iff] at hword
  rw [continuesVariable, hlower, hnumeric, hword.2]
  rfl

variable {u w : List Char} {c : Char}

lemma IsTrimmed.append (hu : IsTrimmed u) (hw : IsTrimmed w) (mid : List Char) :
    IsTrimmed (u ++ (mid ++ w)) := by
  obtain ⟨c, hhead, hc⟩ := hu.head
  obtain ⟨d, hlast, hd⟩ := hw.last
  refine ⟨⟨c, ?_, hc⟩, ⟨d, ?_, hd⟩⟩
  · rw [List.head?_append, hhead, Option.some_or]
  · rw [List.getLast?_append, List.getLast?_append, hlast, Option.some_or, Option.some_or]

/-- The phrase made of two operands and a connective. -/
lemma IsPhrase.join (hu : IsPhrase u) (hw : IsPhrase w) (op : Connective) :
    IsPhrase (u ++ ' ' :: op.symbol :: ' ' :: w) := by
  refine ⟨hu.trimmed.append hw.trimmed [' ', op.symbol, ' '], hu.balanced.append ?_⟩
  have hspace := hw.balanced.cons (c := ' ') (by decide) (by decide)
  exact (hspace.cons op.symbol_ne.1 op.symbol_ne.2).cons (by decide) (by decide)

/-- A phrase in parentheses is an operand. -/
lemma Balanced.isOperand_enclose (h : Balanced u) : IsOperand ('(' :: u ++ [')']) where
  trimmed := by
    refine ⟨⟨'(', rfl, by decide⟩, ⟨')', ?_, by decide⟩⟩
    exact List.getLast?_concat
  balanced := h.enclose
  connectiveFrom_eq i := by
    rw [List.cons_append, Span.connectiveFrom_open, Span.connectiveFrom_append (openAfter_add h 1),
      Span.connectiveFrom_eq_none h]
    rfl

/-- A plain character is neither a parenthesis nor a connective. -/
structure IsPlain (c : Char) : Prop where
  ne_open : c ≠ '('
  ne_close : c ≠ ')'
  ofSymbol?_eq : Connective.ofSymbol? c = none

lemma isPlain_of_notMem_marks (h : c ∉ marks) : IsPlain c :=
  ⟨(ne_of_notMem_marks h).1, (ne_of_notMem_marks h).2, Connective.ofSymbol?_of_notMem_marks h⟩

lemma isPlain_symbol (q : Quantifier) : IsPlain q.symbol := by
  cases q <;> exact ⟨by decide, by decide, by decide⟩

/-- No connective is found in plain characters. -/
lemma connectiveFrom_of_forall_isPlain {lead : List Char} (h : ∀ c ∈ lead, IsPlain c) (n i : ℕ) :
    Span.connectiveFrom lead n i = none := by
  induction lead generalizing i with
  | nil => rfl
  | cons c lead ih =>
    obtain ⟨hc, hlead⟩ := List.forall_mem_cons.mp h
    rw [Span.connectiveFrom_cons hc.ne_open hc.ne_close hc.ofSymbol?_eq]
    exact ih hlead (i + 1)

/-- Plain characters can stand in front of an operand. -/
lemma IsOperand.prepend {lead : List Char} (h : IsOperand u) (hlead : ∀ c ∈ lead, IsPlain c)
    (hhead : ∃ c, lead.head? = some c ∧ isBlank c = false) : IsOperand (lead ++ u) := by
  have hbalanced : Balanced lead :=
    openAfter_of_forall_ne (fun c hc => ⟨(hlead c hc).ne_open, (hlead c hc).ne_close⟩) 0
  refine ⟨⟨⟨?_, ?_⟩, hbalanced.append h.balanced⟩, fun i => ?_⟩
  · obtain ⟨c, hhead, hc⟩ := hhead
    exact ⟨c, by rw [List.head?_append, hhead, Option.some_or], hc⟩
  · obtain ⟨d, hlast, hd⟩ := h.trimmed.last
    exact ⟨d, by rw [List.getLast?_append, hlast, Option.some_or], hd⟩
  · rw [Span.connectiveFrom_append hbalanced, connectiveFrom_of_forall_isPlain hlead,
      h.connectiveFrom_eq]
    rfl

lemma IsOperand.cons (h : IsOperand u) (hc : IsPlain c) (hblank : isBlank c = false) :
    IsOperand (c :: u) :=
  h.prepend (List.forall_mem_singleton.mpr hc) ⟨c, rfl, hblank⟩

/-- Balanced text without a connective outside its parentheses can stand behind an operand. -/
lemma IsOperand.append (h : IsOperand u) (hw : Balanced w)
    (hnone : ∀ i, Span.connectiveFrom w 0 i = none)
    (hlast : ∀ c, w.getLast? = some c → isBlank c = false) : IsOperand (u ++ w) := by
  refine ⟨⟨⟨?_, ?_⟩, h.balanced.append hw⟩, fun i => ?_⟩
  · obtain ⟨c, hhead, hc⟩ := h.trimmed.head
    exact ⟨c, by rw [List.head?_append, hhead, Option.some_or], hc⟩
  · rw [List.getLast?_append]
    cases hw : w.getLast? with
    | none => exact h.trimmed.last
    | some d => exact ⟨d, rfl, hlast d hw⟩
  · rw [Span.connectiveFrom_append h.balanced, h.connectiveFrom_eq, hnone]
    rfl

/-- A name is an operand. -/
lemma isOperand_of_forall_isWordChar (hne : u ≠ []) (h : ∀ c ∈ u, isWordChar c = true) :
    IsOperand u := by
  have hmarks : ∀ c ∈ u, c ∉ marks := fun c hc => notMem_marks_of_isWordChar (h c hc)
  have hblank : ∀ c ∈ u, isBlank c = false := fun c hc => isBlank_of_isWordChar (h c hc)
  refine ⟨⟨⟨?_, ?_⟩, balanced_of_forall_notMem_marks hmarks⟩, fun i => ?_⟩
  · exact ⟨u.head hne, List.head?_eq_some_head hne, hblank _ (List.head_mem hne)⟩
  · exact ⟨u.getLast hne, List.getLast?_eq_some_getLast hne, hblank _ (List.getLast_mem hne)⟩
  · exact connectiveFrom_of_forall_isPlain (fun c hc => isPlain_of_notMem_marks (hmarks c hc)) 0 i

end Text

open Text

/-! ## Reading a text in parts -/

namespace Span

variable {start : ℕ} {u w : List Char}

lemma trimStart_cons {c : Char} (hc : isBlank c = false) :
    trimStart ⟨start, c :: u⟩ = ⟨start, c :: u⟩ := by
  rw [trimStart, Text.trimStart, List.takeWhile_cons, List.dropWhile_cons, hc]
  rfl

lemma trim_of_isTrimmed (h : IsTrimmed u) : trim ⟨start, u⟩ = ⟨start, u⟩ := by
  have hend := trimEnd_of_last h.last
  obtain ⟨c, rest, rfl, hc⟩ := h.exists_eq_cons
  rw [trim, trimStart_cons hc, hend]

lemma trim_append_blank {gap : List Char} (h : IsTrimmed u) (hgap : ∀ c ∈ gap, isBlank c = true) :
    trim ⟨start, u ++ gap⟩ = trim ⟨start, u⟩ := by
  have hend := trimEnd_append (a := u) hgap
  obtain ⟨c, rest, rfl, hc⟩ := h.exists_eq_cons
  rw [trim, trim, List.cons_append, trimStart_cons hc, trimStart_cons hc, ← List.cons_append, hend]

lemma trim_cons_blank : trim ⟨start, ' ' :: w⟩ = trim ⟨start + 1, w⟩ := by
  have hstart : trimStart ⟨start, ' ' :: w⟩ = trimStart ⟨start + 1, w⟩ := by
    rw [trimStart, trimStart, Nat.add_right_comm]
    rfl
  rw [trim, trim, hstart]

/-- An operand is not split. -/
lemma splitConnective?_of_isOperand (h : IsOperand u) : splitConnective? ⟨start, u⟩ = none := by
  rw [splitConnective?, h.connectiveFrom_eq]
  rfl

/-- A text is split at its first connective outside all parentheses. -/
lemma splitConnective?_append (hu : Balanced u) (hnone : connectiveFrom u 0 0 = none)
    (op : Connective) :
    splitConnective? ⟨start, u ++ op.symbol :: w⟩ =
      some (⟨start, u⟩, op, ⟨start + u.length + 1, w⟩) := by
  have hfind : connectiveFrom (u ++ op.symbol :: w) 0 0 = some (u.length, op) := by
    rw [connectiveFrom_append hu, hnone, Option.none_or, Nat.zero_add, connectiveFrom_symbol]
  rw [splitConnective?, hfind, Option.map_some]
  dsimp only
  rw [List.take_left, ← List.drop_drop, List.drop_left]
  rfl

/-- Two operands are split at their connective. -/
lemma splitConnective?_join (h : IsOperand u) (op : Connective) :
    splitConnective? ⟨start, u ++ ' ' :: op.symbol :: ' ' :: w⟩ =
      some (⟨start, u ++ [' ']⟩, op, ⟨start + (u.length + 1) + 1, ' ' :: w⟩) := by
  have hbalanced : Balanced (u ++ [' ']) := h.balanced.append rfl
  have hnone : connectiveFrom (u ++ [' ']) 0 0 = none := by
    rw [connectiveFrom_append h.balanced, h.connectiveFrom_eq]
    rfl
  have hsplit : u ++ ' ' :: op.symbol :: ' ' :: w = (u ++ [' ']) ++ op.symbol :: ' ' :: w := by
    rw [List.append_assoc]
    rfl
  rw [hsplit, splitConnective?_append hbalanced hnone, List.length_append]
  rfl

lemma enclosed?_of_ne {c : Char} (hc : c ≠ '(') : enclosed? ⟨start, c :: u⟩ = none := by
  unfold enclosed?
  split
  · rename_i heq
    exact absurd (List.cons.inj heq).1 hc
  · rfl

/-- The parentheses around a balanced text are taken off. -/
lemma enclosed?_of_balanced (h : Balanced u) :
    enclosed? ⟨start, '(' :: u ++ [')']⟩ = some ⟨start + 1, u⟩ := by
  have hlength : (u ++ [')']).length = u.length + 1 := List.length_append
  rw [enclosed?]
  simp only [List.cons_append]
  rw [← List.cons_append, closing?_of_balanced h, hlength, if_pos rfl, List.dropLast_concat]

/-- Parentheses that close before the end do not enclose a text. -/
lemma enclosed?_append (hu : Balanced u) (hw : w ≠ []) :
    enclosed? ⟨start, '(' :: u ++ [')'] ++ w⟩ = none := by
  have hchars : '(' :: u ++ [')'] ++ w = '(' :: (u ++ ')' :: w) := by
    rw [List.append_assoc]
    rfl
  have hclosing : closing? ('(' :: (u ++ ')' :: w)) = some (u.length + 1) :=
    closing?_of_balanced hu w
  have hlength : some (u.length + 1) ≠ some (u ++ ')' :: w).length := by
    have hpos := List.length_pos_iff.mpr hw
    rw [Ne, Option.some.injEq, List.length_append, List.length_cons]
    omega
  rw [hchars, enclosed?, hclosing]
  exact if_neg hlength

end Span

namespace Statement

/-- How a text that stands `depth` levels deep and takes `levels` of them is read.  It is read as
`st` if it fits and if no variable runs together with a name, which is the case if `merges`. -/
inductive Rereads (st : Statement) (levels : ℕ) (merges : Prop) (depth : ℕ) :
    Except ParseError Statement → Prop
  | same (hfits : depth + levels < maxNesting) (hapart : ¬ merges) :
      Rereads st levels merges depth (.ok st)
  | tooDeep (position : ℕ) (hdeep : maxNesting ≤ depth + levels) :
      Rereads st levels merges depth (failAt .tooDeep position)
  | badBoundVariable (position : ℕ) (hmerges : merges) :
      Rereads st levels merges depth (failAt .badBoundVariable position)

/-- A text is read as `st` wherever it stands, unless the `levels` it takes do not fit or a variable
runs together with a name. -/
def Writes (cs : List Char) (st : Statement) (levels : ℕ) (merges : Prop) : Prop :=
  ∀ start depth, Rereads st levels merges depth (readSpan ⟨start, cs⟩ depth)

/-- Two conditions that come to the same can stand for each other. -/
lemma Writes.congr {cs : List Char} {st : Statement} {levels : ℕ} {merges merges' : Prop}
    (h : Writes cs st levels merges) (hiff : merges ↔ merges') : Writes cs st levels merges' := by
  rwa [← propext hiff]

variable {st l r : Statement} {levels levels' depth position : ℕ} {merges merges' : Prop}
  {u w : List Char} {result : Except ParseError Statement}

/-- A text at the limit is too deep. -/
lemma Rereads.guard (h : depth < maxNesting → Rereads st levels merges depth result) :
    Rereads st levels merges depth
      (if maxNesting ≤ depth then failAt .tooDeep position else result) := by
  split
  · exact .tooDeep position (by omega)
  · exact h (by omega)

/-- What stands `more` levels deeper takes as many levels more. -/
lemma Rereads.deeper {more : ℕ} (h : Rereads st levels merges (depth + more) result) :
    Rereads st (more + levels) merges depth result := by
  cases h with
  | same hfits hapart => exact .same (by omega) hapart
  | tooDeep position hdeep => exact .tooDeep position (by omega)
  | badBoundVariable position hmerges => exact .badBoundVariable position hmerges

lemma Rereads.map (h : Rereads st levels merges depth result) (f : Statement → Statement) :
    Rereads (f st) levels merges depth (result.map f) := by
  cases h with
  | same hfits hapart => exact .same hfits hapart
  | tooDeep position hdeep => exact .tooDeep position hdeep
  | badBoundVariable position hmerges => exact .badBoundVariable position hmerges

/-- The first of two operands that cannot be read is to blame. -/
lemma Rereads.join {result' : Except ParseError Statement}
    (hl : Rereads l levels merges (depth + 1) result)
    (hr : Rereads r levels' merges' (depth + 1) result') (op : Connective) :
    Rereads (join op l r) (1 + max levels levels') (merges ∨ merges') depth
      (do let l ← result; let r ← result'; pure (Statement.join op l r)) := by
  cases hl with
  | tooDeep position hdeep => exact .tooDeep position (by omega)
  | badBoundVariable position hmerges => exact .badBoundVariable position (Or.inl hmerges)
  | same hfits hapart =>
    cases hr with
    | tooDeep position hdeep => exact .tooDeep position (by omega)
    | badBoundVariable position hmerges => exact .badBoundVariable position (Or.inr hmerges)
    | same hfits' hapart' => exact .same (by omega) (not_or.mpr ⟨hapart, hapart'⟩)

/-- Reading depends only on what is left when blanks are trimmed. -/
lemma readSpan_congr {s s' : Span} (h : s.trim = s'.trim) :
    readSpan s depth = readSpan s' depth := by
  rw [readSpan, readSpan, h]

/-- How a text in parentheses is read. -/
lemma readSpan_enclose {start : ℕ} (hu : Balanced u) :
    readSpan ⟨start, '(' :: u ++ [')']⟩ depth =
      if maxNesting ≤ depth then failAt .tooDeep start
      else readSpan ⟨start + 1, u⟩ (depth + 1) := by
  have hoperand := hu.isOperand_enclose
  rw [readSpan, Span.trim_of_isTrimmed hoperand.trimmed,
    Span.splitConnective?_of_isOperand hoperand, Span.enclosed?_of_balanced hu]
  rfl

/-- How an operand under a negation sign is read. -/
lemma readSpan_negate {start : ℕ} (hu : IsOperand u) :
    readSpan ⟨start, '¬' :: u⟩ depth =
      if maxNesting ≤ depth then failAt .tooDeep start
      else (readSpan ⟨start + 1, u⟩ (depth + 1)).map negate := by
  have hoperand : IsOperand ('¬' :: u) := hu.cons ⟨by decide, by decide, by decide⟩ (by decide)
  rw [readSpan, Span.trim_of_isTrimmed hoperand.trimmed,
    Span.splitConnective?_of_isOperand hoperand]
  dsimp only
  rw [if_pos rfl, bind_pure_comp]
  rfl

/-- A text in parentheses with something behind it, which no connective separates, is not read.  It
would be a predicate without a name. -/
lemma readSpan_enclose_append {start : ℕ} (hu : Balanced u) (h : IsOperand ('(' :: u ++ [')'] ++ w))
    (hw : w ≠ []) :
    readSpan ⟨start, '(' :: u ++ [')'] ++ w⟩ depth =
      if maxNesting ≤ depth then failAt .tooDeep start else failAt .missingPredicateName start := by
  rw [readSpan, Span.trim_of_isTrimmed h.trimmed, Span.splitConnective?_of_isOperand h,
    Span.enclosed?_append hu hw]
  rfl

/-- How a text with a connective outside all parentheses is read. -/
lemma readSpan_of_splitConnective? {s left right : Span} {op : Connective}
    (h : s.trim.splitConnective? = some (left, op, right)) (hleft : left.trim.chars ≠ [])
    (hright : right.trim.chars ≠ []) :
    readSpan s depth =
      if maxNesting ≤ depth then failAt .tooDeep s.trim.start
      else (do
        let l ← readSpan left (depth + 1)
        let r ← readSpan right (depth + 1)
        pure (join op l r)) := by
  have hchars : s.trim.chars ≠ [] := by
    intro hnil
    rw [Span.splitConnective?, hnil] at h
    cases h
  obtain ⟨c, rest, hcons⟩ := List.exists_cons_of_ne_nil hchars
  have hblank : (left.trim.chars.isEmpty || right.trim.chars.isEmpty) = false := by
    rw [List.isEmpty_eq_false_iff.mpr hleft, List.isEmpty_eq_false_iff.mpr hright]
    rfl
  rw [readSpan, hcons, h]
  simp only [hblank, Bool.false_eq_true, if_false]

/-! ## Putting texts together -/

namespace Writes

/-- A text in parentheses. -/
lemma enclose (h : Writes u st levels merges) (hu : Balanced u) :
    Writes ('(' :: u ++ [')']) st (1 + levels) merges := by
  intro start depth
  rw [readSpan_enclose hu]
  exact Rereads.guard fun _ => (h (start + 1) (depth + 1)).deeper

/-- A negation sign and what it negates. -/
lemma negate (h : Writes u st levels merges) (hu : IsOperand u) :
    Writes ('¬' :: u) st.negate (1 + levels) merges := by
  intro start depth
  rw [readSpan_negate hu]
  exact Rereads.guard fun _ => ((h (start + 1) (depth + 1)).map _).deeper

/-- Two operands and their connective. -/
lemma join (hl : Writes u l levels merges) (hr : Writes w r levels' merges') (hu : IsOperand u)
    (hw : IsPhrase w) (op : Connective) :
    Writes (u ++ ' ' :: op.symbol :: ' ' :: w) (join op l r) (1 + max levels levels')
      (merges ∨ merges') := by
  intro start depth
  have hsplit : (Span.trim ⟨start, u ++ ' ' :: op.symbol :: ' ' :: w⟩).splitConnective? =
      some (⟨start, u ++ [' ']⟩, op, ⟨start + (u.length + 1) + 1, ' ' :: w⟩) := by
    rw [Span.trim_of_isTrimmed (hu.toIsPhrase.join hw op).trimmed, Span.splitConnective?_join hu op]
  -- the blanks around the connective are left to the operands, which are trimmed when they are read
  have hblank : Span.trim ⟨start, u ++ [' ']⟩ = Span.trim ⟨start, u⟩ :=
    Span.trim_append_blank hu.trimmed (List.forall_mem_singleton.mpr rfl)
  have hleft : (Span.trim ⟨start, u ++ [' ']⟩).chars ≠ [] := by
    rw [hblank, Span.trim_of_isTrimmed hu.trimmed]
    exact List.isEmpty_eq_false_iff.mp hu.trimmed.isEmpty_eq_false
  have hright : (Span.trim ⟨start + (u.length + 1) + 1, ' ' :: w⟩).chars ≠ [] := by
    rw [Span.trim_cons_blank, Span.trim_of_isTrimmed hw.trimmed]
    exact List.isEmpty_eq_false_iff.mp hw.trimmed.isEmpty_eq_false
  rw [readSpan_of_splitConnective? hsplit hleft hright, readSpan_congr hblank,
    readSpan_congr Span.trim_cons_blank]
  exact Rereads.guard fun _ => (hl start (depth + 1)).join (hr _ (depth + 1)) op

end Writes

/-! ## Binders -/

/-- The characters of a run of binders. -/
def runChars (binders : List Binder) : List Char :=
  binders.flatMap (fun b => b.text.toList)

/-- A text that can stand after a run of binders: its first character is not blank, and it belongs
neither to the name of the last variable nor to one more binder. -/
def EndsRun (u : List Char) : Prop :=
  ∃ c rest, u = c :: rest ∧ isBlank c = false ∧ Quantifier.ofSymbol? c = none ∧
    continuesVariable c = false

variable {start : ℕ} {v c : Char} {rest : List Char} {first : Binder} {more : List Binder}

/-- A variable is read if the next character does not belong to its name. -/
lemma readBoundVariable_eq_ok (hv : isLowercase v = true) (hc : isBlank c = false)
    (hcontinues : continuesVariable c = false) :
    readBoundVariable ⟨start, v :: c :: rest⟩ = .ok (v.toString, ⟨start + 1, c :: rest⟩) := by
  unfold readBoundVariable continuesVariable at *
  simp only [hv, Bool.not_true, Bool.false_eq_true, if_false, hcontinues, Span.trimStart_cons hc]

/-- A variable is refused if the next character belongs to its name. -/
lemma readBoundVariable_eq_failAt (hv : isLowercase v = true)
    (hcontinues : continuesVariable c = true) :
    readBoundVariable ⟨start, v :: c :: rest⟩ = failAt .badBoundVariable (start + 1) := by
  unfold readBoundVariable continuesVariable at *
  simp only [hv, Bool.not_true, Bool.false_eq_true, if_false, hcontinues, if_true]

/-- A readable binder is written as its quantifier and one lowercase character. -/
lemma exists_toList_text (h : first.IsReadable) :
    ∃ v, isLowercase v = true ∧ first.var = v.toString ∧
      first.text.toList = [first.quantifier.symbol, v] := by
  obtain ⟨v, hv, hvar⟩ := h
  refine ⟨v, hv, hvar, ?_⟩
  rw [Binder.text, String.toList_append, hvar]
  simp

/-- The quantifier of one more binder does not belong to the name of a variable. -/
lemma exists_cons_of_endsRun (hmore : ∀ b ∈ more, b.IsReadable) (hu : EndsRun u) :
    ∃ c rest, runChars more ++ u = c :: rest ∧ isBlank c = false ∧ continuesVariable c = false := by
  cases more with
  | nil =>
    obtain ⟨c, rest, rfl, hblank, -, hcontinues⟩ := hu
    exact ⟨c, rest, rfl, hblank, hcontinues⟩
  | cons b more =>
    obtain ⟨v, -, -, htext⟩ := exists_toList_text (hmore b List.mem_cons_self)
    refine ⟨b.quantifier.symbol, v :: (runChars more ++ u), ?_, ?_⟩
    · rw [runChars, List.flatMap_cons, htext]
      rfl
    · have hmark : b.quantifier.symbol ∈ marks := by cases b.quantifier <;> decide
      exact ⟨(classes_of_mem_marks _ hmark).1, continuesVariable_of_mem_marks hmark⟩

/-- The first variable of a run is read. -/
lemma readBoundVariable_run (hfirst : first.IsReadable) (hmore : ∀ b ∈ more, b.IsReadable)
    (hu : EndsRun u) :
    ∃ v, runChars (first :: more) ++ u = first.quantifier.symbol :: v :: (runChars more ++ u) ∧
      ∀ start, readBoundVariable ⟨start, v :: (runChars more ++ u)⟩ =
        .ok (first.var, ⟨start + 1, runChars more ++ u⟩) := by
  obtain ⟨v, hv, hvar, htext⟩ := exists_toList_text hfirst
  obtain ⟨c, rest, hnext, hblank, hcontinues⟩ := exists_cons_of_endsRun hmore hu
  refine ⟨v, ?_, fun start => ?_⟩
  · rw [runChars, List.flatMap_cons, htext, List.append_assoc]
    rfl
  · rw [hnext, hvar]
    exact readBoundVariable_eq_ok hv hblank hcontinues

/-- A run of binders is read if there are enough levels. -/
lemma readBinders_run (hmore : ∀ b ∈ more, b.IsReadable) (hu : EndsRun u) (n start : ℕ) :
    (∃ position, n < more.length ∧ readBinders n ⟨start, runChars more ++ u⟩ =
      failAt .tooDeep position) ∨
      ∃ position, readBinders n ⟨start, runChars more ++ u⟩ = .ok (more, ⟨position, u⟩) := by
  induction more generalizing n start with
  | nil =>
    obtain ⟨c, rest, rfl, -, hquantifier, -⟩ := hu
    refine Or.inr ⟨start, ?_⟩
    unfold readBinders
    simp only [runChars, List.flatMap_nil, List.nil_append, hquantifier]
  | cons b more ih =>
    obtain ⟨hb, hmore⟩ := List.forall_mem_cons.mp hmore
    obtain ⟨v, hchars, hvariable⟩ := readBoundVariable_run hb hmore hu
    rw [hchars]
    cases n with
    | zero =>
      refine Or.inl ⟨start, Nat.succ_pos _, ?_⟩
      unfold readBinders
      simp only [Quantifier.ofSymbol?_symbol]
    | succ n =>
      have hread : readBinders (n + 1) ⟨start, b.quantifier.symbol :: v :: (runChars more ++ u)⟩ =
          (fun run => (b :: run.1, run.2)) <$>
            readBinders n ⟨start + 1 + 1, runChars more ++ u⟩ := by
        rw [readBinders]
        simp only [Quantifier.ofSymbol?_symbol, hvariable]
        exact bind_pure_comp _ (readBinders n ⟨start + 1 + 1, runChars more ++ u⟩)
      rw [hread]
      rcases ih hmore n (start + 1 + 1) with ⟨position, hlevels, hfail⟩ | ⟨position, hok⟩
      · exact Or.inl ⟨position, Nat.succ_lt_succ hlevels, by rw [hfail]; rfl⟩
      · exact Or.inr ⟨position, by rw [hok]; rfl⟩

/-- A run of binders can stand in front of an operand. -/
lemma isOperand_run (hbinders : ∀ b ∈ first :: more, b.IsReadable) (hu : IsOperand u) :
    IsOperand (runChars (first :: more) ++ u) := by
  refine hu.prepend (fun c hc => ?_) ⟨first.quantifier.symbol, ?_, ?_⟩
  · obtain ⟨b, hb, hc⟩ := List.mem_flatMap.mp hc
    obtain ⟨v, hv, -, htext⟩ := exists_toList_text (hbinders b hb)
    rw [htext, List.mem_cons, List.mem_singleton] at hc
    rcases hc with rfl | rfl
    · exact isPlain_symbol b.quantifier
    · exact isPlain_of_notMem_marks (notMem_marks_of_isLowercase hv)
  · obtain ⟨v, -, -, htext⟩ := exists_toList_text (hbinders first List.mem_cons_self)
    rw [runChars, List.flatMap_cons, htext]
    rfl
  · cases first.quantifier <;> decide

/-- How a text that begins with a quantifier is read. -/
lemma readSpan_quantifier {q : Quantifier} (h : IsOperand (q.symbol :: rest)) :
    readSpan ⟨start, q.symbol :: rest⟩ depth =
      if maxNesting ≤ depth then failAt .tooDeep start
      else readBoundVariable ⟨start + 1, rest⟩ >>= fun head =>
        readBinders (maxNesting - (depth + 1)) head.2 >>= fun run =>
          readSpan run.2 (depth + 1 + run.1.length) >>= fun inner =>
            pure (bind ⟨q, head.1⟩ run.1 run.2.trim.enclosed?.isSome inner) := by
  have hnot : q.symbol ≠ '¬' := by cases q <;> decide
  rw [readSpan, Span.trim_of_isTrimmed h.trimmed, Span.splitConnective?_of_isOperand h]
  simp only [if_neg hnot, Quantifier.ofSymbol?_symbol]

/-- A run of binders and what it governs. -/
lemma Writes.bind (h : Writes u st levels merges) (hu : IsOperand u) (hends : EndsRun u)
    (hbinders : ∀ b ∈ first :: more, b.IsReadable) {parenthesized : Bool}
    (hparenthesized : ∀ start, (Span.enclosed? ⟨start, u⟩).isSome = parenthesized) :
    Writes (runChars (first :: more) ++ u) (bind first more parenthesized st)
      ((first :: more).length + levels) merges := by
  intro start depth
  have hoperand := isOperand_run hbinders hu
  obtain ⟨hfirst, hmore⟩ := List.forall_mem_cons.mp hbinders
  obtain ⟨v, hchars, hvariable⟩ := readBoundVariable_run hfirst hmore hends
  rw [hchars] at hoperand ⊢
  rw [readSpan_quantifier hoperand, hvariable]
  refine Rereads.guard (fun _ => ?_)
  rw [ok_bind]
  -- too many binders are refused either while they are read or, at the limit itself, with what
  -- follows
  rcases readBinders_run hmore hends (maxNesting - (depth + 1)) (start + 1 + 1) with
    ⟨position, hlevels, hfail⟩ | ⟨position, hok⟩
  · rw [hfail]
    exact .tooDeep position (by rw [List.length_cons]; omega)
  · have hdepth : depth + 1 + more.length = depth + (first :: more).length := by
      rw [List.length_cons]
      omega
    rw [hok, ok_bind, bind_pure_comp, Span.trim_of_isTrimmed hu.trimmed, hparenthesized, hdepth]
    exact ((h position (depth + (first :: more).length)).map _).deeper

/-- A variable that runs together with what follows it is refused. -/
lemma writes_of_continuesVariable (hfirst : first.IsReadable) (hu : IsOperand (c :: rest))
    (hcontinues : continuesVariable c = true) (st : Statement) (levels : ℕ) :
    Writes (runChars [first] ++ c :: rest) st levels True := by
  intro start depth
  have hoperand := isOperand_run (List.forall_mem_singleton.mpr hfirst) hu
  obtain ⟨v, hv, -, htext⟩ := exists_toList_text hfirst
  have hchars : runChars [first] ++ c :: rest = first.quantifier.symbol :: v :: c :: rest := by
    rw [runChars, List.flatMap_singleton, htext]
    rfl
  rw [hchars] at hoperand ⊢
  rw [readSpan_quantifier hoperand, readBoundVariable_eq_failAt hv hcontinues]
  exact Rereads.guard (fun _ => .badBoundVariable _ trivial)

/-! ## Predicates -/

/-- The characters of argument text with its parentheses. -/
def argumentChars : Option String → List Char
  | none => []
  | some text => '(' :: text.toList ++ [')']

/-- The levels that argument text takes: none without parentheses in it, since those around it do
not count. -/
def argumentLevels : Option String → ℕ
  | none => 0
  | some text => if deepest text.toList 0 = 0 then 0 else deepest text.toList 0 + 1

variable {a : WrittenAtom} {arguments : Option String}

/-- Argument text in parentheses is read unless parentheses in it are too deep. -/
lemma readArgumentText_some {text : String} (hbalanced : Balanced text.toList)
    (htrim : trim text = text) :
    readArgumentText depth ⟨start, argumentChars (some text)⟩ =
      (tooDeepFrom text.toList (depth + 1) (start + 1)).elim (.ok (some text))
        (failAt .tooDeep) := by
  have hclosing : Span.closing? ('(' :: (text.toList ++ [')'])) = some (text.toList.length + 1) :=
    Span.closing?_of_balanced hbalanced []
  have hafter : ('(' :: (text.toList ++ [')'])).drop (text.toList.length + 1 + 1) = [] :=
    List.drop_eq_nil_of_le (by simp)
  have htake : (text.toList ++ [')']).take (text.toList.length + 1 - 1) = text.toList := by
    rw [Nat.add_sub_cancel, List.take_left]
  unfold readArgumentText
  simp only [argumentChars, List.cons_append, hclosing, hafter, htake, String.ofList_toList, htrim]
  cases tooDeepFrom text.toList (depth + 1) (start + 1) <;> rfl

/-- Argument text is read again if its levels fit. -/
lemma readArgumentText_argumentChars
    (h : ∀ text ∈ arguments, Balanced text.toList ∧ trim text = text) (hdepth : depth < maxNesting)
    (start : ℕ) :
    (depth + argumentLevels arguments < maxNesting ∧
        readArgumentText depth ⟨start, argumentChars arguments⟩ = .ok arguments) ∨
      (maxNesting ≤ depth + argumentLevels arguments ∧
        ∃ position, readArgumentText depth ⟨start, argumentChars arguments⟩ =
          failAt .tooDeep position) := by
  cases arguments with
  | none => exact Or.inl ⟨hdepth, rfl⟩
  | some text =>
    obtain ⟨hbalanced, htrim⟩ := h text rfl
    -- parentheses inside the arguments are counted from one level below the predicate
    have hlevels : depth + argumentLevels (some text) < maxNesting ↔
        deepest text.toList (depth + 1) < maxNesting := by
      have hadd := deepest_add hbalanced (depth + 1)
      rw [Nat.zero_add] at hadd
      rw [hadd, argumentLevels]
      split <;> omega
    have hfits : tooDeepFrom text.toList (depth + 1) (start + 1) = none ↔
        deepest text.toList (depth + 1) < maxNesting := tooDeepFrom_eq_none_iff
    rw [readArgumentText_some hbalanced htrim, ← not_lt, hlevels, ← hfits]
    cases tooDeepFrom text.toList (depth + 1) (start + 1) with
    | none => exact Or.inl ⟨rfl, rfl⟩
    | some position => exact Or.inr ⟨Option.some_ne_none position, position, rfl⟩

/-- A predicate is an operand. -/
lemma isOperand_predicate (h : a.IsReadable) :
    IsOperand (a.name.toList ++ argumentChars a.arguments) := by
  have hname := isOperand_of_forall_isWordChar h.name_ne_nil h.name
  cases harguments : a.arguments with
  | none =>
    rw [argumentChars, List.append_nil]
    exact hname
  | some text =>
    refine (h.arguments text harguments).1.isOperand_enclose.prepend
      (fun c hc => ?_) hname.trimmed.head
    exact isPlain_of_notMem_marks (notMem_marks_of_isWordChar (h.name c hc))

/-- A predicate begins with a character of a name, which is none of the marks. -/
lemma exists_predicate_cons (h : a.IsReadable) :
    ∃ c rest, a.name.toList ++ argumentChars a.arguments = c :: rest ∧
      a.name.toList.head? = some c ∧
      c ∉ marks := by
  obtain ⟨c, rest, hname⟩ := List.exists_cons_of_ne_nil h.name_ne_nil
  refine ⟨c, rest ++ argumentChars a.arguments, by rw [hname]; rfl, by rw [hname]; rfl, ?_⟩
  exact notMem_marks_of_isWordChar (h.name c (by rw [hname]; exact List.mem_cons_self))

/-- The name of a predicate ends where its arguments begin. -/
lemma readAtom_predicate (h : a.IsReadable) :
    readAtom depth ⟨start, a.name.toList ++ argumentChars a.arguments⟩ =
      (readArgumentText depth ⟨start + a.name.toList.length, argumentChars a.arguments⟩).map
        fun arguments => { binder := none, negated := false, name := a.name, arguments } := by
  have hplain : ∀ c ∈ a.name.toList, (c != '(') = true := fun c hc =>
    bne_iff_ne.mpr (isPlain_of_notMem_marks (notMem_marks_of_isWordChar (h.name c hc))).ne_open
  have hname : (a.name.toList ++ argumentChars a.arguments).takeWhile (· != '(') =
      a.name.toList := by
    rw [List.takeWhile_append_of_pos hplain]
    cases a.arguments <;> exact List.append_nil _
  have hempty : a.name.toList.isEmpty = false := by
    rw [List.isEmpty_eq_false_iff]
    exact h.name_ne_nil
  unfold readAtom
  simp only [hname, find?_stray_eq_none_iff.mpr h.name, hempty, Bool.false_eq_true, if_false,
    List.drop_left, String.ofList_toList]

/-- How the text of a predicate is read. -/
lemma readSpan_predicate (h : a.IsReadable) :
    readSpan ⟨start, a.name.toList ++ argumentChars a.arguments⟩ depth =
      if maxNesting ≤ depth then failAt .tooDeep start
      else (readAtom depth ⟨start, a.name.toList ++ argumentChars a.arguments⟩).map .atom := by
  have hoperand := isOperand_predicate h
  obtain ⟨c, rest, hchars, -, hmark⟩ := exists_predicate_cons h
  have hnot : c ≠ '¬' := fun heq => hmark (heq ▸ by decide)
  rw [hchars] at hoperand ⊢
  rw [readSpan, Span.trim_of_isTrimmed hoperand.trimmed,
    Span.splitConnective?_of_isOperand hoperand, Span.enclosed?_of_ne (ne_of_notMem_marks hmark).1]
  simp only [if_neg hnot, Quantifier.ofSymbol?_of_notMem_marks hmark]

/-- A name and its arguments. -/
lemma writes_predicate (h : a.IsReadable) :
    Writes (a.name.toList ++ argumentChars a.arguments)
      (.atom { a with binder := none, negated := false }) (argumentLevels a.arguments) False := by
  intro start depth
  rw [readSpan_predicate h, readAtom_predicate h]
  refine Rereads.guard (fun hdepth => ?_)
  rcases readArgumentText_argumentChars h.arguments hdepth (start + a.name.toList.length) with
    ⟨hfits, hok⟩ | ⟨hdeep, position, hfail⟩
  · rw [hok]
    exact .same hfits not_false
  · rw [hfail]
    exact .tooDeep position hdeep

/-! ## Signs -/

/-- The characters of a sign. -/
def signChars (negated : Bool) : List Char :=
  if negated then ['¬'] else []

/-- The statement with its sign. -/
def signed (negated : Bool) (st : Statement) : Statement :=
  if negated then st.negate else st

variable {negated : Bool}

lemma isOperand_sign (hu : IsOperand u) : IsOperand (signChars negated ++ u) := by
  cases negated with
  | false => exact hu
  | true => exact hu.cons ⟨by decide, by decide, by decide⟩ (by decide)

/-- A sign and what stands under it. -/
lemma Writes.sign (h : Writes u st levels merges) (hu : IsOperand u) :
    Writes (signChars negated ++ u) (signed negated st) (negated.toNat + levels) merges := by
  cases negated with
  | false =>
    rw [Bool.toNat_false, Nat.zero_add]
    exact h
  | true => exact h.negate hu

end Statement

end Clausal
