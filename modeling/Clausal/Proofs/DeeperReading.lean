import Clausal.Proofs.Rereading

/-!
# Reading a text elsewhere and deeper

Where a text stands decides which positions its faults have, and how deep it stands decides how many
levels are left for it.  Nothing else depends on either.  `Sinks` compares the results of reading a
text in two places, the second at least as deep as the first.  They say the same, except that the
second time the text may be too deep.

The two texts need not be the same if the reader does not tell them apart.  The comparison is made
once for all relations between texts of which this holds, and goes through every part of the reader
with one lemma for computations in two parts.
-/

namespace Clausal

open Text

namespace Statement

/-! ## Comparing results -/

/-- The second result says the same as the first, with values that belong together, or with a fault
of the same kind, unless it is that the text is too deep. -/
inductive Sinks {α β : Type} (R : α → β → Prop) : Except ParseError α → Except ParseError β → Prop
  | ok {a : α} {b : β} (h : R a b) : Sinks R (.ok a) (.ok b)
  | fault (fault : ParseFault) (position position' : ℕ) :
      Sinks R (failAt fault position) (failAt fault position')
  | tooDeep (result : Except ParseError α) (position : ℕ) :
      Sinks R result (failAt .tooDeep position)

namespace Sinks

variable {α β γ δ : Type} {R : α → β → Prop} {S : γ → δ → Prop} {x : Except ParseError α}
  {y : Except ParseError β}

/-- Computations in two parts. -/
lemma bind {f : α → Except ParseError γ} {g : β → Except ParseError δ} (h : Sinks R x y)
    (hfg : ∀ a b, R a b → Sinks S (f a) (g b)) : Sinks S (x >>= f) (y >>= g) := by
  cases h with
  | ok hab => exact hfg _ _ hab
  | fault fault position position' => exact .fault fault position position'
  | tooDeep _ position => exact .tooDeep _ position

lemma map {f : α → γ} {g : β → δ} (h : Sinks R x y) (hfg : ∀ a b, R a b → S (f a) (g b)) :
    Sinks S (x.map f) (y.map g) :=
  h.bind fun a b hab => .ok (hfg a b hab)

/-- A text at the limit is too deep, and at the limit first where it stands deeper. -/
lemma guard {depth depth' position position' : ℕ} (hle : depth ≤ depth')
    (h : depth' < maxNesting → Sinks R x y) :
    Sinks R (if maxNesting ≤ depth then failAt .tooDeep position else x)
      (if maxNesting ≤ depth' then failAt .tooDeep position' else y) := by
  by_cases hdeep : maxNesting ≤ depth'
  · rw [if_pos hdeep]
    exact .tooDeep _ position'
  · rw [if_neg hdeep, if_neg (by omega)]
    exact h (by omega)

/-- What is read deeper is read as the same where it stands less deep. -/
lemma eq_ok {y : Except ParseError α} {a : α} (h : Sinks (· = ·) x y) (hy : y = .ok a) :
    x = .ok a := by
  cases h with
  | ok hab => rwa [hab]
  | fault => cases hy
  | tooDeep => cases hy

/-- What is not read is not read deeper, and the fault is the same or that it is too deep. -/
lemma exists_eq_error {e : ParseError} (h : Sinks R x y) (hx : x = .error e) :
    ∃ e', y = .error e' ∧ (e'.fault = e.fault ∨ e'.fault = .tooDeep) := by
  cases h with
  | ok hab => cases hx
  | fault fault position position' =>
    cases hx
    exact ⟨⟨fault, position'⟩, rfl, Or.inl rfl⟩
  | tooDeep _ position => exact ⟨⟨.tooDeep, position⟩, rfl, Or.inr rfl⟩

end Sinks

/-! ## Relations between texts -/

/-- A relation between texts that the reader does not tell apart.  Related texts begin with the same
character and have the same name in front of their first parenthesis, they are cut into related
parts at the same places, and their arguments are taken for the same. -/
structure IsCongruence (R : List Char → List Char → Prop) : Prop where
  head?_eq {a b : List Char} (h : R a b) : a.head? = b.head?
  tail {c : Char} {a b : List Char} (h : R (c :: a) (c :: b)) (hopen : c ≠ '(') : R a b
  trimStart {a b : List Char} (h : R a b) : R (trimStart a) (trimStart b)
  trimEnd {a b : List Char} (h : R a b) : R (trimEnd a) (trimEnd b)
  name {a b : List Char} (h : R a b) :
    a.takeWhile (· != '(') = b.takeWhile (· != '(') ∧
      R (a.drop (a.takeWhile (· != '(')).length) (b.drop (b.takeWhile (· != '(')).length)
  splitConnective? {s s' : Span} (h : R s.chars s'.chars) :
    s.splitConnective? = none ∧ s'.splitConnective? = none ∨
      ∃ left op right left' right', s.splitConnective? = some (left, op, right) ∧
        s'.splitConnective? = some (left', op, right') ∧ R left.chars left'.chars ∧
        R right.chars right'.chars
  enclosed? {s s' : Span} (h : R s.chars s'.chars) :
    s.enclosed? = none ∧ s'.enclosed? = none ∨
      ∃ inside inside', s.enclosed? = some inside ∧ s'.enclosed? = some inside' ∧
        R inside.trim.chars inside'.trim.chars
  readArgumentText {s s' : Span} {depth depth' : ℕ} (hle : depth ≤ depth') (h : R s.chars s'.chars)
    (hopen : ∀ c ∈ s.chars.head?, c = '(') :
    Sinks (· = ·) (readArgumentText depth s) (readArgumentText depth' s')

/-- The values are the same, and the texts that are left are related. -/
def RelatedRest {α : Type} (R : List Char → List Char → Prop) (p q : α × Span) : Prop :=
  p.1 = q.1 ∧ R p.2.chars q.2.chars

variable {s s' : Span} {depth depth' : ℕ}

/-- The first stray character in a name does not depend on the positions. -/
lemma map_fst_find?_stray (cs : List Char) (start : ℕ) :
    ((cs.zipIdx start).find? (fun p => !isWordChar p.1)).map Prod.fst =
      cs.find? (fun c => !isWordChar c) := by
  conv_rhs => rw [← List.zipIdx_map_fst start cs, List.find?_map]
  rfl

/-- The name of a predicate has a stray character, or is empty, or arguments may follow it. -/
lemma readAtom_cases {name : List Char} (hname : s.chars.takeWhile (· != '(') = name) (depth : ℕ) :
    (∃ c position, name.find? (fun c => !isWordChar c) = some c ∧
        readAtom depth s = failAt (.strayCharacter c) position) ∨
      name.find? (fun c => !isWordChar c) = none ∧
        readAtom depth s =
          if name.isEmpty then failAt .missingPredicateName s.start
          else (readArgumentText depth ⟨s.start + name.length, s.chars.drop name.length⟩).map
            fun arguments =>
              { binder := none, negated := false, name := String.ofList name, arguments } := by
  have hstray := map_fst_find?_stray name s.start
  unfold readAtom
  dsimp only
  rw [hname]
  cases hfind : (name.zipIdx s.start).find? (fun p => !isWordChar p.1) with
  | none =>
    rw [hfind] at hstray
    exact Or.inr ⟨hstray.symm, rfl⟩
  | some found =>
    rw [hfind] at hstray
    exact Or.inl ⟨found.1, found.2, hstray.symm, rfl⟩

namespace IsCongruence

variable {R : List Char → List Char → Prop} {a b rest : List Char} {c : Char}

lemma exists_cons (hR : IsCongruence R) (h : R (c :: a) b) :
    ∃ b', b = c :: b' ∧ (c ≠ '(' → R a b') := by
  obtain ⟨b', rfl⟩ := List.head?_eq_some_iff.mp (hR.head?_eq h).symm
  exact ⟨b', rfl, hR.tail h⟩

lemma eq_nil_iff (hR : IsCongruence R) (h : R a b) : a = [] ↔ b = [] := by
  rw [← List.head?_eq_none_iff, hR.head?_eq h, List.head?_eq_none_iff]

lemma trim (hR : IsCongruence R) (h : R s.chars s'.chars) : R s.trim.chars s'.trim.chars :=
  hR.trimEnd (hR.trimStart h)

lemma isEmpty_trim_eq (hR : IsCongruence R) (h : R s.chars s'.chars) :
    s.trim.chars.isEmpty = s'.trim.chars.isEmpty := by
  rw [Bool.eq_iff_iff, List.isEmpty_iff, List.isEmpty_iff]
  exact hR.eq_nil_iff (hR.trim h)

lemma isSome_enclosed?_eq (hR : IsCongruence R) (h : R s.chars s'.chars) :
    s.enclosed?.isSome = s'.enclosed?.isSome := by
  rcases hR.enclosed? h with ⟨hnone, hnone'⟩ | ⟨inside, inside', hsome, hsome', -⟩
  · rw [hnone, hnone']
  · rw [hsome, hsome']
    rfl

/-! ## Parts of the reader -/

lemma sinks_readBoundVariable (hR : IsCongruence R) (h : R s.chars s'.chars) :
    Sinks (RelatedRest R) (readBoundVariable s) (readBoundVariable s') := by
  unfold readBoundVariable
  cases hchars : s.chars with
  | nil =>
    rw [(hR.eq_nil_iff h).mp hchars]
    exact .fault _ _ _
  | cons v rest =>
    rw [hchars] at h
    obtain ⟨rest', hchars', hrest⟩ := hR.exists_cons h
    rw [hchars']
    dsimp only
    split
    · exact .fault _ _ _
    · rename_i hlower
      have hrest : R rest rest' := hrest (by rintro rfl; exact hlower rfl)
      cases rest with
      | nil =>
        obtain rfl : rest' = [] := (hR.eq_nil_iff hrest).mp rfl
        exact .ok ⟨rfl, hrest⟩
      | cons c rest =>
        obtain ⟨behind, rfl, -⟩ := hR.exists_cons hrest
        dsimp only
        split
        · exact .fault _ _ _
        · exact .ok ⟨rfl, hR.trimStart hrest⟩

lemma sinks_readBinders {levels levels' : ℕ} (hR : IsCongruence R) (hle : levels' ≤ levels)
    (h : R s.chars s'.chars) :
    Sinks (RelatedRest R) (readBinders levels s) (readBinders levels' s') := by
  fun_induction readBinders levels s generalizing s' levels' with
  | case1 levels s hchars =>
    rw [readBinders.eq_def]
    simp only [(hR.eq_nil_iff h).mp hchars]
    exact .ok ⟨rfl, h⟩
  | case2 levels s c rest hchars hnone =>
    obtain ⟨rest', hchars', -⟩ := hR.exists_cons (hchars ▸ h)
    rw [readBinders.eq_def]
    simp only [hchars', hnone]
    exact .ok ⟨rfl, h⟩
  | case3 s c rest hchars q hq =>
    obtain ⟨rest', hchars', -⟩ := hR.exists_cons (hchars ▸ h)
    obtain rfl : levels' = 0 := Nat.le_zero.mp hle
    rw [readBinders.eq_def]
    simp only [hchars', hq]
    exact .fault _ _ _
  | case4 s c rest hchars q hq levels ih =>
    obtain ⟨rest', hchars', hrest⟩ := hR.exists_cons (hchars ▸ h)
    rw [readBinders.eq_def levels']
    simp only [hchars', hq]
    cases levels' with
    | zero => exact .tooDeep _ _
    | succ levels' =>
      have hrest : R rest rest' := hrest (by rintro rfl; cases hq)
      refine Sinks.bind (hR.sinks_readBoundVariable hrest) ?_
      rintro ⟨v, after⟩ ⟨v', after'⟩ ⟨rfl, hafter⟩
      refine (ih after (Nat.le_of_succ_le_succ hle) hafter).bind ?_
      rintro ⟨binders, body⟩ ⟨binders', body'⟩ ⟨rfl, hbody⟩
      exact .ok ⟨rfl, hbody⟩

lemma sinks_readAtom (hR : IsCongruence R) (hle : depth ≤ depth') (h : R s.chars s'.chars) :
    Sinks (· = ·) (readAtom depth s) (readAtom depth' s') := by
  obtain ⟨hname, hrest⟩ := hR.name h
  rw [← hname] at hrest
  rcases readAtom_cases rfl depth with ⟨c, position, hstray, hread⟩ | ⟨hword, hread⟩
  · rcases readAtom_cases hname.symm depth' with ⟨c', position', hstray', hread'⟩ | ⟨hword', -⟩
    · obtain rfl : c = c' := Option.some.inj (hstray.symm.trans hstray')
      rw [hread, hread']
      exact .fault _ position position'
    · rw [hword'] at hstray
      cases hstray
  · rcases readAtom_cases hname.symm depth' with ⟨c', position', hstray', -⟩ | ⟨-, hread'⟩
    · rw [hword] at hstray'
      cases hstray'
    · rw [hread, hread']
      split
      · exact .fault _ _ _
      · exact (hR.readArgumentText hle hrest eq_open_of_mem_head?_drop).map
          fun arguments _ heq => heq ▸ rfl

/-! ## The reader -/

/-- Reading a text that is not told apart, elsewhere and at least as deep, gives the same, unless it
is too deep there. -/
theorem sinks_readSpan (hR : IsCongruence R) (hle : depth ≤ depth')
    (h : R s.trim.chars s'.trim.chars) : Sinks (· = ·) (readSpan s depth) (readSpan s' depth') := by
  -- each part is read deeper, so the induction is on the levels that are left in the second place
  induction hn : maxNesting - depth' using Nat.strongRecOn generalizing s s' depth depth' with
  | ind n ih =>
  subst hn
  rw [readSpan, readSpan]
  cases hchars : s.trim.chars with
  | nil =>
    rw [(hR.eq_nil_iff h).mp hchars]
    exact .fault _ _ _
  | cons c rest =>
    obtain ⟨rest', hchars', hrest⟩ := hR.exists_cons (hchars ▸ h)
    rw [hchars']
    refine Sinks.guard hle fun hdepth => ?_
    rcases hR.splitConnective? h with
      ⟨hnone, hnone'⟩ | ⟨left, op, right, left', right', hsplit, hsplit', hleft, hright⟩
    · rw [hnone, hnone']
      dsimp only
      split
      · rename_i hc
        have hbody : R rest rest' := hrest (by rw [hc]; decide)
        refine Sinks.bind (ih _ (by omega) (Nat.succ_le_succ hle) (hR.trim hbody) rfl) ?_
        rintro st _ rfl
        exact .ok rfl
      · cases hq : Quantifier.ofSymbol? c with
        | some q =>
          have hbound : R rest rest' := hrest (by rintro rfl; cases hq)
          dsimp only
          refine Sinks.bind (hR.sinks_readBoundVariable hbound) ?_
          rintro ⟨v, after⟩ ⟨v', after'⟩ ⟨rfl, hafter⟩
          refine (hR.sinks_readBinders (by omega) hafter).bind ?_
          rintro ⟨more, body⟩ ⟨more', body'⟩ ⟨rfl, hbody⟩
          refine (ih _ (by omega) (Nat.add_le_add_right (Nat.succ_le_succ hle) _)
            (hR.trim hbody) rfl).bind ?_
          rintro inner _ rfl
          have hparenthesized := hR.isSome_enclosed?_eq (hR.trim hbody)
          rw [hparenthesized]
          exact .ok rfl
        | none =>
          rcases hR.enclosed? h with ⟨hopen, hopen'⟩ | ⟨inside, inside', hin, hin', hinside⟩
          · rw [hopen, hopen']
            exact (hR.sinks_readAtom hle h).map fun atom _ heq => heq ▸ rfl
          · rw [hin, hin']
            exact ih _ (by omega) (Nat.succ_le_succ hle) hinside rfl
    · rw [hsplit, hsplit']
      dsimp only
      rw [hR.isEmpty_trim_eq hleft, hR.isEmpty_trim_eq hright]
      split
      · exact .fault _ _ _
      · refine (ih _ (by omega) (Nat.succ_le_succ hle) (hR.trim hleft) rfl).bind ?_
        rintro l _ rfl
        refine (ih _ (by omega) (Nat.succ_le_succ hle) (hR.trim hright) rfl).bind ?_
        rintro r _ rfl
        exact .ok rfl

end IsCongruence

/-! ## The same text elsewhere and deeper -/

lemma sinks_readArgumentText (hle : depth ≤ depth') (h : s.chars = s'.chars) :
    Sinks (· = ·) (readArgumentText depth s) (readArgumentText depth' s') := by
  unfold readArgumentText
  rw [h]
  split
  · exact .ok rfl
  · rename_i c inner hchars
    split
    · exact .fault _ _ _
    · rename_i close hclose
      dsimp only [Span.trimStart]
      split
      · exact .fault _ _ _
      · -- parentheses that are too deep in the first place are too deep in the second
        cases hdeep' : tooDeepFrom (inner.take (close - 1)) (depth' + 1) (s'.start + 1) with
        | some position' => exact .tooDeep _ position'
        | none =>
          have hfits' := tooDeepFrom_eq_none_iff.mp hdeep'
          have hfits : tooDeepFrom (inner.take (close - 1)) (depth + 1) (s.start + 1) = none :=
            tooDeepFrom_eq_none_iff.mpr
              (Nat.lt_of_le_of_lt (deepest_mono (Nat.succ_le_succ hle)) hfits')
          rw [hfits]
          exact .ok rfl

/-- Only the text counts, and not where it stands. -/
lemma isCongruence_eq : IsCongruence (· = ·) where
  head?_eq h := congrArg List.head? h
  tail h _ := (List.cons.inj h).2
  trimStart h := congrArg Text.trimStart h
  trimEnd h := congrArg Text.trimEnd h
  name h := by
    rw [h]
    exact ⟨rfl, rfl⟩
  splitConnective? {s s'} h := by
    unfold Span.splitConnective?
    rw [h]
    cases Span.connectiveFrom s'.chars 0 0 with
    | none => exact Or.inl ⟨rfl, rfl⟩
    | some found => exact Or.inr ⟨_, _, _, _, _, rfl, rfl, rfl, rfl⟩
  enclosed? {s s'} h := by
    unfold Span.enclosed?
    rw [h]
    split
    · split
      · exact Or.inr ⟨_, _, rfl, rfl, rfl⟩
      · exact Or.inl ⟨rfl, rfl⟩
    · exact Or.inl ⟨rfl, rfl⟩
  readArgumentText hle h _ := sinks_readArgumentText hle h

/-- Reading a text elsewhere and at least as deep gives the same, unless it is too deep there. -/
theorem sinks_readSpan (hle : depth ≤ depth') (h : s.chars = s'.chars) :
    Sinks (· = ·) (readSpan s depth) (readSpan s' depth') :=
  isCongruence_eq.sinks_readSpan hle (isCongruence_eq.trim h)

/-- Where a text is read as a statement, it is read as the same elsewhere if it stands no deeper
there. -/
lemma readSpan_eq_ok_of_le {cs : List Char} {start start' depth depth' : ℕ} {st : Statement}
    (hle : depth ≤ depth') (hst : readSpan ⟨start', cs⟩ depth' = .ok st) :
    readSpan ⟨start, cs⟩ depth = .ok st := by
  have hsinks : Sinks (· = ·) (readSpan ⟨start, cs⟩ depth) (readSpan ⟨start', cs⟩ depth') :=
    sinks_readSpan hle rfl
  exact hsinks.eq_ok hst

end Statement

end Clausal
