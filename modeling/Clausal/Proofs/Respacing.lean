import Mathlib.Data.List.DropRight
import Clausal.Proofs.ErrorPositions
import Clausal.Proofs.MalformedGoals

/-!
# Blanks just inside parentheses

Blanks after an opening and before a closing parenthesis are of no account: whatever text they stand
in, it is read as the same statement or has the same fault with and without them.  `Respaced`
relates two such texts.  They may differ in this way in several places, but only at parentheses that
stand outside all others, because the arguments of a predicate are kept as they are written, except
for the blanks around all of them.

A goal is negated with parentheses around it.  So blanks around the goal are of no account, even
where the goal is not balanced and the parentheses around it are not partners.
-/

namespace Clausal

namespace Text

variable {a b u w cs : List Char} {c : Char}

/-! ## Trimming -/

lemma trimEnd_cons (c : Char) (cs : List Char) :
    trimEnd (c :: cs) = if trimEnd cs = [] then trimEnd [c] else c :: trimEnd cs := by
  obtain ⟨after, hcs, hafter⟩ := exists_append_trimEnd cs
  have hdrop : trimEnd (c :: cs) = trimEnd (c :: trimEnd cs) := by
    conv_lhs => rw [hcs, ← List.cons_append]
    exact trimEnd_append hafter
  rw [hdrop]
  split
  · rename_i hnil
    rw [hnil]
  · rename_i hne
    obtain ⟨d, hd⟩ := Option.ne_none_iff_exists'.mp (mt List.getLast?_eq_none_iff.mp hne)
    refine trimEnd_of_last ⟨d, ?_, isBlank_of_getLast?_trimEnd cs hd⟩
    rw [List.getLast?_cons, hd]
    rfl

/-- Blanks are dropped from the end of a text up to its last character that is not blank. -/
lemma trimEnd_append_cons (hc : isBlank c = false) (a b : List Char) :
    trimEnd (a ++ c :: b) = a ++ c :: trimEnd b := by
  induction a with
  | nil =>
    have hlone : trimEnd [c] = [c] := trimEnd_of_last ⟨c, rfl, hc⟩
    rw [List.nil_append, List.nil_append, trimEnd_cons]
    split
    · rename_i hnil
      rw [hnil, hlone]
    · rfl
  | cons d a ih =>
    have hne : a ++ c :: trimEnd b ≠ [] :=
      List.append_ne_nil_of_right_ne_nil a (List.cons_ne_nil c _)
    rw [List.cons_append, trimEnd_cons, ih, if_neg hne]
    rfl

lemma trimStart_append_cons (hc : isBlank c = false) (a b : List Char) :
    trimStart (a ++ c :: b) = trimStart a ++ c :: b := by
  induction a with
  | nil => exact trimStart_of_head ⟨c, rfl, hc⟩
  | cons d a ih =>
    unfold trimStart at ih ⊢
    rw [List.cons_append, List.dropWhile_cons, List.dropWhile_cons]
    split
    · exact ih
    · rfl

lemma trim_append_blank (h : ∀ c ∈ b, isBlank c = true) (a : List Char) :
    trimEnd (trimStart (a ++ b)) = trimEnd (trimStart a) := by
  induction a with
  | nil => exact trim_eq_nil_iff.mpr h
  | cons d a ih =>
    unfold trimStart at ih ⊢
    rw [List.cons_append, List.dropWhile_cons, List.dropWhile_cons]
    split
    · exact ih
    · rw [← List.cons_append]
      exact trimEnd_append h

/-- Trimming also drops what trimming the end drops. -/
lemma trim_trimEnd (cs : List Char) :
    trimEnd (trimStart (trimEnd cs)) = trimEnd (trimStart cs) := by
  obtain ⟨after, hcs, hafter⟩ := exists_append_trimEnd cs
  conv_rhs => rw [hcs]
  exact (trim_append_blank hafter _).symm

lemma trim_trimStart (cs : List Char) :
    trimEnd (trimStart (trimStart cs)) = trimEnd (trimStart cs) :=
  congrArg trimEnd (List.dropWhile_idempotent _ cs)

/-- Blanks open and close nothing. -/
lemma openAfter_trim (cs : List Char) (n : ℕ) :
    openAfter (trimEnd (trimStart cs)) n = openAfter cs n := by
  have hblank {gap : List Char} (hgap : ∀ c ∈ gap, isBlank c = true) (m : ℕ) :
      openAfter gap m = some m :=
    openAfter_of_forall_ne (fun c hc => ne_of_notMem_marks (notMem_marks_of_isBlank (hgap c hc))) m
  obtain ⟨before, after, heq, hbefore, hafter⟩ := exists_append_trim cs
  conv_rhs => rw [heq, openAfter_append, openAfter_append, hblank hbefore, Option.bind_some]
  cases openAfter (trimEnd (trimStart cs)) n with
  | none => rfl
  | some m => exact (hblank hafter m).symm

lemma deepest_append_blank (h : ∀ c ∈ b, isBlank c = true) (a : List Char) (n : ℕ) :
    deepest (a ++ b) n = deepest a n := by
  induction a generalizing n with
  | nil =>
    have hnil := deepest_append_of_blank h [] n
    rwa [List.append_nil] at hnil
  | cons c a ih =>
    rw [List.cons_append, deepest, deepest, ih, ih, ih]

/-- Trimming leaves a text as deep as it is. -/
lemma deepest_trim (cs : List Char) (n : ℕ) :
    deepest (trimEnd (trimStart cs)) n = deepest cs n := by
  obtain ⟨before, after, heq, hbefore, hafter⟩ := exists_append_trim cs
  conv_rhs =>
    rw [heq, List.append_assoc, deepest_append_of_blank hbefore, deepest_append_blank hafter]

/-! ## Texts that differ in blanks -/

lemma enclose_append (u w : List Char) : '(' :: u ++ ')' :: w = '(' :: u ++ [')'] ++ w := by
  rw [List.append_assoc]
  rfl

/-- Two balanced texts that differ at most in the blanks at the edges of what stands in their
outermost parentheses. -/
inductive Respaced : List Char → List Char → Prop
  | nil : Respaced [] []
  | cons {c : Char} {a b : List Char} (hopen : c ≠ '(') (hclose : c ≠ ')') (h : Respaced a b) :
      Respaced (c :: a) (c :: b)
  | pair {i j a b : List Char} (hi : Balanced i) (hj : Balanced j)
      (htrim : trimEnd (trimStart i) = trimEnd (trimStart j)) (h : Respaced a b) :
      Respaced ('(' :: i ++ ')' :: a) ('(' :: j ++ ')' :: b)

lemma Balanced.respaced (h : Balanced cs) : Respaced cs cs := by
  induction hn : cs.length using Nat.strongRecOn generalizing cs with
  | ind n ih =>
  subst hn
  cases cs with
  | nil => exact .nil
  | cons c cs =>
    by_cases hopen : c = '('
    · subst hopen
      obtain ⟨between, after, rfl, hbetween⟩ := exists_append_close (a := []) h
      have hafter : Balanced after := by
        rw [← List.cons_append, enclose_append] at h
        exact hbetween.enclose.of_append_left h
      have hshorter : after.length < ('(' :: (between ++ ')' :: after)).length := by
        rw [List.length_cons, List.length_append, List.length_cons]
        omega
      exact .pair hbetween hbetween rfl (ih _ hshorter hafter rfl)
    · by_cases hclose : c = ')'
      · subst hclose
        cases h
      · have hcs : Balanced cs := by rwa [Balanced, openAfter_cons hopen hclose] at h
        exact .cons hopen hclose (ih _ (Nat.lt_succ_self _) hcs rfl)

namespace Respaced

lemma symm (h : Respaced a b) : Respaced b a := by
  induction h with
  | nil => exact .nil
  | cons hopen hclose _ ih => exact .cons hopen hclose ih
  | pair hi hj htrim _ ih => exact .pair hj hi htrim.symm ih

lemma append (h : Respaced a b) (h' : Respaced u w) : Respaced (a ++ u) (b ++ w) := by
  induction h with
  | nil => exact h'
  | cons hopen hclose _ ih => exact .cons hopen hclose ih
  | pair hi hj htrim _ ih =>
    rw [List.append_assoc, List.append_assoc, List.cons_append, List.cons_append]
    exact .pair hi hj htrim ih

lemma balanced (h : Respaced a b) : Balanced a := by
  induction h with
  | nil => rfl
  | cons hopen hclose _ ih => exact ih.cons hopen hclose
  | pair hi hj htrim _ ih =>
    rw [enclose_append]
    exact hi.enclose.append ih

lemma head?_eq (h : Respaced a b) : a.head? = b.head? := by
  cases h <;> rfl

lemma eq_nil_iff (h : Respaced a b) : a = [] ↔ b = [] := by
  rw [← List.head?_eq_none_iff, h.head?_eq, List.head?_eq_none_iff]

/-- Outside parentheses the texts are compared character by character. -/
lemma tail (h : Respaced (c :: a) (c :: b)) (hopen : c ≠ '(') : Respaced a b := by
  generalize heq : c :: a = u at h
  generalize heq' : c :: b = w at h
  cases h with
  | nil => cases heq
  | cons _ _ h =>
    obtain ⟨rfl, rfl⟩ := List.cons.inj heq
    obtain ⟨-, rfl⟩ := List.cons.inj heq'
    exact h
  | pair _ _ _ _ => exact absurd (List.cons.inj heq).1 hopen

lemma trimStart (h : Respaced a b) : Respaced (trimStart a) (trimStart b) := by
  induction h with
  | nil => exact .nil
  | @cons c a b hopen hclose h ih =>
    unfold Text.trimStart
    rw [List.dropWhile_cons, List.dropWhile_cons]
    split
    · exact ih
    · exact .cons hopen hclose h
  | pair hi hj htrim h ih => exact .pair hi hj htrim h

lemma trimEnd (h : Respaced a b) : Respaced (trimEnd a) (trimEnd b) := by
  induction h with
  | nil => exact .nil
  | @cons c a b hopen hclose _ ih =>
    have hlone : Balanced (Text.trimEnd [c]) := by
      have hc : Balanced [c] := Balanced.cons rfl hopen hclose
      obtain ⟨after, heq, hafter⟩ := exists_append_trimEnd [c]
      rw [heq] at hc
      exact hc.of_append_blank hafter
    rw [trimEnd_cons c a, trimEnd_cons c b]
    by_cases hnil : Text.trimEnd a = []
    · rw [if_pos hnil, if_pos (ih.eq_nil_iff.mp hnil)]
      exact hlone.respaced
    · rw [if_neg hnil, if_neg (mt ih.eq_nil_iff.mpr hnil)]
      exact .cons hopen hclose ih
  | pair hi hj htrim _ ih =>
    rw [trimEnd_append_cons (by decide), trimEnd_append_cons (by decide)]
    exact .pair hi hj htrim ih

/-- The first connectives outside parentheses correspond to each other, and so do the texts beside
them. -/
lemma exists_append_connective (h : Respaced a b) :
    ((∀ k, Span.connectiveFrom a 0 k = none) ∧ ∀ k, Span.connectiveFrom b 0 k = none) ∨
      ∃ (op : Connective) (a₁ a₂ b₁ b₂ : List Char),
        a = a₁ ++ op.symbol :: a₂ ∧ b = b₁ ++ op.symbol :: b₂ ∧ Respaced a₁ b₁ ∧ Respaced a₂ b₂ ∧
          (∀ k, Span.connectiveFrom a₁ 0 k = none) ∧ ∀ k, Span.connectiveFrom b₁ 0 k = none := by
  induction h with
  | nil => exact Or.inl ⟨fun _ => rfl, fun _ => rfl⟩
  | @cons c a b hopen hclose h ih =>
    rcases Span.connectiveFrom_cons_cases hopen hclose 0 with ⟨op, rfl, -⟩ | hnext
    · exact Or.inr ⟨op, [], a, [], b, rfl, rfl, .nil, h, fun _ => rfl, fun _ => rfl⟩
    · rcases ih with ⟨ha, hb⟩ | ⟨op, a₁, a₂, b₁, b₂, rfl, rfl, h₁, h₂, ha, hb⟩
      · exact Or.inl ⟨fun k => (hnext a k).trans (ha _), fun k => (hnext b k).trans (hb _)⟩
      · exact Or.inr ⟨op, c :: a₁, a₂, c :: b₁, b₂, rfl, rfl, .cons hopen hclose h₁, h₂,
          fun k => (hnext a₁ k).trans (ha _), fun k => (hnext b₁ k).trans (hb _)⟩
  | @pair i j a b hi hj htrim h ih =>
    -- inside parentheses there is no connective to be found
    have hskip {x y : List Char} (hx : Balanced x)
        (hy : ∀ k, Span.connectiveFrom y 0 k = none) (k : ℕ) :
        Span.connectiveFrom ('(' :: x ++ ')' :: y) 0 k = none := by
      rw [enclose_append, Span.connectiveFrom_append hx.enclose,
        hx.isOperand_enclose.connectiveFrom_eq, hy]
      rfl
    rcases ih with ⟨ha, hb⟩ | ⟨op, a₁, a₂, b₁, b₂, rfl, rfl, h₁, h₂, ha, hb⟩
    · exact Or.inl ⟨hskip hi ha, hskip hj hb⟩
    · refine Or.inr ⟨op, '(' :: i ++ ')' :: a₁, a₂, '(' :: j ++ ')' :: b₁, b₂, ?_, ?_,
        .pair hi hj htrim h₁, h₂, hskip hi ha, hskip hj hb⟩
      · simp
      · simp

/-- The texts have the same name in front of the first parenthesis. -/
lemma takeWhile_eq_and_drop (h : Respaced a b) :
    a.takeWhile (· != '(') = b.takeWhile (· != '(') ∧
      Respaced (a.drop (a.takeWhile (· != '(')).length)
        (b.drop (b.takeWhile (· != '(')).length) := by
  induction h with
  | nil => exact ⟨rfl, .nil⟩
  | @cons c a b hopen hclose h ih =>
    have hc : (c != '(') = true := bne_iff_ne.mpr hopen
    obtain ⟨hname, hrest⟩ := ih
    simp only [List.takeWhile_cons, hc, if_true, List.length_cons, List.drop_succ_cons]
    exact ⟨congrArg (c :: ·) hname, hrest⟩
  | pair hi hj htrim h ih => exact ⟨rfl, .pair hi hj htrim h⟩

end Respaced

end Text

open Text

namespace Statement

/-! ## Reading texts that differ in blanks -/

variable {s s' : Span} {depth depth' : ℕ}

lemma splitConnective?_of_respaced (h : Respaced s.chars s'.chars) :
    s.splitConnective? = none ∧ s'.splitConnective? = none ∨
      ∃ left op right left' right', s.splitConnective? = some (left, op, right) ∧
        s'.splitConnective? = some (left', op, right') ∧ Respaced left.chars left'.chars ∧
        Respaced right.chars right'.chars := by
  obtain ⟨start, chars⟩ := s
  obtain ⟨start', chars'⟩ := s'
  rcases h.exists_append_connective with
    ⟨hnone, hnone'⟩ | ⟨op, a₁, a₂, b₁, b₂, ha, hb, h₁, h₂, hnone, hnone'⟩
  · refine Or.inl ⟨?_, ?_⟩
    · rw [Span.splitConnective?, hnone]
      rfl
    · rw [Span.splitConnective?, hnone']
      rfl
  · dsimp only at ha hb
    subst ha hb
    exact Or.inr ⟨_, op, _, _, _, Span.splitConnective?_append h₁.balanced (hnone 0) op,
      Span.splitConnective?_append h₁.symm.balanced (hnone' 0) op, h₁, h₂⟩

/-- What stands in parentheses around the whole texts differs in the blanks around it. -/
lemma enclosed?_of_respaced (h : Respaced s.chars s'.chars) :
    s.enclosed? = none ∧ s'.enclosed? = none ∨
      ∃ inside inside', s.enclosed? = some inside ∧ s'.enclosed? = some inside' ∧
        Respaced inside.trim.chars inside'.trim.chars := by
  obtain ⟨start, chars⟩ := s
  obtain ⟨start', chars'⟩ := s'
  dsimp only at h
  cases h with
  | nil => exact Or.inl ⟨rfl, rfl⟩
  | cons hopen hclose h => exact Or.inl ⟨Span.enclosed?_of_ne hopen, Span.enclosed?_of_ne hopen⟩
  | @pair i j a b hi hj htrim h =>
    by_cases hnil : a = []
    · have hnil' : b = [] := h.eq_nil_iff.mp hnil
      subst hnil hnil'
      refine Or.inr ⟨_, _, Span.enclosed?_of_balanced hi, Span.enclosed?_of_balanced hj, ?_⟩
      change Respaced (trimEnd (trimStart i)) (trimEnd (trimStart j))
      rw [← htrim]
      exact hi.trim.respaced
    · have hnil' : b ≠ [] := mt h.eq_nil_iff.mpr hnil
      rw [enclose_append i, enclose_append j]
      exact Or.inl ⟨Span.enclosed?_append hi hnil, Span.enclosed?_append hj hnil'⟩

/-- In parentheses stand arguments, unless something else follows. -/
lemma readArgumentText_enclose {u w : List Char} {start : ℕ} (hu : Balanced u) :
    readArgumentText depth ⟨start, '(' :: u ++ ')' :: w⟩ =
      (trimStart w).head?.elim
        ((tooDeepFrom u (depth + 1) (start + 1)).elim (.ok (some (Text.trim (String.ofList u))))
          (failAt .tooDeep))
        fun c =>
          failAt (.strayCharacter c) (Span.trimStart ⟨start + (u.length + 1) + 1, w⟩).start := by
  have hdrop : ('(' :: u ++ ')' :: w).drop (u.length + 1 + 1) = w := by simp
  have htake : (u ++ ')' :: w).take (u.length + 1 - 1) = u := by simp
  rw [readArgumentText]
  dsimp only [List.cons_append]
  rw [← List.cons_append, Span.closing?_of_balanced hu]
  dsimp only [Span.trimStart]
  rw [hdrop, htake]
  cases trimStart w with
  | cons c rest => rfl
  | nil => cases tooDeepFrom u (depth + 1) (start + 1) <;> rfl

/-- Arguments are taken without the blanks around them. -/
lemma sinks_readArgumentText_of_respaced (hle : depth ≤ depth') (h : Respaced s.chars s'.chars)
    (hopen : ∀ c ∈ s.chars.head?, c = '(') :
    Sinks (· = ·) (readArgumentText depth s) (readArgumentText depth' s') := by
  obtain ⟨start, chars⟩ := s
  obtain ⟨start', chars'⟩ := s'
  dsimp only at h hopen
  cases h with
  | nil => exact .ok rfl
  | cons hne _ _ => exact absurd (hopen _ rfl) hne
  | @pair i j a b hi hj htrim h =>
    rw [readArgumentText_enclose hi, readArgumentText_enclose hj, h.trimStart.head?_eq]
    cases (trimStart b).head? with
    | some c => exact .fault _ _ _
    | none =>
      have hdeep : deepest i (depth + 1) ≤ deepest j (depth' + 1) := by
        rw [← deepest_trim i, htrim, deepest_trim]
        exact deepest_mono (Nat.succ_le_succ hle)
      have htext : Text.trim (String.ofList i) = Text.trim (String.ofList j) := by
        rw [Text.trim, Text.trim, String.toList_ofList, String.toList_ofList, htrim]
      cases hfits : tooDeepFrom j (depth' + 1) (start' + 1) with
      | some position => exact .tooDeep _ position
      | none =>
        have hfits' := Nat.lt_of_le_of_lt hdeep (tooDeepFrom_eq_none_iff.mp hfits)
        rw [tooDeepFrom_eq_none_iff.mpr hfits', htext]
        exact .ok rfl

/-- Blanks just inside parentheses make no difference to the reader. -/
lemma isCongruence_respaced : IsCongruence Respaced where
  head?_eq := Respaced.head?_eq
  tail := Respaced.tail
  trimStart := Respaced.trimStart
  trimEnd := Respaced.trimEnd
  name := Respaced.takeWhile_eq_and_drop
  splitConnective? := splitConnective?_of_respaced
  enclosed? := enclosed?_of_respaced
  readArgumentText := sinks_readArgumentText_of_respaced

/-! ## Texts that are read alike -/

/-- Both texts are read as the same statement, or both are blank, or both have the same fault. -/
def ReadAlike (text text' : String) : Prop :=
  (parse text).mapError ParseError.fault = (parse text').mapError ParseError.fault

lemma ReadAlike.exists_parse_eq {text text' : String} (h : ReadAlike text text') :
    (∃ e e', parse text = .error e ∧ parse text' = .error e' ∧ e.fault = e'.fault) ∨
      ∃ o, parse text = .ok o ∧ parse text' = .ok o := by
  unfold ReadAlike at h
  generalize parse text = x at h ⊢
  generalize parse text' = y at h ⊢
  cases x with
  | error e =>
    cases y with
    | error e' => exact Or.inl ⟨e, e', rfl, rfl, Except.error.inj h⟩
    | ok o' => cases h
  | ok o =>
    cases y with
    | error e' => cases h
    | ok o' => exact Or.inr ⟨o, rfl, congrArg Except.ok (Except.ok.inj h).symm⟩

/-- Where neither of two readings can be too deep without the other, they agree but for the position
of the fault. -/
lemma Sinks.mapError_fault_eq {α : Type} {x y : Except ParseError α} (h : Sinks (· = ·) x y)
    (h' : Sinks (· = ·) y x) : x.mapError ParseError.fault = y.mapError ParseError.fault := by
  cases x with
  | ok a => rw [h'.eq_ok rfl]
  | error e =>
    obtain ⟨e', rfl, hfault⟩ := h.exists_eq_error rfl
    obtain ⟨_, heq, hfault'⟩ := h'.exists_eq_error rfl
    obtain rfl := Except.error.inj heq
    have hsame : e.fault = e'.fault := by
      rcases hfault with hfault | hfault
      · exact hfault.symm
      · rcases hfault' with hfault' | hfault'
        · exact hfault'
        · exact hfault'.trans hfault.symm
    exact congrArg Except.error hsame

variable {text text' goal : String}

/-- Texts that differ in blanks just inside their parentheses are read alike. -/
lemma readAlike_of_respaced (h : Respaced text.toList text'.toList) : ReadAlike text text' := by
  have hmatched : Span.unmatched? ⟨0, text.toList⟩ = none :=
    Span.unmatched?_eq_none_iff.mpr h.balanced
  have hmatched' : Span.unmatched? ⟨0, text'.toList⟩ = none :=
    Span.unmatched?_eq_none_iff.mpr h.symm.balanced
  have hempty : (Span.trim ⟨0, text.toList⟩).chars.isEmpty =
      (Span.trim ⟨0, text'.toList⟩).chars.isEmpty := isCongruence_respaced.isEmpty_trim_eq h
  have hread : Sinks (· = ·) (readSpan ⟨0, text.toList⟩ 0) (readSpan ⟨0, text'.toList⟩ 0) :=
    isCongruence_respaced.sinks_readSpan (Nat.le_refl 0) (isCongruence_respaced.trim h)
  have hread' : Sinks (· = ·) (readSpan ⟨0, text'.toList⟩ 0) (readSpan ⟨0, text.toList⟩ 0) :=
    isCongruence_respaced.sinks_readSpan (Nat.le_refl 0) (isCongruence_respaced.trim h.symm)
  unfold ReadAlike parse
  dsimp only
  rw [hmatched, hmatched', hempty]
  dsimp only
  split
  · rfl
  · exact (hread.map fun st _ heq => heq ▸ rfl).mapError_fault_eq
      (hread'.map fun st _ heq => heq ▸ rfl)

lemma readAlike_of_not_balanced (h : ¬ Balanced text.toList) (h' : ¬ Balanced text'.toList) :
    ReadAlike text text' := by
  rcases parse_cases text with ⟨position, hparse, -⟩ | ⟨hbalanced, -⟩
  · rcases parse_cases text' with ⟨position', hparse', -⟩ | ⟨hbalanced', -⟩
    · rw [ReadAlike, hparse, hparse']
      rfl
    · exact absurd hbalanced' h'
  · exact absurd hbalanced h

/-! ## Negated goals -/

/-- Blanks before the last parenthesis of a balanced text. -/
lemma respaced_trimEnd_append_close {cs : List Char} (h : Balanced (cs ++ [')'])) :
    Respaced (trimEnd cs ++ [')']) (cs ++ [')']) := by
  obtain ⟨before, between, rfl, hbefore, hbetween⟩ :=
    exists_append_innermost (openAfter_of_append_close h)
  have hpair : Respaced ('(' :: trimEnd between ++ [')']) ('(' :: between ++ [')']) :=
    .pair hbetween.respaced.trimEnd.balanced hbetween (trim_trimEnd between) .nil
  rw [trimEnd_append_cons (by decide), List.append_assoc, List.append_assoc]
  exact (Balanced.respaced hbefore).append hpair

lemma toList_trim (s : String) : (Text.trim s).toList = trimEnd (trimStart s.toList) :=
  String.toList_ofList

/-- The parentheses of the negation are balanced or not, whether or not there are blanks around the
goal. -/
lemma balanced_negatedGoalText_trim_iff :
    Balanced (negatedGoalText (Text.trim goal)).toList ↔
      Balanced (negatedGoalText goal).toList := by
  simp only [toList_negatedGoalText, Text.Balanced,
    openAfter_cons (c := '¬') (by decide) (by decide), List.cons_append, openAfter_open,
    openAfter_append, toList_trim, openAfter_trim]

/-- Blanks around a goal just inside the parentheses of its negation. -/
lemma respaced_negatedGoalText_trim (h : Balanced (negatedGoalText goal).toList) :
    Respaced (negatedGoalText (Text.trim goal)).toList (negatedGoalText goal).toList := by
  rw [toList_negatedGoalText, toList_negatedGoalText, toList_trim]
  refine .cons (by decide) (by decide) ?_
  by_cases hgoal : Balanced goal.toList
  · have htrim : trimEnd (trimStart (trimEnd (trimStart goal.toList))) =
        trimEnd (trimStart goal.toList) := by
      rw [trim_trimEnd, trim_trimStart]
    exact .pair hgoal.trim hgoal htrim .nil
  · -- the goal closes the parenthesis before it and opens the one that is closed after it
    obtain ⟨inside, rest, hchars, hinside, hrest⟩ := exists_append_of_not_balanced hgoal h
    have hsplit (x y : List Char) : '(' :: (x ++ ')' :: y) ++ [')'] =
        '(' :: x ++ ')' :: (y ++ [')']) := by
      simp
    rw [hchars, trimStart_append_cons (by decide), trimEnd_append_cons (by decide), hsplit, hsplit]
    exact .pair hinside.respaced.trimStart.balanced hinside (trim_trimStart inside)
      (respaced_trimEnd_append_close hrest)

/-- Blanks around a goal are of no account for how its negation is read. -/
theorem readAlike_negatedGoalText_trim (goal : String) :
    ReadAlike (negatedGoalText (Text.trim goal)) (negatedGoalText goal) := by
  by_cases hbalanced : Balanced (negatedGoalText goal).toList
  · exact readAlike_of_respaced (respaced_negatedGoalText_trim hbalanced)
  · exact readAlike_of_not_balanced (mt balanced_negatedGoalText_trim_iff.mp hbalanced) hbalanced

end Statement

end Clausal
