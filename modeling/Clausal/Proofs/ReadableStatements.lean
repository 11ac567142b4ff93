import Mathlib.Tactic.Common
import Clausal.Proofs.FormulaText

/-!
# The statements that can be read

`readSpan_cases` says once in which five ways a stretch of text can be read.  From it follows what
every statement that is read looks like.  Names consist of word characters, bound variables are
single lowercase characters and parentheses in arguments match.  A node with one operand has
binders, and its operand is an atom or a negated node, because any other operand takes the binders
in front of its own.
-/

namespace Clausal

open Text

/-! ## Results of reading -/

lemma ok_bind {ε α β : Type} (a : α) (f : α → Except ε β) : (Except.ok a >>= f) = f a :=
  rfl

/-- A computation in two parts succeeds when both parts do. -/
lemma bind_eq_ok {ε α β : Type} {x : Except ε α} {f : α → Except ε β} {b : β}
    (h : (x >>= f) = .ok b) : ∃ a, x = .ok a ∧ f a = .ok b := by
  cases x with
  | error e => exact absurd h (by simp [bind, Except.bind])
  | ok a => exact ⟨a, rfl, h⟩

/-- A mapped result is a success when the result is. -/
lemma map_eq_ok {ε α β : Type} {x : Except ε α} {f : α → β} {b : β} (h : x.map f = .ok b) :
    ∃ a, x = .ok a ∧ f a = b := by
  cases x with
  | error e => exact absurd h (by simp [Except.map])
  | ok a => exact ⟨a, rfl, Except.ok.inj h⟩

/-! ## Readable statements -/

/-- The variable of a binder that can be read is one lowercase character. -/
def Binder.IsReadable (b : Binder) : Prop :=
  ∃ v, isLowercase v = true ∧ b.var = v.toString

instance : DecidablePred Binder.IsReadable := fun b =>
  decidable_of_iff (b.var.toList.any (fun v => isLowercase v && b.var == v.toString) = true) <| by
    simp only [List.any_eq_true, Bool.and_eq_true, beq_iff_eq]
    exact ⟨fun ⟨v, _, h⟩ => ⟨v, h⟩, fun ⟨v, h⟩ => ⟨v, by simp [h.2], h⟩⟩

/-- What is known of an atom that can be read. -/
structure WrittenAtom.IsReadable (a : WrittenAtom) : Prop where
  binder : ∀ b ∈ a.binder, b.IsReadable
  name_ne_nil : a.name.toList ≠ []
  name : ∀ c ∈ a.name.toList, isWordChar c = true
  arguments : ∀ s ∈ a.arguments, Balanced s.toList ∧ trim s = s

instance : DecidablePred WrittenAtom.IsReadable := fun a =>
  decidable_of_iff ((∀ b ∈ a.binder, b.IsReadable) ∧ a.name.toList ≠ [] ∧
      a.name.toList.all isWordChar = true ∧ ∀ s ∈ a.arguments, Balanced s.toList ∧ trim s = s)
    ⟨fun ⟨hbinder, hne, hname, harguments⟩ => ⟨hbinder, hne, List.all_eq_true.mp hname, harguments⟩,
      fun h => ⟨h.binder, h.name_ne_nil, List.all_eq_true.mpr h.name, h.arguments⟩⟩

namespace Statement

/-- Whether a node takes binders in front of it to its own. -/
def takesBinders : Statement → Bool
  | .atom _ => false
  | .scoped negated _ _ _ => !negated
  | .joined negated _ _ _ _ => !negated

/-- What is known of a statement that can be read. -/
def IsReadable : Statement → Prop
  | .atom a => a.IsReadable
  | .scoped _ binders connective operand =>
      connective = none ∧ binders ≠ [] ∧ (∀ b ∈ binders, b.IsReadable) ∧
        operand.takesBinders = false ∧ operand.IsReadable
  | .joined _ binders connective left right =>
      connective.isSome ∧ (∀ b ∈ binders, b.IsReadable) ∧ left.IsReadable ∧ right.IsReadable

instance decidableIsReadable : DecidablePred IsReadable
  | .atom a => inferInstanceAs (Decidable a.IsReadable)
  | .scoped _ binders connective operand =>
      have := decidableIsReadable operand
      inferInstanceAs (Decidable (connective = none ∧ binders ≠ [] ∧ (∀ b ∈ binders, b.IsReadable) ∧
        operand.takesBinders = false ∧ operand.IsReadable))
  | .joined _ binders connective left right =>
      have := decidableIsReadable left
      have := decidableIsReadable right
      inferInstanceAs (Decidable (connective.isSome ∧ (∀ b ∈ binders, b.IsReadable) ∧
        left.IsReadable ∧ right.IsReadable))

variable {first : Binder} {more : List Binder} {st : Statement}

/-- The negation of a readable statement is readable. -/
lemma IsReadable.negate (h : st.IsReadable) : st.negate.IsReadable := by
  match st with
  | .atom a =>
    refine ⟨fun b hb => ?_, h.name_ne_nil, h.name, h.arguments⟩
    obtain ⟨b', hb', rfl⟩ := Option.map_eq_some_iff.mp hb
    exact h.binder b' hb'
  | .scoped _ _ _ _ => exact h
  | .joined _ _ _ _ _ => exact h

/-- A statement under readable binders is readable. -/
lemma IsReadable.bind (hfirst : first.IsReadable) (hmore : ∀ b ∈ more, b.IsReadable)
    (h : st.IsReadable) (parenthesized : Bool) : (bind first more parenthesized st).IsReadable := by
  have hrun : ∀ b ∈ first :: more, b.IsReadable := List.forall_mem_cons.mpr ⟨hfirst, hmore⟩
  have hscope : st.takesBinders = false →
      (Statement.scoped false (first :: more) none st).IsReadable :=
    fun htakes => ⟨rfl, List.cons_ne_nil _ _, hrun, htakes, h⟩
  match st with
  | .atom a =>
    rw [Statement.bind]
    split
    · exact ⟨fun b hb => Option.some.inj hb ▸ hfirst, h.name_ne_nil, h.name, h.arguments⟩
    · exact hscope rfl
  | .scoped false binders connective operand =>
    obtain ⟨hconnective, -, hbinders, hoperand⟩ := h
    exact ⟨hconnective, List.cons_ne_nil _ _, List.forall_mem_append.mpr ⟨hrun, hbinders⟩, hoperand⟩
  | .joined false binders connective left right =>
    obtain ⟨hconnective, hbinders, hoperands⟩ := h
    exact ⟨hconnective, List.forall_mem_append.mpr ⟨hrun, hbinders⟩, hoperands⟩
  | .scoped true _ _ _ => exact hscope rfl
  | .joined true _ _ _ _ => exact hscope rfl

/-! ## Reading -/

/-- A bound variable that is read is one lowercase character. -/
lemma isLowercase_of_readBoundVariable {s after : Span} {v : String}
    (h : readBoundVariable s = .ok (v, after)) : ∃ c, isLowercase c = true ∧ v = c.toString := by
  unfold readBoundVariable at h
  split at h
  · cases h
  · rename_i c rest hchars
    split at h
    · cases h
    · rename_i hlower
      rw [Bool.not_eq_true, Bool.not_eq_false'] at hlower
      refine ⟨c, hlower, ?_⟩
      cases rest with
      | nil => exact (Prod.mk.inj (Except.ok.inj h)).1.symm
      | cons d rest =>
        simp only at h
        split at h
        · cases h
        · exact (Prod.mk.inj (Except.ok.inj h)).1.symm

/-- All binders of a run that is read are readable. -/
lemma isReadable_of_readBinders {levels : ℕ} {s body : Span} {binders : List Binder}
    (h : readBinders levels s = .ok (binders, body)) : ∀ b ∈ binders, b.IsReadable := by
  induction levels generalizing s body binders with
  | zero =>
    unfold readBinders at h
    split at h
    · cases h
      exact fun b hb => absurd hb List.not_mem_nil
    · split at h <;> cases h
      exact fun b hb => absurd hb List.not_mem_nil
  | succ levels ih =>
    unfold readBinders at h
    split at h
    · cases h
      exact fun b hb => absurd hb List.not_mem_nil
    · split at h
      · cases h
        exact fun b hb => absurd hb List.not_mem_nil
      · obtain ⟨⟨v, after⟩, hv, h⟩ := bind_eq_ok h
        obtain ⟨⟨more, rest⟩, hmore, h⟩ := bind_eq_ok h
        cases h
        exact List.forall_mem_cons.mpr ⟨isLowercase_of_readBoundVariable hv, ih hmore⟩

/-- Argument text that is read has matching parentheses and no blanks around it. -/
lemma balanced_of_readArgumentText {depth : ℕ} {s : Span} {arguments : Option String}
    (h : readArgumentText depth s = .ok arguments) (hopen : ∀ c ∈ s.chars.head?, c = '(') :
    ∀ text ∈ arguments, Balanced text.toList ∧ trim text = text := by
  unfold readArgumentText at h
  split at h
  · cases h
    intro text htext
    cases htext
  · rename_i c inner hchars
    obtain rfl : c = '(' := hopen c (by rw [hchars]; rfl)
    split at h
    · cases h
    · rename_i close hclose
      simp only at h
      split at h
      · cases h
      · split at h
        · cases h
        · cases h
          intro text htext
          obtain rfl := Option.some.inj htext
          rw [hchars, Span.closing?, Span.closingFrom_open] at hclose
          obtain ⟨a, b, rfl, ha, rfl⟩ := Span.exists_of_closingFrom hclose
          have htake : (a ++ ')' :: b).take (0 + 1 + a.length - 1) = a := by
            rw [Nat.zero_add, Nat.add_sub_cancel_left, List.take_left]
          rw [htake, trim_trim, trim, String.toList_ofList, String.toList_ofList]
          exact ⟨Balanced.trim ha, rfl⟩

/-- No stray character is found in a text exactly if it consists of word characters. -/
lemma find?_stray_eq_none_iff {cs : List Char} {start : ℕ} :
    (cs.zipIdx start).find? (fun p => !isWordChar p.1) = none ↔ ∀ c ∈ cs, isWordChar c = true := by
  rw [List.find?_eq_none]
  constructor
  · intro h c hc
    rw [← List.zipIdx_map_fst start cs] at hc
    obtain ⟨p, hp, rfl⟩ := List.mem_map.mp hc
    have hword := h p hp
    rwa [Bool.not_eq_true, Bool.not_eq_false'] at hword
  · intro h p hp
    rw [h p.1 (List.fst_mem_of_mem_zipIdx hp)]
    exact Bool.false_ne_true

/-- What follows the name of a predicate begins with a parenthesis. -/
lemma eq_open_of_mem_head?_drop {cs : List Char} :
    ∀ c ∈ (cs.drop (cs.takeWhile (· != '(')).length).head?, c = '(' := by
  intro c hc
  have hdrop : cs.drop (cs.takeWhile (· != '(')).length = cs.dropWhile (· != '(') := by
    calc cs.drop (cs.takeWhile (· != '(')).length
        = (cs.takeWhile (· != '(') ++ cs.dropWhile (· != '(')).drop
          (cs.takeWhile (· != '(')).length := by
          rw [List.takeWhile_append_dropWhile]
      _ = cs.dropWhile (· != '(') := List.drop_left
  have hnot := List.head?_dropWhile_not (· != '(') cs
  rw [hdrop] at hc
  rw [hc] at hnot
  simpa using hnot

/-- An atom that is read is readable. -/
lemma isReadable_of_readAtom {depth : ℕ} {s : Span} {a : WrittenAtom}
    (h : readAtom depth s = .ok a) : a.IsReadable := by
  unfold readAtom at h
  simp only at h
  split at h
  · cases h
  · rename_i hword
    split at h
    · cases h
    · rename_i hne
      obtain ⟨arguments, harguments, rfl⟩ := map_eq_ok h
      refine ⟨?_, ?_, ?_, balanced_of_readArgumentText harguments eq_open_of_mem_head?_drop⟩
      · intro b hb
        cases hb
      · rw [String.toList_ofList]
        exact fun hnil => hne (List.isEmpty_iff.mpr hnil)
      · rw [String.toList_ofList]
        exact find?_stray_eq_none_iff.mp hword

/-- How a span that stands `depth` levels deep is read as a statement, in terms of the readings of
its parts. -/
inductive ReadAs (s : Span) (depth : ℕ) : Statement → Prop
  /-- Two operands around the first connective outside all parentheses. -/
  | joined {left right : Span} {op : Connective} {l r : Statement}
      (hsplit : s.trim.splitConnective? = some (left, op, right))
      (hleft : left.trim.chars ≠ []) (hright : right.trim.chars ≠ [])
      (hl : readSpan left (depth + 1) = .ok l) (hr : readSpan right (depth + 1) = .ok r) :
      ReadAs s depth (join op l r)
  /-- A negation sign and what it negates. -/
  | negated {rest : List Char} {body : Statement} (hsplit : s.trim.splitConnective? = none)
      (hchars : s.trim.chars = '¬' :: rest)
      (hbody : readSpan { start := s.trim.start + 1, chars := rest } (depth + 1) = .ok body) :
      ReadAs s depth body.negate
  /-- A run of binders and what they govern. -/
  | quantified {c : Char} {rest : List Char} {q : Quantifier} {v : String} {after body : Span}
      {more : List Binder} {inner : Statement} (hsplit : s.trim.splitConnective? = none)
      (hchars : s.trim.chars = c :: rest) (hc : c ≠ '¬') (hq : Quantifier.ofSymbol? c = some q)
      (hv : readBoundVariable { start := s.trim.start + 1, chars := rest } = .ok (v, after))
      (hmore : readBinders (maxNesting - (depth + 1)) after = .ok (more, body))
      (hinner : readSpan body (depth + 1 + more.length) = .ok inner) :
      ReadAs s depth (bind { quantifier := q, var := v } more body.trim.enclosed?.isSome inner)
  /-- A statement in parentheses. -/
  | enclosed {c : Char} {rest : List Char} {inside : Span} {st : Statement}
      (hsplit : s.trim.splitConnective? = none) (hchars : s.trim.chars = c :: rest) (hc : c ≠ '¬')
      (hq : Quantifier.ofSymbol? c = none) (hinside : s.trim.enclosed? = some inside)
      (hst : readSpan inside (depth + 1) = .ok st) : ReadAs s depth st
  /-- A predicate. -/
  | atom {c : Char} {rest : List Char} {a : WrittenAtom} (hsplit : s.trim.splitConnective? = none)
      (hchars : s.trim.chars = c :: rest) (hc : c ≠ '¬') (hq : Quantifier.ofSymbol? c = none)
      (hopen : s.trim.enclosed? = none) (ha : readAtom depth s.trim = .ok a) :
      ReadAs s depth (.atom a)

/-- A span that is read stands below the limit of nesting and is read in one of five ways. -/
lemma readSpan_cases {s : Span} {depth : ℕ} {st : Statement} (h : readSpan s depth = .ok st) :
    depth < maxNesting ∧ ReadAs s depth st := by
  unfold readSpan at h
  split at h
  · cases h
  · rename_i c rest hchars
    simp only at h
    split at h
    · cases h
    · rename_i hdepth
      refine ⟨Nat.lt_of_not_le hdepth, ?_⟩
      split at h
      · rename_i left op right hsplit
        split at h
        · cases h
        · rename_i hblank
          simp only [Bool.or_eq_true, List.isEmpty_iff, not_or] at hblank
          obtain ⟨l, hl, h⟩ := bind_eq_ok h
          obtain ⟨r, hr, h⟩ := bind_eq_ok h
          cases h
          exact .joined hsplit hblank.1 hblank.2 hl hr
      · rename_i hsplit
        split at h
        · rename_i hc
          obtain ⟨body, hbody, h⟩ := bind_eq_ok h
          cases h
          exact .negated hsplit (hc ▸ hchars) hbody
        · rename_i hc
          split at h
          · rename_i q hq
            obtain ⟨⟨v, after⟩, hv, h⟩ := bind_eq_ok h
            obtain ⟨⟨more, body⟩, hmore, h⟩ := bind_eq_ok h
            obtain ⟨inner, hinner, h⟩ := bind_eq_ok h
            cases h
            exact .quantified hsplit hchars hc hq hv hmore hinner
          · rename_i hq
            split at h
            · rename_i inside hinside
              exact .enclosed hsplit hchars hc hq hinside h
            · rename_i hopen
              obtain ⟨a, ha, rfl⟩ := map_eq_ok h
              exact .atom hsplit hchars hc hq hopen ha

/-- A statement that is read is readable. -/
lemma isReadable_of_readSpan {s : Span} {depth : ℕ} (h : readSpan s depth = .ok st) :
    st.IsReadable := by
  -- each part is read deeper, so the induction is on the levels that are left
  induction hn : maxNesting - depth using Nat.strongRecOn generalizing s depth st with
  | ind n ih =>
  subst hn
  obtain ⟨hdepth, hcases⟩ := readSpan_cases h
  cases hcases with
  | joined hsplit hleft hright hl hr =>
    have hnil : ∀ b ∈ ([] : List Binder), b.IsReadable := fun b hb => absurd hb List.not_mem_nil
    exact ⟨rfl, hnil, ih _ (by omega) hl rfl, ih _ (by omega) hr rfl⟩
  | negated hsplit hchars hbody => exact IsReadable.negate (ih _ (by omega) hbody rfl)
  | quantified hsplit hchars hc hq hv hmore hinner =>
    exact IsReadable.bind (isLowercase_of_readBoundVariable hv) (isReadable_of_readBinders hmore)
      (ih _ (by omega) hinner rfl) _
  | enclosed hsplit hchars hc hq hinside hst => exact ih _ (by omega) hst rfl
  | atom hsplit hchars hc hq hopen ha => exact isReadable_of_readAtom ha

/-- A formula text is read as a span that stands on no level. -/
lemma readSpan_of_parse {text : String} (h : parse text = .ok (some st)) :
    readSpan ⟨0, text.toList⟩ 0 = .ok st := by
  unfold parse at h
  simp only at h
  split at h
  · cases h
  · split at h
    · cases h
    · obtain ⟨st', hst, hsome⟩ := map_eq_ok h
      cases hsome
      exact hst

/-- The statement of a formula text is readable. -/
theorem isReadable_of_parse {text : String} (h : parse text = .ok (some st)) : st.IsReadable :=
  isReadable_of_readSpan (readSpan_of_parse h)

end Statement

end Clausal
