import Clausal.Proofs.FormulaText
import Mathlib.Data.List.Basic

/-!
# Partners of parentheses

Two parentheses are partners if the text between them is balanced.  Where the parentheses of a text
are not balanced, the one to blame is the first `)` without a partner, and if every `)` has a
partner, the leftmost `(` without one.  The scan for unmatched parentheses, which keeps the
positions of those that are open on a stack, finds this parenthesis.
-/

namespace Clausal

namespace Text

/-! ## Partners -/

/-- The parentheses at two positions are partners: the text between them is balanced. -/
def Partners (cs : List Char) (i j : ℕ) : Prop :=
  ∃ before between after, cs = before ++ '(' :: between ++ ')' :: after ∧ Balanced between ∧
    before.length = i ∧ (before ++ '(' :: between).length = j

/-- At a position stands a `)` without a partner. -/
def UnpairedClose (cs : List Char) (position : ℕ) : Prop :=
  cs[position]? = some ')' ∧ ∀ i, ¬ Partners cs i position

/-- At a position stands a `(` without a partner. -/
def UnpairedOpen (cs : List Char) (position : ℕ) : Prop :=
  cs[position]? = some '(' ∧ ∀ j, ¬ Partners cs position j

/-- At a position stands the first `)` without a partner, or every `)` has a partner and at the
position stands the leftmost `(` without one. -/
def IsToBlame (cs : List Char) (position : ℕ) : Prop :=
  UnpairedClose cs position ∧ (∀ q < position, ¬ UnpairedClose cs q) ∨
    (∀ q, ¬ UnpairedClose cs q) ∧ UnpairedOpen cs position ∧ ∀ q < position, ¬ UnpairedOpen cs q

variable {a b cs : List Char} {n m i j : ℕ}

lemma exists_append_of_getElem? {c : Char} (h : cs[i]? = some c) :
    ∃ a b, cs = a ++ c :: b ∧ a.length = i := by
  obtain ⟨hlt, rfl⟩ := List.getElem?_eq_some_iff.mp h
  refine ⟨cs.take i, cs.drop (i + 1), ?_, List.length_take_of_le (Nat.le_of_lt hlt)⟩
  rw [← List.drop_eq_getElem_cons hlt, List.take_append_drop]

/-- Partners are partners in a longer text. -/
lemma Partners.append (h : Partners a i j) (b : List Char) : Partners (a ++ b) i j := by
  obtain ⟨before, between, after, rfl, hbetween, hi, hj⟩ := h
  exact ⟨before, between, after ++ b, by simp, hbetween, hi, hj⟩

/-- Where parentheses are open after a text, the last of them has only balanced text behind it. -/
lemma exists_append_innermost (h : openAfter cs 0 = some (m + 1)) :
    ∃ before between, cs = before ++ '(' :: between ∧ openAfter before 0 = some m ∧
      Balanced between := by
  induction hn : cs.length using Nat.strongRecOn generalizing cs m with
  | ind n ih =>
  subst hn
  rcases List.eq_nil_or_concat' cs with rfl | ⟨front, c, rfl⟩
  · cases h
  have hshorter : front.length < (front ++ [c]).length := by simp
  rw [openAfter_append] at h
  obtain ⟨k, hk, hc⟩ := Option.bind_eq_some_iff.mp h
  by_cases hopen : c = '('
  · subst hopen
    obtain rfl : k = m := Nat.succ.inj (Option.some.inj hc)
    exact ⟨front, [], rfl, hk, rfl⟩
  by_cases hclose : c = ')'
  · -- the last `)` closes the innermost parenthesis of the text before it, and the next one is
    -- looked for
    subst hclose
    cases k with
    | zero => cases hc
    | succ k =>
      obtain rfl : k = m + 1 := Option.some.inj hc
      obtain ⟨outer, inner, rfl, houter, hinner⟩ := ih _ hshorter hk rfl
      obtain ⟨before, between, rfl, hbefore, hbetween⟩ := ih outer.length (by simp) houter rfl
      exact ⟨before, between ++ ('(' :: inner ++ [')']), by simp, hbefore,
        hbetween.append hinner.enclose⟩
  · rw [openAfter_cons hopen hclose] at hc
    obtain rfl := Option.some.inj hc
    obtain ⟨before, between, rfl, hbefore, hbetween⟩ := ih _ hshorter hk rfl
    exact ⟨before, between ++ [c], by simp, hbefore,
      hbetween.append (Balanced.cons rfl hopen hclose)⟩

/-- Where parentheses are open after a text, the first of them has only balanced text before it. -/
lemma exists_append_outermost (h : openAfter cs 0 = some (n + 1)) :
    ∃ a b, cs = a ++ '(' :: b ∧ Balanced a ∧ openAfter b 0 = some n := by
  induction n generalizing cs with
  | zero =>
    obtain ⟨before, between, rfl, hbefore, hbetween⟩ := exists_append_innermost h
    exact ⟨before, between, rfl, hbefore, hbetween⟩
  | succ n ih =>
    obtain ⟨before, between, rfl, hbefore, hbetween⟩ := exists_append_innermost h
    obtain ⟨a, b, rfl, ha, hb⟩ := ih hbefore
    refine ⟨a, b ++ '(' :: between, by simp, ha, ?_⟩
    rw [openAfter_append, hb]
    exact hbetween.openAfter_eq (n + 1)

/-- A `)` has a partner if no parenthesis up to it closes without being open. -/
lemma exists_partners_close (h : openAfter (a ++ ')' :: b) 0 ≠ none) :
    ∃ i, Partners (a ++ ')' :: b) i a.length := by
  rw [openAfter_append] at h
  cases ha : openAfter a 0 with
  | none => exact absurd (by rw [ha]; rfl) h
  | some k =>
    cases k with
    | zero => exact absurd (by rw [ha]; rfl) h
    | succ m =>
      obtain ⟨before, between, rfl, -, hbetween⟩ := exists_append_innermost ha
      exact ⟨_, before, between, b, rfl, hbetween, rfl, rfl⟩

/-- Behind a `(` of a balanced text stands a balanced part and then a `)`. -/
lemma exists_append_close (h : Balanced (a ++ '(' :: b)) :
    ∃ between after, b = between ++ ')' :: after ∧ Balanced between := by
  rw [Balanced, openAfter_append] at h
  obtain ⟨k, -, hk⟩ := Option.bind_eq_some_iff.mp h
  rw [openAfter_open] at hk
  -- the parenthesis stays open if the text behind it closes no more than it opens
  have hb : openAfter b 0 = none := by
    cases hb : openAfter b 0 with
    | none => rfl
    | some m =>
      have hadd := openAfter_add hb (k + 1)
      rw [Nat.zero_add, hk] at hadd
      cases hadd
  exact exists_append_of_openAfter_eq_none hb

/-- Every `(` of a balanced text has a partner. -/
lemma exists_partners_open (h : Balanced (a ++ '(' :: b)) :
    ∃ j, Partners (a ++ '(' :: b) a.length j := by
  obtain ⟨between, after, rfl, hbetween⟩ := exists_append_close h
  exact ⟨_, a, between, after, by simp, hbetween, rfl, rfl⟩

/-- A `)` behind a balanced text has no partner. -/
lemma not_partners_close (ha : Balanced a) (b : List Char) (i : ℕ) :
    ¬ Partners (a ++ ')' :: b) i a.length := by
  rintro ⟨before, between, after, heq, hbetween, -, hlength⟩
  obtain ⟨rfl, -⟩ := List.append_inj heq hlength.symm
  rw [Balanced, openAfter_append] at ha
  obtain ⟨k, -, hk⟩ := Option.bind_eq_some_iff.mp ha
  rw [openAfter_open, hbetween.openAfter_eq] at hk
  cases hk

/-- A `(` before a text that closes no more than it opens has no partner. -/
lemma not_partners_open (hb : openAfter b 0 = some n) (a : List Char) (j : ℕ) :
    ¬ Partners (a ++ '(' :: b) a.length j := by
  rintro ⟨before, between, after, heq, hbetween, hlength, -⟩
  rw [List.append_assoc] at heq
  obtain ⟨-, heq⟩ := List.append_inj heq hlength.symm
  obtain rfl : b = between ++ ')' :: after := (List.cons.inj heq).2
  rw [openAfter_append, hbetween] at hb
  cases hb

/-- No `)` lacks a partner in a text where none closes without being open. -/
lemma not_unpairedClose (h : openAfter cs 0 ≠ none) (q : ℕ) : ¬ UnpairedClose cs q := by
  rintro ⟨hq, hunpaired⟩
  obtain ⟨a, b, rfl, rfl⟩ := exists_append_of_getElem? hq
  obtain ⟨i, hi⟩ := exists_partners_close h
  exact hunpaired i hi

/-- No `(` lacks a partner in a balanced text. -/
lemma not_unpairedOpen (h : Balanced cs) (q : ℕ) : ¬ UnpairedOpen cs q := by
  rintro ⟨hq, hunpaired⟩
  obtain ⟨a, b, rfl, rfl⟩ := exists_append_of_getElem? hq
  obtain ⟨j, hj⟩ := exists_partners_open h
  exact hunpaired j hj

/-! ## The parenthesis to blame -/

/-- The first `)` that closes without being open is to blame. -/
lemma isToBlame_close (ha : Balanced a) (b : List Char) : IsToBlame (a ++ ')' :: b) a.length := by
  refine Or.inl ⟨⟨by simp, not_partners_close ha b⟩, fun q hq hunpaired => ?_⟩
  rw [Balanced] at ha
  have hpaired : ¬ UnpairedClose a q :=
    not_unpairedClose (by rw [ha]; exact Option.some_ne_none 0) q
  exact hpaired
    ⟨by rw [← hunpaired.1, List.getElem?_append_left hq], fun i hi => hunpaired.2 i (hi.append _)⟩

/-- If none closes without being open, the first that stays open is to blame. -/
lemma isToBlame_open (ha : Balanced a) (hb : openAfter b 0 = some n) :
    IsToBlame (a ++ '(' :: b) a.length := by
  have hopen : openAfter (a ++ '(' :: b) 0 = some (n + 1) := by
    rw [openAfter_append, ha]
    exact openAfter_add hb 1
  refine Or.inr ⟨not_unpairedClose (by rw [hopen]; exact Option.some_ne_none _),
    ⟨by simp, not_partners_open hb a⟩, fun q hq hunpaired => ?_⟩
  refine not_unpairedOpen ha q ?_
  exact ⟨by rw [← hunpaired.1, List.getElem?_append_left hq], fun j hj =>
    hunpaired.2 j (hj.append _)⟩

lemma IsToBlame.position_le (h : IsToBlame cs i) : i ≤ cs.length := by
  rcases h with ⟨⟨hget, -⟩, -⟩ | ⟨-, ⟨hget, -⟩, -⟩ <;>
    exact Nat.le_of_lt (List.getElem?_eq_some_iff.mp hget).1

end Text

open Text

namespace Span

/-- Through a text in which no parenthesis closes without being open, the scan for unmatched
parentheses changes the top of the stack and leaves what lies below. -/
lemma exists_unmatchedFrom_append {a : List Char} {opened : List ℕ} {m : ℕ}
    (h : openAfter a opened.length = some m) (position : ℕ) :
    ∃ opened' : List ℕ, opened'.length = m ∧
      ∀ b outer, unmatchedFrom (a ++ b) position (opened ++ outer) =
      unmatchedFrom b (position + a.length) (opened' ++ outer) := by
  induction a generalizing opened position with
  | nil => exact ⟨opened, Option.some.inj h, fun b outer => rfl⟩
  | cons c a ih =>
    rw [List.length_cons, Nat.add_comm a.length, ← Nat.add_assoc]
    by_cases hopen : c = '('
    · subst hopen
      have hopened : openAfter a (position :: opened).length = some m := h
      exact ih hopened (position + 1)
    by_cases hclose : c = ')'
    · subst hclose
      cases opened with
      | nil => cases h
      | cons top opened => exact ih h (position + 1)
    · rw [openAfter_cons hopen hclose] at h
      obtain ⟨opened', hlength, heq⟩ := ih h (position + 1)
      refine ⟨opened', hlength, fun b outer => ?_⟩
      rw [List.cons_append, unmatchedFrom.eq_def]
      exact ((if_neg hopen).trans (if_neg hclose)).trans (heq b outer)

/-- Through balanced text the scan leaves the stack as it is. -/
lemma unmatchedFrom_append_of_balanced {a : List Char} (h : Balanced a) (b : List Char)
    (position : ℕ) (outer : List ℕ) :
    unmatchedFrom (a ++ b) position outer = unmatchedFrom b (position + a.length) outer := by
  have hnil : openAfter a ([] : List ℕ).length = some 0 := h
  obtain ⟨opened', hlength, heq⟩ := exists_unmatchedFrom_append hnil position
  obtain rfl := List.length_eq_zero_iff.mp hlength
  exact heq b outer

/-- Where parentheses do not match, the position found is that of the parenthesis to blame. -/
lemma isToBlame_of_unmatchedFrom {cs : List Char} {position : ℕ}
    (h : unmatchedFrom cs 0 [] = some position) : IsToBlame cs position := by
  cases hcs : openAfter cs 0 with
  | none =>
    obtain ⟨a, b, rfl, ha⟩ := exists_append_of_openAfter_eq_none hcs
    rw [unmatchedFrom_append_of_balanced ha, Nat.zero_add] at h
    obtain rfl : a.length = position := Option.some.inj h
    exact isToBlame_close ha b
  | some n =>
    cases n with
    | zero =>
      rw [unmatchedFrom_eq_none_iff.mpr hcs] at h
      cases h
    | succ n =>
      obtain ⟨a, b, rfl, ha, hb⟩ := exists_append_outermost hcs
      have hnil : openAfter b ([] : List ℕ).length = some n := hb
      obtain ⟨opened', -, heq⟩ := exists_unmatchedFrom_append hnil (0 + a.length + 1)
      have hend := heq [] [0 + a.length]
      rw [List.append_nil, unmatchedFrom, List.getLast?_concat] at hend
      rw [unmatchedFrom_append_of_balanced ha] at h
      obtain rfl : 0 + a.length = position := Option.some.inj (hend.symm.trans h)
      rw [Nat.zero_add]
      exact isToBlame_open ha hb

end Span

end Clausal
