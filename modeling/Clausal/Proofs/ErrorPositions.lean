import Clausal.Proofs.Parentheses
import Clausal.Proofs.ReadableStatements

/-!
# Positions of errors

The parentheses of a text are compared once, before it is read, and from then on reading relies on
them.  The reader checks neither that the spans it is handed are balanced, nor that a count of open
parentheses stays above zero, nor that an argument list is closed.  A second reader checks all of
this wherever the first one relies on it, and stops without a result if it fails.  The two give the
same for every text, so nothing that is relied on ever fails.

What makes this true is that every span is a balanced part of the text, at the place where it says
that it starts.  So the position of every error lies in the text, and where the fault names a
character, this character stands there.
-/

namespace Clausal

open Text

/-! ## Parts of a text -/

/-- A span is a balanced part of a text and stands where it says that it starts. -/
structure Span.IsPartOf (s : Span) (cs : List Char) : Prop where
  balanced : Balanced s.chars
  exists_append : ∃ before after, cs = before ++ s.chars ++ after ∧ before.length = s.start

namespace Span.IsPartOf

variable {s left right inside : Span} {cs a b d rest : List Char} {c : Char} {op : Connective}

/-- A balanced part of a part is a part. -/
lemma part (h : s.IsPartOf cs) (heq : s.chars = a ++ b ++ d) (hb : Balanced b) :
    (⟨s.start + a.length, b⟩ : Span).IsPartOf cs := by
  obtain ⟨before, after, rfl, hstart⟩ := h.exists_append
  refine ⟨hb, before ++ a, d ++ after, ?_, ?_⟩
  · rw [heq]
    simp only [List.append_assoc]
  · rw [List.length_append, hstart]

/-- The characters of a part are those of the text. -/
lemma getElem?_eq (h : s.IsPartOf cs) (heq : s.chars = a ++ c :: b) :
    cs[s.start + a.length]? = some c := by
  obtain ⟨before, after, rfl, hstart⟩ := h.exists_append
  rw [heq, ← hstart, ← List.length_append]
  simp

lemma stop_le (h : s.IsPartOf cs) : s.stop ≤ cs.length := by
  obtain ⟨before, after, rfl, hstart⟩ := h.exists_append
  rw [Span.stop, ← hstart, List.length_append, List.length_append]
  exact Nat.le_add_right _ _

lemma start_le (h : s.IsPartOf cs) : s.start ≤ cs.length :=
  Nat.le_trans (Nat.le_add_right _ _) h.stop_le

lemma trimStart (h : s.IsPartOf cs) : s.trimStart.IsPartOf cs := by
  have heq : s.chars = s.chars.takeWhile isBlank ++ Text.trimStart s.chars ++ [] := by
    rw [List.append_nil, Text.trimStart, List.takeWhile_append_dropWhile]
  have hblank : Balanced (s.chars.takeWhile isBlank) := balanced_of_forall_notMem_marks fun c hc =>
    notMem_marks_of_isBlank (List.mem_takeWhile_imp hc)
  have hbalanced := h.balanced
  rw [heq, List.append_nil] at hbalanced
  exact h.part heq (hblank.of_append_left hbalanced)

lemma trim (h : s.IsPartOf cs) : s.trim.IsPartOf cs := by
  obtain ⟨after, heq, hafter⟩ := exists_append_trimEnd s.trimStart.chars
  have hbalanced := h.trimStart.balanced
  rw [heq] at hbalanced
  exact h.trimStart.part (a := []) heq (hbalanced.of_append_blank hafter)

/-- A part without its first character, which is no parenthesis. -/
lemma tail (h : s.IsPartOf cs) (hchars : s.chars = c :: rest) (hc : c ≠ '(' ∧ c ≠ ')') :
    (⟨s.start + 1, rest⟩ : Span).IsPartOf cs := by
  have hbalanced := h.balanced
  rw [hchars, Text.Balanced, openAfter_cons hc.1 hc.2] at hbalanced
  exact h.part (a := [c]) (by rw [hchars, List.append_nil]; rfl) hbalanced

/-- What stands on either side of a connective is a part, and the connective stands between them. -/
lemma splitConnective? (h : s.IsPartOf cs) (hsplit : s.splitConnective? = some (left, op, right)) :
    left.IsPartOf cs ∧ right.IsPartOf cs ∧ cs[left.stop]? = some op.symbol := by
  obtain ⟨⟨k, op'⟩, hfound, hparts⟩ := Option.map_eq_some_iff.mp hsplit
  simp only [Prod.mk.injEq] at hparts
  obtain ⟨rfl, rfl, rfl⟩ := hparts
  obtain ⟨a, b, hchars, ha, hnone⟩ := exists_append_of_connectiveFrom h.balanced hfound
  rw [hchars, connectiveFrom_append ha, hnone, connectiveFrom_symbol] at hfound
  obtain rfl : 0 + a.length = k := (Prod.mk.inj (Option.some.inj hfound)).1
  have hb : Balanced b := by
    have hbalanced := Balanced.of_append_left ha (hchars ▸ h.balanced)
    rwa [Text.Balanced, openAfter_cons op'.symbol_ne.1 op'.symbol_ne.2] at hbalanced
  rw [hchars, Nat.zero_add, List.take_left, ← List.drop_drop, List.drop_left, List.drop_one,
    List.tail_cons]
  refine ⟨?_, ?_, ?_⟩
  · exact h.part (a := []) hchars ha
  · have hright := h.part (a := a ++ [op'.symbol]) (b := b) (d := []) (by simp [hchars]) hb
    rwa [List.length_append, List.length_singleton, ← Nat.add_assoc] at hright
  · exact h.getElem?_eq hchars

/-- What stands inside the parentheses around a part is a part. -/
lemma enclosed? (h : s.IsPartOf cs) (hinside : s.enclosed? = some inside) : inside.IsPartOf cs := by
  unfold Span.enclosed? at hinside
  split at hinside
  · rename_i rest hchars
    split at hinside
    · rename_i hclosing
      obtain rfl := Option.some.inj hinside
      rw [hchars, closing?, closingFrom_open] at hclosing
      obtain ⟨a, b, rfl, ha, hlength⟩ := exists_of_closingFrom hclosing
      obtain rfl : b = [] := by
        rw [List.length_append, List.length_cons] at hlength
        exact List.length_eq_zero_iff.mp (by omega)
      rw [List.dropLast_concat]
      exact h.part (a := ['(']) hchars ha
    · cases hinside
  · cases hinside

end Span.IsPartOf

/-! ## Errors that point at their faults -/

/-- The character that a fault names. -/
def ParseFault.character? : ParseFault → Option Char
  | .missingOperand op => some op.symbol
  | .strayCharacter c => some c
  | _ => none

/-- The position of an error lies in a text or at its end, and holds the character that the fault
names. -/
structure ParseError.PointsInto (e : ParseError) (cs : List Char) : Prop where
  position_le : e.position ≤ cs.length
  character : ∀ c ∈ e.fault.character?, cs[e.position]? = some c

namespace Statement

/-- What is read has a property, or the error points into the text and is not about parentheses. -/
def Reports {α : Type} (cs : List Char) (R : α → Prop) : Except ParseError α → Prop
  | .ok a => R a
  | .error e => e.PointsInto cs ∧ e.fault ≠ .unbalancedParenthesis

section Reports

variable {α β : Type} {cs a b : List Char} {R : α → Prop} {S : β → Prop} {fault : ParseFault}
  {position : ℕ}

lemma Reports.bind {x : Except ParseError α} {f : α → Except ParseError β} (h : Reports cs R x)
    (hf : ∀ a, R a → Reports cs S (f a)) : Reports cs S (x >>= f) := by
  cases x with
  | error e => exact h
  | ok a => exact hf a h

/-- A fault that names no character is reported if its position lies in the text. -/
lemma reports_failAt (hle : position ≤ cs.length) (hcharacter : fault.character? = none)
    (hfault : fault ≠ .unbalancedParenthesis) : Reports cs R (failAt fault position) :=
  ⟨⟨hle, fun c hc => absurd (hcharacter.symm.trans hc) (Option.some_ne_none c).symm⟩, hfault⟩

/-- A fault that names a character is reported if the character stands at the position. -/
lemma reports_failAt_of_getElem? {c : Char} (hcharacter : fault.character? = some c)
    (h : cs[position]? = some c) : Reports cs R (failAt fault position) := by
  obtain ⟨hlt, -⟩ := List.getElem?_eq_some_iff.mp h
  refine ⟨⟨Nat.le_of_lt hlt, fun d hd => ?_⟩, fun hfault => ?_⟩
  · rw [← Option.some.inj (hcharacter.symm.trans hd)]
    exact h
  · obtain rfl : fault = .unbalancedParenthesis := hfault
    cases hcharacter

variable {s : Span}

/-- The variable of a quantifier ends before a part of the text, or it is reported where it is
bad. -/
lemma reports_readBoundVariable (h : s.IsPartOf cs) :
    Reports cs (fun p : String × Span => p.2.IsPartOf cs) (readBoundVariable s) := by
  unfold readBoundVariable
  split
  · exact reports_failAt h.start_le rfl (by decide)
  · rename_i v rest hchars
    split
    · exact reports_failAt h.start_le rfl (by decide)
    · rename_i hlower
      rw [Bool.not_eq_true, Bool.not_eq_false'] at hlower
      have hafter := h.tail hchars (ne_of_notMem_marks (notMem_marks_of_isLowercase hlower))
      cases rest with
      | nil => exact hafter
      | cons c rest =>
        dsimp only
        split
        · exact reports_failAt hafter.start_le rfl (by decide)
        · exact hafter.trimStart

lemma ne_of_quantifier {c : Char} {q : Quantifier} (h : Quantifier.ofSymbol? c = some q) :
    c ≠ '(' ∧ c ≠ ')' := by
  constructor
  · rintro rfl
    cases h
  · rintro rfl
    cases h

/-- A run of binders ends before a part of the text. -/
lemma reports_readBinders {levels : ℕ} (h : s.IsPartOf cs) :
    Reports cs (fun p : List Binder × Span => p.2.IsPartOf cs) (readBinders levels s) := by
  induction levels generalizing s with
  | zero =>
    rw [readBinders.eq_def]
    dsimp only
    split
    · exact h
    · split
      · exact h
      · exact reports_failAt h.start_le rfl (by decide)
  | succ levels ih =>
    rw [readBinders.eq_def]
    dsimp only
    split
    · exact h
    · rename_i c rest hchars
      split
      · exact h
      · rename_i q hq
        refine (reports_readBoundVariable (h.tail hchars (ne_of_quantifier hq))).bind ?_
        rintro ⟨v, after⟩ hafter
        refine (ih hafter).bind ?_
        rintro ⟨binders, body⟩ hbody
        exact hbody

end Reports

/-! ## Reading that checks what it relies on -/

/-- The first connective outside all parentheses as `connectiveFrom` finds it, unless on the way to
it a parenthesis closes that is not open. -/
def connectiveFromChecked : List Char → (depth index : ℕ) → Option (Option (ℕ × Connective))
  | [], _, _ => some none
  | c :: cs, depth, index =>
      if c = '(' then connectiveFromChecked cs (depth + 1) (index + 1)
      else if c = ')' then
        match depth with
        | 0 => none
        | depth + 1 => connectiveFromChecked cs depth (index + 1)
      else if depth = 0 then
        match Connective.ofSymbol? c with
        | some op => some (some (index, op))
        | none => connectiveFromChecked cs depth (index + 1)
      else connectiveFromChecked cs depth (index + 1)

/-- The position that `tooDeepFrom` finds, unless on the way to it a parenthesis closes that is not
open. -/
def tooDeepFromChecked : List Char → (nesting position : ℕ) → Option (Option ℕ)
  | [], _, _ => some none
  | c :: cs, nesting, position =>
      if c = '(' then
        if maxNesting ≤ nesting + 1 then some (some position)
        else tooDeepFromChecked cs (nesting + 1) (position + 1)
      else if c = ')' then
        match nesting with
        | 0 => none
        | nesting + 1 => tooDeepFromChecked cs nesting (position + 1)
      else tooDeepFromChecked cs nesting (position + 1)

/-- Reading that ends with a result or an error, or with neither where something it relies on does
not hold. -/
abbrev Checked : Type → Type :=
  ExceptT ParseError Option

/-- Something that is relied on does not hold. -/
def broken {α : Type} : Checked α :=
  ExceptT.mk none

/-- Reads what follows the name of a predicate and checks that the parenthesis is closed. -/
def readArgumentTextChecked (depth : ℕ) (s : Span) : Checked (Option String) :=
  match s.chars with
  | [] => return none
  | _ :: inner =>
      match Span.closing? s.chars with
      | none => broken
      | some close =>
          let after : Span := { start := s.start + close + 1, chars := s.chars.drop (close + 1) }
          match after.trimStart.chars with
          | c :: _ => throw ⟨.strayCharacter c, after.trimStart.start⟩
          | [] =>
              let arguments := inner.take (close - 1)
              match tooDeepFromChecked arguments (depth + 1) (s.start + 1) with
              | none => broken
              | some (some position) => throw ⟨.tooDeep, position⟩
              | some none => return some (Text.trim (String.ofList arguments))

/-- Reads a predicate with these checks. -/
def readAtomChecked (depth : ℕ) (s : Span) : Checked WrittenAtom :=
  let name := s.chars.takeWhile (· != '(')
  match (name.zipIdx s.start).find? (fun p => !Text.isWordChar p.1) with
  | some (c, position) => throw ⟨.strayCharacter c, position⟩
  | none =>
      if name.isEmpty then throw ⟨.missingPredicateName, s.start⟩
      else do
        let arguments ← readArgumentTextChecked depth
          { start := s.start + name.length, chars := s.chars.drop name.length }
        return { binder := none, negated := false, name := String.ofList name, arguments }

/-- Reads a span with these checks, and checks first that the span is balanced. -/
def readSpanChecked (s : Span) (depth : ℕ) : Checked Statement :=
  if ¬ Balanced s.chars then broken
  else
    match s.trim.chars with
    | [] => throw ⟨.emptyFormula, s.trim.start⟩
    | c :: rest =>
        let start := s.trim.start
        if maxNesting ≤ depth then throw ⟨.tooDeep, start⟩
        else if connectiveFromChecked s.trim.chars 0 0 = none then broken
        else
          match s.trim.splitConnective? with
          | some (left, op, right) =>
              if left.trim.chars.isEmpty || right.trim.chars.isEmpty then
                throw ⟨.missingOperand op, left.stop⟩
              else do
                let l ← readSpanChecked left (depth + 1)
                let r ← readSpanChecked right (depth + 1)
                return join op l r
          | none =>
              if c = '¬' then do
                let body ← readSpanChecked { start := start + 1, chars := rest } (depth + 1)
                return body.negate
              else
                match Quantifier.ofSymbol? c with
                | some q => do
                    let (v, after) ← ofExcept
                      (readBoundVariable { start := start + 1, chars := rest })
                    let (more, body) ← ofExcept (readBinders (maxNesting - (depth + 1)) after)
                    let inner ← readSpanChecked body (depth + 1 + more.length)
                    return bind { quantifier := q, var := v } more body.trim.enclosed?.isSome inner
                | none =>
                    match s.trim.enclosed? with
                    | some inside => readSpanChecked inside (depth + 1)
                    | none => return .atom (← readAtomChecked depth s.trim)
termination_by maxNesting - depth

/-- Reads a formula text with these checks. -/
def parseChecked (s : String) : Checked (Option Statement) :=
  let whole : Span := { start := 0, chars := s.toList }
  match whole.unmatched? with
  | some position => throw ⟨.unbalancedParenthesis, position⟩
  | none =>
      if whole.trim.chars.isEmpty then return none else return some (← readSpanChecked whole 0)

/-! ## The two readers agree -/

variable {cs a : List Char} {s : Span} {n m : ℕ}

lemma connectiveFromChecked_eq (h : openAfter a n = some m) (i : ℕ) :
    connectiveFromChecked a n i = some (Span.connectiveFrom a n i) := by
  fun_induction openAfter a n generalizing i with
  | case1 n => rfl
  | case2 cs n ih => exact ih h (i + 1)
  | case3 cs _ => cases h
  | case4 cs n _ ih => exact ih h (i + 1)
  | case5 c cs n hopen hclose ih =>
    rw [connectiveFromChecked.eq_def, Span.connectiveFrom.eq_def]
    simp only [if_neg hopen, if_neg hclose]
    split
    · cases Connective.ofSymbol? c with
      | some op => rfl
      | none => exact ih h (i + 1)
    · exact ih h (i + 1)

lemma tooDeepFromChecked_eq (h : openAfter a n = some m) (position : ℕ) :
    tooDeepFromChecked a n position = some (tooDeepFrom a n position) := by
  fun_induction openAfter a n generalizing position with
  | case1 n => rfl
  | case2 cs n ih =>
    rw [tooDeepFromChecked.eq_def, tooDeepFrom.eq_def]
    dsimp only
    rw [if_pos rfl, if_pos rfl]
    split
    · rfl
    · exact ih h (position + 1)
  | case3 cs _ => cases h
  | case4 cs n _ ih => exact ih h (position + 1)
  | case5 c cs n hopen hclose ih =>
    rw [tooDeepFromChecked.eq_def, tooDeepFrom.eq_def]
    simp only [if_neg hopen, if_neg hclose]
    exact ih h (position + 1)

/-- The parenthesis that is too deep is one of the text. -/
lemma tooDeepFrom_lt {position q : ℕ} (h : tooDeepFrom a n position = some q) :
    q < position + a.length := by
  induction a generalizing n position with
  | nil => cases h
  | cons c a ih =>
    have hlonger : position + 1 + a.length = position + (c :: a).length := by
      rw [List.length_cons, Nat.add_right_comm, Nat.add_assoc]
    rw [← hlonger]
    rw [tooDeepFrom.eq_def] at h
    simp only at h
    split at h
    · split at h
      · obtain rfl := Option.some.inj h
        omega
      · exact ih h
    · split at h
      · exact ih h
      · exact ih h

/-- A checked reading gives what the reading gives, and the errors are right. -/
structure Agrees {α : Type} (cs : List Char) (R : α → Prop) (x : Checked α)
    (y : Except ParseError α) : Prop where
  eq : x = ExceptT.mk (some y)
  reports : Reports cs R y

section Agrees

variable {α β : Type} {R : α → Prop} {S : β → Prop}

lemma Agrees.ok {a : α} (h : R a) : Agrees cs R (pure a) (.ok a) :=
  ⟨rfl, h⟩

lemma Agrees.failAt {fault : ParseFault} {position : ℕ} (h : Reports cs R (failAt fault position)) :
    Agrees cs R (throw ⟨fault, position⟩) (Statement.failAt fault position) :=
  ⟨rfl, h⟩

lemma Agrees.ofExcept {x : Except ParseError α} (h : Reports cs R x) :
    Agrees cs R (ofExcept x) x := by
  cases x with
  | ok a => exact ⟨rfl, h⟩
  | error e => exact ⟨rfl, h⟩

lemma Agrees.bind {x : Checked α} {y : Except ParseError α} {f : α → Checked β}
    {g : α → Except ParseError β} (h : Agrees cs R x y) (hfg : ∀ a, R a → Agrees cs S (f a) (g a)) :
    Agrees cs S (x >>= f) (y >>= g) := by
  refine ⟨?_, h.reports.bind fun a ha => (hfg a ha).reports⟩
  rw [h.eq]
  cases y with
  | error e => rfl
  | ok a => exact (hfg a h.reports).eq

lemma Agrees.map {x : Checked α} {y : Except ParseError α} {f : α → β} (h : Agrees cs R x y)
    (hf : ∀ a, R a → S (f a)) : Agrees cs S (x >>= fun a => pure (f a)) (y.map f) := by
  have hbind : Agrees cs S (x >>= fun a => pure (f a)) (y >>= fun a => .ok (f a)) :=
    h.bind fun a ha => .ok (hf a ha)
  cases y with
  | error e => exact hbind
  | ok a => exact hbind

end Agrees

/-- Behind the name of a predicate the two readers agree, and the parenthesis is closed. -/
lemma agrees_readArgumentText {depth : ℕ} (h : s.IsPartOf cs)
    (hopen : ∀ c ∈ s.chars.head?, c = '(') :
    Agrees cs (fun _ => True) (readArgumentTextChecked depth s) (readArgumentText depth s) := by
  unfold readArgumentTextChecked readArgumentText
  cases hchars : s.chars with
  | nil => exact .ok trivial
  | cons c inner =>
    obtain rfl : c = '(' := hopen c (by rw [hchars]; rfl)
    have hbalanced : Balanced ([] ++ '(' :: inner) := hchars ▸ h.balanced
    obtain ⟨arguments, rest, rfl, harguments⟩ := exists_append_close hbalanced
    have hafter : (⟨s.start + (arguments.length + 1) + 1, rest⟩ : Span).IsPartOf cs := by
      have hrest : Balanced rest := harguments.enclose.of_append_left (by simpa using hbalanced)
      have hpart :=
        h.part (a := '(' :: arguments ++ [')']) (b := rest) (d := []) (by simp [hchars]) hrest
      simpa [Nat.add_assoc] using hpart
    have hdrop : ('(' :: (arguments ++ ')' :: rest)).drop (arguments.length + 1 + 1) = rest := by
      rw [List.drop_succ_cons, ← List.drop_drop, List.drop_left, List.drop_one, List.tail_cons]
    have htake : (arguments ++ ')' :: rest).take (arguments.length + 1 - 1) = arguments :=
      List.take_left
    have hclosing : Span.closing? ('(' :: (arguments ++ ')' :: rest)) =
        some (arguments.length + 1) :=
      Span.closing?_of_balanced harguments rest
    simp only [hclosing, hdrop, htake]
    rw [tooDeepFromChecked_eq (harguments.openAfter_eq (depth + 1))]
    cases hstray : (Span.trimStart ⟨s.start + (arguments.length + 1) + 1, rest⟩).chars with
    | cons c more =>
      exact .failAt (reports_failAt_of_getElem? rfl (hafter.trimStart.getElem?_eq (a := []) hstray))
    | nil =>
      cases hdeep : tooDeepFrom arguments (depth + 1) (s.start + 1) with
      | none => exact .ok trivial
      | some position =>
        have hlt := tooDeepFrom_lt hdeep
        have hle : s.start + (arguments.length + 1) + 1 ≤ cs.length := hafter.start_le
        exact .failAt (reports_failAt (by omega) rfl (by decide))

/-- The two readers agree on predicates. -/
lemma agrees_readAtom {depth : ℕ} (h : s.IsPartOf cs) :
    Agrees cs (fun _ => True) (readAtomChecked depth s) (readAtom depth s) := by
  unfold readAtomChecked readAtom
  dsimp only
  have hwhole : s.chars = s.chars.takeWhile (· != '(') ++ s.chars.dropWhile (· != '(') :=
    List.takeWhile_append_dropWhile.symm
  cases hstray :
    ((s.chars.takeWhile (· != '(')).zipIdx s.start).find? (fun p => !isWordChar p.1) with
  | some found =>
    obtain ⟨c, position⟩ := found
    obtain ⟨hle, hget⟩ :=
      List.mk_mem_zipIdx_iff_le_and_getElem?_sub.mp (List.mem_of_find?_eq_some hstray)
    obtain ⟨before, after, hname, hlength⟩ := exists_append_of_getElem? hget
    have hchars : s.chars = before ++ c :: (after ++ s.chars.dropWhile (· != '(')) := by
      rw [← List.cons_append, ← List.append_assoc, ← hname]
      exact hwhole
    have hstands := h.getElem?_eq hchars
    rw [hlength, Nat.add_sub_cancel' hle] at hstands
    exact .failAt (reports_failAt_of_getElem? rfl hstands)
  | none =>
    dsimp only
    split
    · exact .failAt (reports_failAt h.start_le rfl (by decide))
    · have hdrop : s.chars.drop (s.chars.takeWhile (· != '(')).length =
          s.chars.dropWhile (· != '(') :=
        (congrArg (List.drop _) hwhole).trans List.drop_left
      have hname : Balanced (s.chars.takeWhile (· != '(')) :=
        balanced_of_forall_notMem_marks fun c hc =>
        notMem_marks_of_isWordChar (find?_stray_eq_none_iff.mp hstray c hc)
      have hrest : Balanced (s.chars.dropWhile (· != '(')) :=
        hname.of_append_left (hwhole ▸ h.balanced)
      have hpart := h.part (d := []) (by rw [List.append_nil]; exact hwhole) hrest
      rw [← hdrop] at hpart
      exact (agrees_readArgumentText hpart eq_open_of_mem_head?_drop).map fun _ _ => trivial

/-- The two readers agree on every part of a text: each span that is handed on is a part again. -/
lemma agrees_readSpan {depth : ℕ} (h : s.IsPartOf cs) :
    Agrees cs (fun _ => True) (readSpanChecked s depth) (readSpan s depth) := by
  -- each part is read deeper, so the induction is on the levels that are left
  induction hn : maxNesting - depth using Nat.strongRecOn generalizing s depth with
  | ind n ih =>
  subst hn
  have htrim := h.trim
  rw [readSpanChecked, readSpan, if_neg (not_not.mpr h.balanced),
    connectiveFromChecked_eq htrim.balanced]
  cases hchars : s.trim.chars with
  | nil => exact .failAt (reports_failAt htrim.start_le rfl (by decide))
  | cons c rest =>
    dsimp only
    split
    · exact .failAt (reports_failAt htrim.start_le rfl (by decide))
    rw [if_neg (Option.some_ne_none _)]
    cases hsplit : s.trim.splitConnective? with
    | some parts =>
      obtain ⟨left, op, right⟩ := parts
      obtain ⟨hleft, hright, hsymbol⟩ := htrim.splitConnective? hsplit
      dsimp only
      split
      · exact .failAt (reports_failAt_of_getElem? rfl hsymbol)
      · exact (ih _ (by omega) hleft rfl).bind fun l _ =>
          (ih _ (by omega) hright rfl).bind fun r _ => .ok trivial
    | none =>
      dsimp only
      split
      · rename_i hc
        have hrest := htrim.tail hchars (by subst hc; decide)
        exact (ih _ (by omega) hrest rfl).bind fun body _ => .ok trivial
      · cases hq : Quantifier.ofSymbol? c with
        | some q =>
          have hrest := htrim.tail hchars (ne_of_quantifier hq)
          refine (Agrees.ofExcept (reports_readBoundVariable hrest)).bind ?_
          rintro ⟨v, after⟩ hafter
          refine (Agrees.ofExcept (reports_readBinders hafter)).bind ?_
          rintro ⟨more, body⟩ hbody
          exact (ih _ (by omega) hbody rfl).bind fun inner _ => .ok trivial
        | none =>
          cases hinside : s.trim.enclosed? with
          | some inside => exact ih _ (by omega) (htrim.enclosed? hinside) rfl
          | none => exact (agrees_readAtom htrim).map fun _ _ => trivial

/-- A text is read as a part of itself if it is balanced; otherwise a parenthesis is to blame. -/
lemma parse_cases (text : String) :
    (∃ position, parse text = .error ⟨.unbalancedParenthesis, position⟩ ∧
      parseChecked text = throw ⟨.unbalancedParenthesis, position⟩ ∧ ¬ Balanced text.toList ∧
      IsToBlame text.toList position) ∨
    Balanced text.toList ∧ Agrees text.toList (fun _ => True) (parseChecked text) (parse text) := by
  unfold parse parseChecked
  dsimp only
  cases hmatched : Span.unmatched? ⟨0, text.toList⟩ with
  | some position =>
    refine Or.inl
      ⟨position, rfl, rfl, fun hbalanced => ?_, Span.isToBlame_of_unmatchedFrom hmatched⟩
    rw [Span.unmatched?_eq_none_iff.mpr hbalanced] at hmatched
    cases hmatched
  | none =>
    have hbalanced := Span.unmatched?_eq_none_iff.mp hmatched
    have hwhole : (⟨0, text.toList⟩ : Span).IsPartOf text.toList :=
      ⟨hbalanced, [], [], by simp, rfl⟩
    refine Or.inr ⟨hbalanced, ?_⟩
    dsimp only
    split
    · exact .ok trivial
    · exact (agrees_readSpan hwhole).map fun _ _ => trivial

/-- A text is refused for its parentheses exactly if they are not balanced, and then the position is
that of the parenthesis to blame.  Nothing that reading relies on fails: no span that is handed on
is unbalanced, no count of open parentheses falls below zero, and no argument list is left open.
Every error points into the text, at the character that its fault names. -/
theorem parse_error_positions (text : String) :
    ((∃ position, parse text = .error ⟨.unbalancedParenthesis, position⟩) ↔
      ¬ Balanced text.toList) ∧
    (∀ position, parse text = .error ⟨.unbalancedParenthesis, position⟩ →
      IsToBlame text.toList position) ∧
    parseChecked text = ExceptT.mk (some (parse text)) ∧
    ∀ e, parse text = .error e → e.PointsInto text.toList := by
  rcases parse_cases text with
    ⟨position, hparse, hchecked, hunbalanced, hblame⟩ | ⟨hbalanced, hagrees⟩
  · rw [hparse]
    refine ⟨iff_of_true ⟨position, rfl⟩ hunbalanced, ?_, hchecked, ?_⟩
    · rintro _ ⟨⟩
      exact hblame
    · rintro _ ⟨⟩
      exact ⟨hblame.position_le, fun c hc => absurd hc (Option.not_mem_none c)⟩
  · have hreports := hagrees.reports
    refine ⟨iff_of_false ?_ (not_not.mpr hbalanced), ?_, hagrees.eq, ?_⟩
    · rintro ⟨position, hparse⟩
      rw [hparse] at hreports
      exact hreports.2 rfl
    · intro position hparse
      rw [hparse] at hreports
      exact absurd rfl hreports.2
    · intro e hparse
      rw [hparse] at hreports
      exact hreports.1

example : parse "(P) ∧ ((Q) ∨" = .error ⟨.unbalancedParenthesis, 6⟩ :=
  rfl

end Statement

end Clausal
