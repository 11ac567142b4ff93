import Clausal.Formula.Lowering
import Clausal.Proofs.RoundTrip
import Clausal.Proofs.TermText

/-!
# The limit of nesting

The limit that reading puts on the levels of a text is a limit on the formula that the text says.
No way from the root of the formula to an atom, or on to a part of its arguments, passes more nodes
than there are levels.  A sign, a binder, a connective and an application take one level each in the
text and at most one node each in the formula.  Parentheses take a level and no node.

What stands in front of a node is gathered from several places of the text, so the lemmas on it
compare two nodes that differ in nothing else.
-/

namespace Clausal

open Text

/-! ## Depth of formulas -/

namespace Formula

/-- For every atom in a formula, and for every variable, constant and application in its arguments,
the number of negations, connectives, quantifiers and applications on the way to it from the
root. -/
def pathLengths : Formula → List ℕ
  | .atom l => 0 :: l.args.flatMap Term.pathLengths
  | .not f => f.pathLengths.map (· + 1)
  | .and f g | .or f g | .implies f g => (f.pathLengths ++ g.pathLengths).map (· + 1)
  | .quantified _ _ f => f.pathLengths.map (· + 1)

variable {f : Formula}

lemma pathLengths_join (c : Connective) (f g : Formula) :
    (join c f g).pathLengths = (f.pathLengths ++ g.pathLengths).map (· + 1) := by
  cases c <;> rfl

/-- Each binder is one more node on every way. -/
lemma pathLengths_bindAll (binders : List Binder) (f : Formula) :
    (bindAll binders f).pathLengths = f.pathLengths.map (· + binders.length) := by
  induction binders with
  | nil => exact (List.map_id' _).symm
  | cons b binders ih =>
    have hcons : (bindAll (b :: binders) f).pathLengths =
        (bindAll binders f).pathLengths.map (· + 1) := rfl
    rw [hcons, ih, List.map_map]
    rfl

/-- Each binder and a negation are one more node each on every way. -/
lemma pathLengths_withLead (negated : Bool) (binders : List Binder) (f : Formula) :
    (withLead negated binders f).pathLengths =
      f.pathLengths.map (· + (binders.length + negated.toNat)) := by
  cases negated with
  | false => exact pathLengths_bindAll binders f
  | true =>
    have hnot : (withLead true binders f).pathLengths =
        (bindAll binders f).pathLengths.map (· + 1) := rfl
    rw [hnot, pathLengths_bindAll, List.map_map]
    rfl

/-! ## Lowering -/

lemma ofAtom_eq_ok_iff {a : WrittenAtom} : ofAtom a = .ok f ↔
    ∃ args, Term.readArguments a.name (a.arguments.getD "") = .ok args ∧
      f = bindAll a.binder.toList
        (.atom { predicate := a.name, args, positive := !a.negated }) := by
  unfold ofAtom
  cases Term.readArguments a.name (a.arguments.getD "") with
  | error e => simp
  | ok args => simp [eq_comm]

lemma ofStatement_scoped_eq_ok_iff {negated : Bool} {binders : List Binder}
    {connective : Option Connective} {operand : Statement} :
    ofStatement (.scoped negated binders connective operand) = .ok f ↔
      connective = none ∧ ∃ g, ofStatement operand = .ok g ∧ f = withLead negated binders g := by
  rw [ofStatement]
  constructor
  · intro h
    obtain ⟨g, hg, h⟩ := bind_eq_ok h
    cases connective with
    | some c => cases h
    | none => exact ⟨rfl, g, hg, (Except.ok.inj h).symm⟩
  · rintro ⟨rfl, g, hg, rfl⟩
    rw [hg]
    rfl

lemma ofStatement_joined_eq_ok_iff {negated : Bool} {binders : List Binder}
    {connective : Option Connective} {left right : Statement} :
    ofStatement (.joined negated binders connective left right) = .ok f ↔
      ∃ c g k, connective = some c ∧ ofStatement left = .ok g ∧ ofStatement right = .ok k ∧
        f = withLead negated binders (join c g k) := by
  rw [ofStatement]
  constructor
  · intro h
    obtain ⟨g, hg, h⟩ := bind_eq_ok h
    cases connective with
    | none => cases h
    | some c =>
      obtain ⟨k, hk, h⟩ := bind_eq_ok h
      exact ⟨c, g, k, rfl, hg, hk, (Except.ok.inj h).symm⟩
  · rintro ⟨c, g, k, rfl, hg, hk, rfl⟩
    rw [hg, ok_bind, hk]
    rfl

end Formula

/-! ## Statements -/

namespace Statement

open Formula

/-- Whatever formula a statement says, no way from its root passes `limit` nodes. -/
def PathsBelow (limit : ℕ) (st : Statement) : Prop :=
  ∀ f, ofStatement st = .ok f → ∀ n ∈ f.pathLengths, n < limit

variable {st l r operand left right : Statement} {limit limit' more' : ℕ} {negated negated' : Bool}
  {binders binders' : List Binder} {connective : Option Connective}

lemma PathsBelow.mono (h : st.PathsBelow limit) (hle : limit ≤ limit') : st.PathsBelow limit' :=
  fun f hf n hn => Nat.lt_of_lt_of_le (h f hf n hn) hle

/-- What is put in front of a node with one operand is added to every way. -/
lemma PathsBelow.scoped (h : (Statement.scoped negated binders connective operand).PathsBelow limit)
    (hle : binders'.length + negated'.toNat ≤ binders.length + negated.toNat + more') :
    (Statement.scoped negated' binders' connective operand).PathsBelow (limit + more') := by
  intro f hf
  obtain ⟨hconnective, g, hg, rfl⟩ := ofStatement_scoped_eq_ok_iff.mp hf
  have hbelow := h _ (ofStatement_scoped_eq_ok_iff.mpr ⟨hconnective, g, hg, rfl⟩)
  rw [pathLengths_withLead, List.forall_mem_map] at hbelow ⊢
  intro n hn
  have hlt := hbelow n hn
  omega

/-- What is put in front of a node with two operands is added to every way. -/
lemma PathsBelow.joined
    (h : (Statement.joined negated binders connective left right).PathsBelow limit)
    (hle : binders'.length + negated'.toNat ≤ binders.length + negated.toNat + more') :
    (Statement.joined negated' binders' connective left right).PathsBelow (limit + more') := by
  intro f hf
  obtain ⟨c, g, k, hconnective, hg, hk, rfl⟩ := ofStatement_joined_eq_ok_iff.mp hf
  have hbelow := h _ (ofStatement_joined_eq_ok_iff.mpr ⟨c, g, k, hconnective, hg, hk, rfl⟩)
  rw [pathLengths_withLead, List.forall_mem_map] at hbelow ⊢
  intro n hn
  have hlt := hbelow n hn
  omega

/-- Binders in front of an atom are added to every way. -/
lemma PathsBelow.atom {a : WrittenAtom} {binder : Option Binder} {negated : Bool}
    (h : (Statement.atom a).PathsBelow limit)
    (hle : binder.toList.length ≤ a.binder.toList.length + more') :
    (Statement.atom { a with binder, negated }).PathsBelow (limit + more') := by
  intro f hf
  obtain ⟨args, hargs, rfl⟩ := ofAtom_eq_ok_iff.mp hf
  have hbelow := h _ (ofAtom_eq_ok_iff.mpr ⟨args, hargs, rfl⟩)
  rw [pathLengths_bindAll, List.forall_mem_map] at hbelow ⊢
  intro n hn
  have hlt := hbelow n hn
  dsimp only
  omega

/-- A node over a statement adds its binders and its sign to every way. -/
lemma PathsBelow.over (h : operand.PathsBelow limit)
    (hle : binders.length + negated.toNat ≤ more') :
    (Statement.scoped negated binders connective operand).PathsBelow (limit + more') := by
  intro f hf
  obtain ⟨-, g, hg, rfl⟩ := ofStatement_scoped_eq_ok_iff.mp hf
  rw [pathLengths_withLead, List.forall_mem_map]
  intro n hn
  have hlt := h g hg n hn
  omega

/-- A connective is one node. -/
lemma PathsBelow.join (hl : l.PathsBelow limit) (hr : r.PathsBelow limit) (op : Connective) :
    (join op l r).PathsBelow (limit + 1) := by
  intro f hf
  obtain ⟨c, g, k, -, hg, hk, rfl⟩ := ofStatement_joined_eq_ok_iff.mp hf
  rw [pathLengths_withLead, pathLengths_join, List.map_map, List.forall_mem_map,
    List.forall_mem_append]
  exact ⟨fun n hn => Nat.succ_lt_succ (hl g hg n hn), fun n hn => Nat.succ_lt_succ (hr k hk n hn)⟩

/-- A negation sign is at most one node. -/
lemma PathsBelow.negate (h : st.PathsBelow limit) : st.negate.PathsBelow (limit + 1) := by
  have hsign : ∀ (negated : Bool) (k : ℕ), k + (!negated).toNat ≤ k + negated.toNat + 1 := by
    intro negated k
    cases negated with
    | false => exact Nat.le_refl _
    | true => exact Nat.le_add_right k 2
  match st with
  | .atom a =>
    refine h.atom ?_
    cases a.binder <;> exact Nat.le_succ _
  | .scoped negated binders connective operand => exact h.scoped (hsign negated _)
  | .joined negated binders connective left right => exact h.joined (hsign negated _)

/-- Each binder is one node. -/
lemma PathsBelow.bind (h : st.PathsBelow limit) (first : Binder) (more : List Binder)
    (parenthesized : Bool) :
    (bind first more parenthesized st).PathsBelow (limit + (more.length + 1)) := by
  have hover :
      (Statement.scoped false (first :: more) none st).PathsBelow (limit + (more.length + 1)) :=
    h.over (Nat.le_refl _)
  match st with
  | .atom a =>
    rw [Statement.bind]
    split
    · exact h.atom (by rw [Option.toList_some, List.length_singleton]; omega)
    · exact hover
  | .scoped false binders connective operand =>
    exact h.scoped (by simp only [List.length_append, List.length_cons]; omega)
  | .joined false binders connective left right =>
    exact h.joined (by simp only [List.length_append, List.length_cons]; omega)
  | .scoped true _ _ _ => exact hover
  | .joined true _ _ _ _ => exact hover

/-! ## Reading -/

/-- Argument text that is read has its parentheses below the limit, where those around it count as
one level. -/
lemma deepest_lt_of_readArgumentText {depth : ℕ} {s : Span} {text : String}
    (h : readArgumentText depth s = .ok (some text)) :
    deepest text.toList (depth + 1) < maxNesting := by
  unfold readArgumentText at h
  split at h
  · cases h
  · split at h
    · cases h
    · simp only at h
      split at h
      · cases h
      · split at h
        · cases h
        · rename_i hfits
          obtain rfl := Option.some.inj (Except.ok.inj h)
          rw [trim, String.toList_ofList, String.toList_ofList]
          exact Nat.lt_of_le_of_lt (deepest_trim_le _ _) (tooDeepFrom_eq_none_iff.mp hfits)

/-- The parts of an atom that is read: it has no binder, and its argument text is what was read. -/
lemma exists_readArgumentText_of_readAtom {depth : ℕ} {s : Span} {a : WrittenAtom}
    (h : readAtom depth s = .ok a) :
    a.binder = none ∧ ∃ s', readArgumentText depth s' = .ok a.arguments := by
  unfold readAtom at h
  simp only at h
  split at h
  · cases h
  · split at h
    · cases h
    · obtain ⟨arguments, harguments, rfl⟩ := map_eq_ok h
      exact ⟨rfl, _, harguments⟩

/-- Argument text that is read at some depth lists terms that are nested no deeper than the levels
left. -/
lemma pathLengths_of_readArguments {depth : ℕ} {arguments : Option String} {predicate : String}
    {args : List Term} (harguments : ∀ text ∈ arguments, Balanced text.toList)
    (hdeep : ∀ text ∈ arguments, deepest text.toList (depth + 1) < maxNesting)
    (hdepth : depth < maxNesting)
    (h : Term.readArguments predicate (arguments.getD "") = .ok args) :
    ∀ t ∈ args, ∀ n ∈ t.pathLengths, depth + n < maxNesting := by
  rcases Term.readArguments_eq_ok_iff.mp h with ⟨rfl, -⟩ | hlist
  · exact fun t ht => absurd ht List.not_mem_nil
  · intro t ht n hn
    have hle := ((Term.fitsAt_of_listOfText? hlist).2 t ht).pathLengths_le n hn
    cases arguments with
    | none => exact absurd hlist (Option.some_ne_none args).symm
    | some text =>
      have hlt := hdeep text rfl
      have hadd := deepest_add (harguments text rfl) (depth + 1)
      rw [Nat.zero_add] at hadd
      rw [Option.getD_some] at hle
      split at hadd
      · omega
      · omega

/-- An atom that is read at some depth has no way to a part of its arguments that passes more nodes
than there are levels left. -/
lemma pathsBelow_of_readAtom {depth : ℕ} {s : Span} {a : WrittenAtom} (h : readAtom depth s = .ok a)
    (hdepth : depth < maxNesting) : (Statement.atom a).PathsBelow (maxNesting - depth) := by
  intro f hf
  obtain ⟨args, hargs, rfl⟩ := ofAtom_eq_ok_iff.mp hf
  obtain ⟨hbinder, s', harguments⟩ := exists_readArgumentText_of_readAtom h
  have hterms := pathLengths_of_readArguments
    (fun text htext => ((isReadable_of_readAtom h).arguments text htext).1)
    (fun text htext => deepest_lt_of_readArgumentText (harguments.trans (congrArg _ htext)))
    hdepth hargs
  have hpaths :
      (bindAll a.binder.toList (.atom { predicate := a.name, args, positive := !a.negated }) :
      Formula).pathLengths = 0 :: args.flatMap Term.pathLengths := by
    rw [hbinder]
    rfl
  rw [hpaths, List.forall_mem_cons]
  refine ⟨Nat.sub_pos_of_lt hdepth, fun n hn => ?_⟩
  obtain ⟨t, ht, hn⟩ := List.mem_flatMap.mp hn
  have hlt := hterms t ht n hn
  omega

/-- A statement that is read at some depth says a formula in which no way from the root passes more
nodes than there are levels left. -/
lemma pathsBelow_of_readSpan {s : Span} {depth : ℕ} (h : readSpan s depth = .ok st) :
    st.PathsBelow (maxNesting - depth) := by
  -- each part is read deeper, so the induction is on the levels that are left
  induction hn : maxNesting - depth using Nat.strongRecOn generalizing s depth st with
  | ind n ih =>
  subst hn
  obtain ⟨hdepth, hcases⟩ := readSpan_cases h
  have hone : maxNesting - (depth + 1) + 1 = maxNesting - depth := by omega
  cases hcases with
  | joined hsplit hleft hright hl hr =>
    have hjoin := (ih _ (by omega) hl rfl).join (ih _ (by omega) hr rfl) ‹Connective›
    rwa [hone] at hjoin
  | negated hsplit hchars hbody =>
    have hnegate := (ih _ (by omega) hbody rfl).negate
    rwa [hone] at hnegate
  | @quantified c rest q v after body more inner hsplit hchars hc hq hv hmore hinner =>
    have hinner_depth := (readSpan_cases hinner).1
    have hbind := (ih _ (by omega) hinner rfl).bind ⟨q, v⟩ more body.trim.enclosed?.isSome
    exact hbind.mono (by omega)
  | enclosed hsplit hchars hc hq hinside hst => exact (ih _ (by omega) hst rfl).mono (by omega)
  | atom hsplit hchars hc hq hopen ha => exact pathsBelow_of_readAtom ha hdepth

/-- In the formula that a text says, no way from the root to an atom, or on to a part of its
arguments, passes more than 255 negations, connectives, quantifiers and applications. -/
theorem pathLengths_le_of_parse {text : String} {f : Formula} (hparse : parse text = .ok (some st))
    (hlower : ofStatement st = .ok f) : ∀ n ∈ f.pathLengths, n ≤ 255 := by
  intro n hn
  exact Nat.le_of_lt_succ (pathsBelow_of_readSpan (readSpan_of_parse hparse) f hlower n hn)

/-- The text of 255 binders before `P` is read, and in its formula the way to `P` passes 255
quantifiers. -/
theorem pathLengths_le_runOverP :
    parse (leadText false (List.replicate 255 ⟨.universal, "x"⟩) ++ "P") =
      .ok (some (runOverP 255)) ∧
      ∃ f, ofStatement (runOverP 255) = .ok f ∧ 255 ∈ f.pathLengths ∧
        ∀ n ∈ f.pathLengths, n ≤ 255 := by
  have hparse := parse_runOverP (n := 253) (by decide)
  have hatom : ofStatement (.atom ⟨none, false, "P", none⟩) = .ok (.atom ⟨"P", [], true⟩) := rfl
  have hlower : ofStatement (runOverP 255) =
      .ok (Formula.withLead false (List.replicate 255 ⟨.universal, "x"⟩) (.atom ⟨"P", [], true⟩)) :=
    ofStatement_scoped_eq_ok_iff.mpr ⟨rfl, _, hatom, rfl⟩
  refine ⟨hparse, _, hlower, ?_, pathLengths_le_of_parse hparse hlower⟩
  rw [pathLengths_withLead, List.length_replicate]
  exact List.mem_map_of_mem List.mem_cons_self

end Statement

end Clausal
