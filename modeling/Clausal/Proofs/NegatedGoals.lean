import Clausal.Proofs.MalformedGoals
import Clausal.Proofs.PrenexForm

/-!
# The negation of a goal

A goal that can be read is negated as a text and as a statement, and the two agree: the text of its
negation is read as the negation of the statement, unless the two levels more are too many.

A statement carries its negation in one of three ways.  A node has a flag in front of its binders.
A predicate has a sign, and if a quantifier belongs to it, which stands outside the sign, then this
changes to its dual as well.  All of them mean that the formula is true exactly where the one before
is false.
-/

namespace Clausal

universe u

variable {D : Type u}

/-! ## The negation of a statement -/

namespace Formula

variable {M : Structure D}

/-- Changing the flag of a node negates it. -/
lemma holds_withLead_not (negated : Bool) (binders : List Binder) (f : Formula) (ε : String → D) :
    (withLead (!negated) binders f).Holds M ε ↔ ¬ (withLead negated binders f).Holds M ε := by
  cases negated with
  | false => exact Iff.rfl
  | true => exact not_not.symm

/-- Under the dual binders the negation of a formula is the negation of the whole. -/
lemma holds_bindAll_dual {f g : Formula} (h : ∀ ε, g.Holds M ε ↔ ¬ f.Holds M ε) (bs : List Binder)
    (ε : String → D) : (bindAll (bs.map Binder.dual) g).Holds M ε ↔ ¬ (bindAll bs f).Holds M ε := by
  induction bs generalizing ε with
  | nil => exact h ε
  | cons b bs ih =>
    rw [List.map_cons, bindAll_cons, bindAll_cons]
    calc b.quantifier.dual.Says
          (fun d => (bindAll (bs.map Binder.dual) g).Holds M (update ε b.var d))
      _ ↔ b.quantifier.dual.Says (fun d => ¬ (bindAll bs f).Holds M (update ε b.var d)) :=
        b.quantifier.dual.says_congr fun d => ih (update ε b.var d)
      _ ↔ ¬ b.quantifier.Says (fun d => (bindAll bs f).Holds M (update ε b.var d)) :=
        b.quantifier.says_dual_not _

/-- A predicate with the other sign, and the dual of a quantifier that belongs to it, is lowered to
the negation. -/
lemma exists_ofAtom_negate {a : WrittenAtom} {f : Formula} (h : ofAtom a = .ok f) :
    ∃ g, ofAtom { a with negated := !a.negated, binder := a.binder.map Binder.dual } = .ok g ∧
      ∀ {D : Type u} (M : Structure D) (ε : String → D), g.Holds M ε ↔ ¬ f.Holds M ε := by
  unfold ofAtom at h ⊢
  cases hargs : Term.readArguments a.name (a.arguments.getD "") with
  | error e =>
    rw [hargs] at h
    cases h
  | ok args =>
    rw [hargs] at h
    obtain rfl := Except.ok.inj h
    have hbinder : (a.binder.map Binder.dual).toList = a.binder.toList.map Binder.dual := by
      cases a.binder <;> rfl
    refine ⟨_, rfl, fun M ε => ?_⟩
    simp only [hbinder]
    refine holds_bindAll_dual (fun δ => ?_) a.binder.toList ε
    exact Literal.holds_complement M δ { predicate := a.name, args, positive := !a.negated }

/-- The negation of a statement that is lowered is lowered to the negation. -/
lemma exists_ofStatement_negate {st : Statement} {f : Formula} (h : ofStatement st = .ok f) :
    ∃ g, ofStatement st.negate = .ok g ∧
      ∀ {D : Type u} (M : Structure D) (ε : String → D), g.Holds M ε ↔ ¬ f.Holds M ε := by
  rcases st with a | ⟨negated, binders, connective, operand⟩ |
    ⟨negated, binders, connective, left, right⟩
  · exact exists_ofAtom_negate h
  · rw [ofStatement] at h
    obtain ⟨g, hg, h⟩ := bind_eq_ok h
    cases connective with
    | some c => cases h
    | none =>
      cases h
      refine ⟨withLead (!negated) binders g, ?_, fun M ε => holds_withLead_not negated binders g ε⟩
      rw [Statement.negate, ofStatement, hg]
      rfl
  · rw [ofStatement] at h
    obtain ⟨g, hg, h⟩ := bind_eq_ok h
    cases connective with
    | none => cases h
    | some c =>
      obtain ⟨k, hk, h⟩ := bind_eq_ok h
      cases h
      refine ⟨withLead (!negated) binders (join c g k), ?_,
        fun M ε => holds_withLead_not negated binders _ ε⟩
      rw [Statement.negate, ofStatement, hg, ok_bind]
      simp only [hk]
      rfl

end Formula

/-! ## The negation of a text -/

namespace Statement

variable {goal : String} {st : Statement}

/-- The negation of a goal that is read as a statement is read as the negation of the statement,
unless it is too deep. -/
lemma parse_negatedGoalText_of_parse (h : parse goal = .ok (some st)) :
    parse (negatedGoalText goal) = .ok (some st.negate) ∨
      ∃ position, parse (negatedGoalText goal) = .error ⟨.tooDeep, position⟩ := by
  rw [parse_negatedGoalText_of_balanced (balanced_of_parse h)]
  have hsinks : Sinks (· = ·) (readSpan ⟨0, goal.toList⟩ 0) (readSpan ⟨2, goal.toList⟩ 2) :=
    sinks_readSpan (Nat.zero_le 2) rfl
  rw [readSpan_of_parse h] at hsinks
  generalize readSpan ⟨2, goal.toList⟩ 2 = result at hsinks ⊢
  cases hsinks with
  | ok heq => exact Or.inl (by rw [← heq]; rfl)
  | tooDeep _ position => exact Or.inr ⟨position, rfl⟩

/-- To negate a goal as a text is to negate it.  The text of the negation is read as the negation of
the statement or is too deep, and where the statement is lowered to a formula, its negation is
lowered to one that is true exactly where this is false. -/
theorem parse_negatedGoalText_and_holds_iff (h : parse goal = .ok (some st)) :
    (parse (negatedGoalText goal) = .ok (some st.negate) ∨
      ∃ position, parse (negatedGoalText goal) = .error ⟨.tooDeep, position⟩) ∧
      ∀ f, Formula.ofStatement st = .ok f →
        ∃ g, Formula.ofStatement st.negate = .ok g ∧
          ∀ {D : Type u} (M : Structure D) (ε : String → D), g.Holds M ε ↔ ¬ f.Holds M ε :=
  ⟨parse_negatedGoalText_of_parse h, fun _ hlower => Formula.exists_ofStatement_negate hlower⟩

lemma parse_negatedGoalText_allp :
    parse (negatedGoalText "∀x p(x)") = .ok (some allp.negate) := by
  have hatom : readSpan ⟨5, "p(x)".toList⟩ 3 = .ok (.atom ⟨none, false, "p", some "x"⟩) := by
    rw [readSpan]
    rfl
  have hquantified : readSpan ⟨2, "∀x p(x)".toList⟩ 2 =
      (readSpan ⟨5, "p(x)".toList⟩ 3).map (bind ⟨.universal, "x"⟩ [] false) := by
    rw [readSpan]
    rfl
  rw [parse_negatedGoalText_of_balanced (balanced_of_parse parse_allp), hquantified, hatom]
  rfl

/-- The text `¬(∀x p(x))` is read as `∃x ¬p(x)`, which is true exactly where `∀x p(x)` is false. -/
theorem parse_negatedGoalText_allp_and_holds_iff :
    parse "∀x p(x)" = .ok (some allp) ∧ parse (negatedGoalText "∀x p(x)") = .ok (some allp.negate) ∧
      ∃ f g, Formula.ofStatement allp = .ok f ∧ Formula.ofStatement allp.negate = .ok g ∧
        ∀ (M : Structure Bool) (ε : String → Bool), g.Holds M ε ↔ ¬ f.Holds M ε := by
  have hlower : Formula.ofStatement allp = .ok (.quantified .universal "x"
      (.atom { predicate := "p", args := [.var "x"], positive := true })) := rfl
  obtain ⟨g, hg, hiff⟩ := (parse_negatedGoalText_and_holds_iff.{0} parse_allp).2 _ hlower
  exact ⟨parse_allp, parse_negatedGoalText_allp, _, g, hlower, hg, hiff⟩

end Statement

end Clausal
