import Mathlib.Data.List.Nodup
import Clausal.Proofs.VariableCapture

/-!
# Prenex form

Pulling the quantifiers of a formula in negation normal form to the front keeps its truth value.  A
binder may be moved past the other operand of a conjunction or disjunction because its variable is
not free there: every binder pulled gets a name that was not in use before, and the names in use
include all free variables.

Renaming a bound variable does not avoid capture, so for the truth value a condition on the formula
is needed.  Either its scopes are plain (`HasPlainScopes`), so that renaming captures nothing.  They
are if no bound name is another bound name followed by a number (`HasPlainBinders`), since fresh
names are made that way.  Or its bound names are all different and not in use (`HasApartBinders`),
so that nothing is renamed.  Everything that holds of one call of `pullQuantifiers` is collected in
`PulledFrom`, and `pulledFrom_pullQuantifiers` proves all of it by one induction.
-/

namespace Clausal

universe u

variable {D : Type u}

/-! ## Names with numbers -/

/-- Numbers with the same text are equal. -/
lemma toString_nat_injective : Function.Injective (toString : ℕ → String) := by
  intro m n h
  have hdigits : Nat.toDigits 10 m = Nat.toDigits 10 n := by
    have hlist := congrArg String.toList h
    rwa [Nat.toString_eq_repr, Nat.toString_eq_repr, Nat.toList_repr, Nat.toList_repr] at hlist
  rw [← Nat.ofDigitChars_ten_toDigits (n := m), hdigits, Nat.ofDigitChars_ten_toDigits]

/-- Different numbers after one name give different names. -/
lemma append_toString_injective (stem : String) :
    Function.Injective fun n : ℕ => stem ++ toString n := by
  intro m n h
  exact toString_nat_injective ((String.append_right_inj stem).mp h)

namespace Formula

/-- A fresh variant is the name followed by a number. -/
lemma exists_freshVariant_eq (v : String) (taken : List String) :
    ∃ k : ℕ, freshVariant v taken = v ++ toString (k + 1) :=
  ⟨_, rfl⟩

/-- A fresh variant is not in use. -/
lemma freshVariant_notMem (v : String) (taken : List String) : freshVariant v taken ∉ taken := by
  refine freshName_not_mem (fun i j h => ?_) taken
  exact Nat.add_right_cancel (append_toString_injective v h)

/-! ## Binders in front of a formula -/

@[simp] lemma bindAll_nil (f : Formula) : bindAll [] f = f := rfl

@[simp] lemma bindAll_cons (b : Binder) (bs : List Binder) (f : Formula) :
    bindAll (b :: bs) f = .quantified b.quantifier b.var (bindAll bs f) := rfl

lemma bindAll_append (bs cs : List Binder) (f : Formula) :
    bindAll (bs ++ cs) f = bindAll bs (bindAll cs f) := by
  unfold bindAll
  rw [List.foldr_append]

/-- Binders take their variables out of the free ones. -/
lemma mem_freeVars_bindAll {bs : List Binder} {f : Formula} {v : String} :
    v ∈ (bindAll bs f).freeVars ↔ v ∈ f.freeVars ∧ v ∉ bs.map Binder.var := by
  induction bs with
  | nil => simp
  | cons b bs ih =>
    rw [bindAll_cons, freeVars, List.mem_filter, ih, decide_eq_true_eq, List.map_cons,
      List.mem_cons, not_or]
    constructor
    · rintro ⟨⟨hf, hbs⟩, hb⟩
      exact ⟨hf, hb, hbs⟩
    · rintro ⟨hf, hb, hbs⟩
      exact ⟨⟨hf, hbs⟩, hb⟩

/-- Binders bind their own variables besides those bound in the formula. -/
lemma boundVars_bindAll (bs : List Binder) (f : Formula) :
    (bindAll bs f).boundVars = bs.map Binder.var ++ f.boundVars := by
  induction bs with
  | nil => rfl
  | cons b bs ih => rw [bindAll_cons, boundVars, ih, List.map_cons, List.cons_append]

lemma symbols_bindAll (bs : List Binder) (f : Formula) : (bindAll bs f).symbols = f.symbols := by
  induction bs with
  | nil => rfl
  | cons b bs ih => exact ih

/-- A variable that no binder binds is replaced in the matrix. -/
lemma replace_bindAll {bs : List Binder} {v : String} (h : v ∉ bs.map Binder.var) (f : Formula)
    (r : Term) : (bindAll bs f).replace v r = bindAll bs (f.replace v r) := by
  induction bs with
  | nil => rfl
  | cons b bs ih =>
    rw [List.map_cons, List.mem_cons, not_or] at h
    rw [bindAll_cons, replace, if_neg (Ne.symm h.1), ih h.2, bindAll_cons]

/-- Matrices that are true under the same assignments can be exchanged. -/
lemma holds_bindAll_congr {M : Structure D} {f g : Formula}
    (h : ∀ ε, f.Holds M ε ↔ g.Holds M ε) (bs : List Binder) (ε : String → D) :
    (bindAll bs f).Holds M ε ↔ (bindAll bs g).Holds M ε := by
  induction bs generalizing ε with
  | nil => exact h ε
  | cons b bs ih => exact b.quantifier.says_congr (fun d => ih (update ε b.var d))

/-! ## Moving binders past an operand -/

/-- A way of joining two formulas past which quantifiers can be moved: it says `rel` of the two
truth values, in either order, and `rel` commutes with quantifiers. -/
structure IsPullable (M : Structure D) (op : Formula → Formula → Formula)
    (rel : Prop → Prop → Prop) : Prop where
  holds : ∀ f g ε, (op f g).Holds M ε ↔ rel (f.Holds M ε) (g.Holds M ε)
  comm : ∀ a b, rel a b ↔ rel b a
  quantified : ∀ (q : Quantifier) (p : D → Prop) (a : Prop),
    q.Says (fun d => rel (p d) a) ↔ rel (q.Says p) a

/-- Quantifiers can be moved past the other operand of a conjunction. -/
lemma isPullable_and [Nonempty D] (M : Structure D) : IsPullable M .and And where
  holds _ _ _ := Iff.rfl
  comm _ _ := and_comm
  quantified q p a := by
    cases q with
    | universal => exact forall_and_right p a
    | existential => exact exists_and_right

/-- Quantifiers can be moved past the other operand of a disjunction. -/
lemma isPullable_or [Nonempty D] (M : Structure D) : IsPullable M .or Or where
  holds _ _ _ := Iff.rfl
  comm _ _ := or_comm
  quantified q p a := by
    cases q with
    | universal => exact forall_or_right
    | existential => exact exists_or.trans (or_congr_right (exists_const D))

namespace IsPullable

variable {M : Structure D} {op : Formula → Formula → Formula} {rel : Prop → Prop → Prop}

/-- Exchanging the operands keeps that quantifiers can be moved. -/
lemma swap (h : IsPullable M op rel) : IsPullable M (fun f g => op g f) rel where
  holds f g ε := (h.holds g f ε).trans (h.comm _ _)
  comm := h.comm
  quantified := h.quantified

/-- Binders over the first operand can stand over the whole if the second is free of their
variables. -/
lemma holds_bindAll_left (h : IsPullable M op rel) {bs : List Binder} {g : Formula}
    (hfresh : ∀ b ∈ bs, b.var ∉ g.freeVars) (f : Formula) (ε : String → D) :
    (bindAll bs (op f g)).Holds M ε ↔ rel ((bindAll bs f).Holds M ε) (g.Holds M ε) := by
  induction bs generalizing ε with
  | nil => exact h.holds f g ε
  | cons b bs ih =>
    have hb : b.var ∉ g.freeVars := hfresh b List.mem_cons_self
    have hbody : ∀ d, (bindAll bs (op f g)).Holds M (update ε b.var d) ↔
        rel ((bindAll bs f).Holds M (update ε b.var d)) (g.Holds M ε) := by
      intro d
      rw [ih (fun c hc => hfresh c (List.mem_cons_of_mem _ hc)), holds_update_of_notMem hb]
    exact (b.quantifier.says_congr hbody).trans (h.quantified _ _ _)

/-- Binders over both operands can stand over the whole, those of the first operand outside, if
neither prefix binds a free variable of the other operand. -/
lemma holds_bindAll_append (h : IsPullable M op rel) {bs cs : List Binder} {f g : Formula}
    (hbs : ∀ b ∈ bs, b.var ∉ (bindAll cs g).freeVars) (hcs : ∀ c ∈ cs, c.var ∉ f.freeVars)
    (ε : String → D) :
    (bindAll (bs ++ cs) (op f g)).Holds M ε ↔
      rel ((bindAll bs f).Holds M ε) ((bindAll cs g).Holds M ε) := by
  have hinner : ∀ δ, (bindAll cs (op f g)).Holds M δ ↔ (op f (bindAll cs g)).Holds M δ := by
    intro δ
    rw [h.holds, h.comm]
    exact h.swap.holds_bindAll_left hcs g δ
  rw [bindAll_append, holds_bindAll_congr hinner]
  exact h.holds_bindAll_left hbs f ε

end IsPullable

/-! ## Pulling quantifiers -/

/-- A formula made of literals, conjunctions and disjunctions, as the matrix of a prenex form is. -/
def IsMatrix : Formula → Prop
  | .atom _ => True
  | .and f g | .or f g => f.IsMatrix ∧ g.IsMatrix
  | .not _ | .implies _ _ | .quantified _ _ _ => False

/-- No bound name is another bound name followed by a number. -/
def HasPlainBinders (f : Formula) : Prop :=
  ∀ v ∈ f.boundVars, ∀ k : ℕ, v ++ toString (k + 1) ∉ f.boundVars

/-- A formula that binds fewer names has plain binders too. -/
lemma HasPlainBinders.mono {f g : Formula} (h : g.HasPlainBinders)
    (hsub : f.boundVars ⊆ g.boundVars) : f.HasPlainBinders :=
  fun v hv k hk => h v (hsub hv) k (hsub hk)

/-- Nothing is captured where no bound name is another one followed by a number. -/
lemma HasPlainBinders.hasPlainScopes {f : Formula} (h : f.HasPlainBinders) : f.HasPlainScopes := by
  induction f with
  | atom l => trivial
  | not f ih => exact ih h
  | and f g ihf ihg | or f g ihf ihg | implies f g ihf ihg =>
    exact ⟨ihf (h.mono (List.subset_append_left _ _)), ihg (h.mono (List.subset_append_right _ _))⟩
  | quantified q v f ih =>
    refine ⟨fun k hk => ?_, ih (h.mono (List.subset_cons_self _ _))⟩
    exact h v List.mem_cons_self k (List.mem_cons_of_mem _ hk.mem_boundVars)

/-- The bound names are all different, and none of them is in use. -/
def HasApartBinders (f : Formula) (taken : List String) : Prop :=
  f.boundVars.Nodup ∧ ∀ v ∈ f.boundVars, v ∉ taken

/-- Renaming the variable of a binder, without capture, to a name that is not free in its body keeps
what the binder says. -/
lemma holds_replace_var_update {M : Structure D} {f : Formula} {v w : String} (hwv : w ≠ v)
    (hfree : w ∉ f.freeVars) (hcapture : ¬ f.Captures v w) (ε : String → D) (d : D) :
    (f.replace v (.var w)).Holds M (update ε w d) ↔ f.Holds M (update ε v d) := by
  rw [holds_replace_var hcapture, update_self, update_comm hwv, holds_update_of_notMem hfree]

/-- What a call of `pullQuantifiers` on `f`, with the names `taken` in use, promises of the prenex
form `p` and the names `taken'` that it returns. -/
structure PulledFrom (f : Formula) (taken : List String) (p : Prenex) (taken' : List String) :
    Prop where
  isMatrix : p.matrix.IsMatrix
  taken_subset : taken ⊆ taken'
  subset_boundVars : f.HasApartBinders taken → taken' ⊆ f.boundVars ++ taken
  binders_subset : p.binders.map Binder.var ⊆ taken'
  binders_fresh : ∀ b ∈ p.binders, b.var ∉ taken
  binders_nodup : (p.binders.map Binder.var).Nodup
  binders_length : p.binders.length = f.boundVars.length
  freeVars_subset : p.formula.freeVars ⊆ f.freeVars
  symbols_subset : p.matrix.symbols ⊆ f.symbols
  holds_iff : f.HasPlainScopes ∨ f.HasApartBinders taken →
    ∀ {D : Type u} (M : Structure D) (ε : String → D), p.formula.Holds M ε ↔ f.Holds M ε

namespace PulledFrom

variable {f g : Formula} {taken taken₁ taken₂ : List String} {p r : Prenex}

/-- The variables of the matrix are free in the formula or bound in front of it. -/
lemma freeVars_matrix_subset (h : PulledFrom.{u} f taken p taken₁) :
    p.matrix.freeVars ⊆ f.freeVars ++ p.binders.map Binder.var := by
  intro v hv
  rw [List.mem_append]
  by_cases hb : v ∈ p.binders.map Binder.var
  · exact Or.inr hb
  · exact Or.inl (h.freeVars_subset (mem_freeVars_bindAll.mpr ⟨hv, hb⟩))

/-- A literal is its own prenex form. -/
lemma atom (l : Literal) (taken : List String) :
    PulledFrom.{u} (.atom l) taken { binders := [], matrix := .atom l } taken where
  isMatrix := trivial
  taken_subset := List.Subset.refl taken
  subset_boundVars _ := List.Subset.refl taken
  binders_subset := List.nil_subset taken
  binders_fresh _ hb := absurd hb List.not_mem_nil
  binders_nodup := List.nodup_nil
  binders_length := rfl
  freeVars_subset := List.Subset.refl _
  symbols_subset := List.Subset.refl _
  holds_iff _ _ _ _ := Iff.rfl

/-- Two prenex forms, the second pulled after the first, are joined by conjunction or
disjunction. -/
lemma join {op : Formula → Formula → Formula} (hop : op = .and ∨ op = .or)
    (hf : PulledFrom.{u} f taken p taken₁) (hg : PulledFrom.{u} g taken₁ r taken₂)
    (hfree : (op f g).freeVars ⊆ taken) :
    PulledFrom.{u} (op f g) taken
      { binders := p.binders ++ r.binders, matrix := op p.matrix r.matrix } taken₂ := by
  have hfreeVars : ∀ a b : Formula, (op a b).freeVars = a.freeVars ++ b.freeVars := by
    rcases hop with rfl | rfl <;> exact fun _ _ => rfl
  have hboundVars : ∀ a b : Formula, (op a b).boundVars = a.boundVars ++ b.boundVars := by
    rcases hop with rfl | rfl <;> exact fun _ _ => rfl
  have hsymbols : ∀ a b : Formula, (op a b).symbols = a.symbols ++ b.symbols := by
    rcases hop with rfl | rfl <;> exact fun _ _ => rfl
  have hmatrix : ∀ a b : Formula, a.IsMatrix → b.IsMatrix → (op a b).IsMatrix := by
    rcases hop with rfl | rfl <;> exact fun _ _ ha hb => ⟨ha, hb⟩
  have hscopes : (op f g).HasPlainScopes → f.HasPlainScopes ∧ g.HasPlainScopes := by
    rcases hop with rfl | rfl <;> exact id
  -- names that are not renamed in the first formula are the only ones in use besides the old ones
  have hapart : (op f g).HasApartBinders taken →
      f.HasApartBinders taken ∧ g.HasApartBinders taken₁ := by
    intro ⟨hnodup, hnot⟩
    rw [hboundVars] at hnodup hnot
    obtain ⟨hnodupf, hnodupg, hdisjoint⟩ := List.nodup_append.mp hnodup
    have hapartf : f.HasApartBinders taken :=
      ⟨hnodupf, fun v hv => hnot v (List.mem_append_left _ hv)⟩
    refine ⟨hapartf, hnodupg, fun v hv hmem => ?_⟩
    rcases List.mem_append.mp (hf.subset_boundVars hapartf hmem) with h | h
    · exact hdisjoint v h v hv rfl
    · exact hnot v (List.mem_append_right _ hv) h
  rw [hfreeVars, List.append_subset] at hfree
  -- the first prefix avoids what is free in the second formula, as that was in use before
  have hleft : ∀ b ∈ p.binders, b.var ∉ r.formula.freeVars := fun b hb hmem =>
    hf.binders_fresh b hb (hfree.2 (hg.freeVars_subset hmem))
  -- the second prefix avoids all variables of the first matrix, which are in use by then
  have hright : ∀ c ∈ r.binders, c.var ∉ p.matrix.freeVars := by
    intro c hc hmem
    refine hg.binders_fresh c hc ?_
    rcases List.mem_append.mp (hf.freeVars_matrix_subset hmem) with h | h
    · exact hf.taken_subset (hfree.1 h)
    · exact hf.binders_subset h
  refine ⟨hmatrix _ _ hf.isMatrix hg.isMatrix,
    List.Subset.trans hf.taken_subset hg.taken_subset, fun h v hv => ?_, ?_, ?_, ?_, ?_, ?_, ?_, ?_⟩
  · rw [hboundVars, List.mem_append, List.mem_append]
    rcases List.mem_append.mp (hg.subset_boundVars (hapart h).2 hv) with hv | hv
    · exact Or.inl (Or.inr hv)
    · exact (List.mem_append.mp (hf.subset_boundVars (hapart h).1 hv)).imp_left Or.inl
  · rw [List.map_append, List.append_subset]
    exact ⟨List.Subset.trans hf.binders_subset hg.taken_subset, hg.binders_subset⟩
  · intro b hb
    rcases List.mem_append.mp hb with hb | hb
    · exact hf.binders_fresh b hb
    · exact fun hmem => hg.binders_fresh b hb (hf.taken_subset hmem)
  · rw [List.map_append, List.nodup_append]
    refine ⟨hf.binders_nodup, hg.binders_nodup, fun v hv w hw hvw => ?_⟩
    obtain ⟨c, hc, rfl⟩ := List.mem_map.mp hw
    exact hg.binders_fresh c hc (hvw ▸ hf.binders_subset hv)
  · rw [hboundVars, List.length_append, List.length_append, hf.binders_length, hg.binders_length]
  · intro v hv
    obtain ⟨hv, hnot⟩ := mem_freeVars_bindAll.mp hv
    rw [List.map_append, List.mem_append, not_or] at hnot
    rw [hfreeVars, List.mem_append] at hv ⊢
    rcases hv with hv | hv
    · exact Or.inl (hf.freeVars_subset (mem_freeVars_bindAll.mpr ⟨hv, hnot.1⟩))
    · exact Or.inr (hg.freeVars_subset (mem_freeVars_bindAll.mpr ⟨hv, hnot.2⟩))
  · intro s hs
    rw [hsymbols, List.mem_append] at hs ⊢
    exact hs.imp (fun h => hf.symbols_subset h) (fun h => hg.symbols_subset h)
  · intro hkept D M ε
    have : Nonempty D := ⟨ε ""⟩
    have hfε := hf.holds_iff (hkept.imp (fun h => (hscopes h).1) (fun h => (hapart h).1)) M ε
    have hgε := hg.holds_iff (hkept.imp (fun h => (hscopes h).2) (fun h => (hapart h).2)) M ε
    rcases hop with rfl | rfl
    · refine ((isPullable_and M).holds_bindAll_append hleft hright ε).trans ?_
      exact and_congr hfε hgε
    · refine ((isPullable_or M).holds_bindAll_append hleft hright ε).trans ?_
      exact or_congr hfε hgε

/-- The prenex form of the body of a quantifier, read with `w` for the bound variable `v`, gets the
quantifier in front. -/
lemma quantified {q : Quantifier} {v w : String} {body : Formula}
    (hbody : PulledFrom.{u} body (w :: taken) p taken₁) (hw : w ∉ taken)
    (hfree : ∀ x ∈ body.freeVars, x ≠ w → x ∈ f.freeVars ∧ x ≠ v)
    (hbound : body.boundVars = f.boundVars) (hsymbols : body.symbols ⊆ f.symbols)
    (hname : v ∉ taken → w = v)
    (hscopes : (Formula.quantified q v f).HasPlainScopes → body.HasPlainScopes)
    (hholds : (Formula.quantified q v f).HasPlainScopes ∨ v ∉ taken →
      ∀ {D : Type u} (M : Structure D) (ε : String → D) (d : D),
        body.Holds M (update ε w d) ↔ f.Holds M (update ε v d)) :
    PulledFrom.{u} (.quantified q v f) taken
      { p with binders := { quantifier := q, var := w } :: p.binders } taken₁ := by
  -- where the names are apart, the variable keeps its name
  have hapart : (Formula.quantified q v f).HasApartBinders taken →
      w = v ∧ body.HasApartBinders (w :: taken) := by
    intro ⟨hnodup, hnot⟩
    rw [boundVars, List.nodup_cons] at hnodup
    rw [boundVars, List.forall_mem_cons] at hnot
    have hwv := hname hnot.1
    rw [HasApartBinders, hbound, hwv]
    refine ⟨rfl, hnodup.2, fun x hx hmem => ?_⟩
    rcases List.mem_cons.mp hmem with rfl | hmem
    · exact hnodup.1 hx
    · exact hnot.2 x hx hmem
  refine ⟨hbody.isMatrix, fun x hx => hbody.taken_subset (List.mem_cons_of_mem _ hx),
    fun h x hx => ?_, ?_, ?_, ?_, ?_, fun x hx => ?_,
    List.Subset.trans hbody.symbols_subset hsymbols, fun hkept D M ε => q.says_congr fun d => ?_⟩
  · obtain ⟨rfl, hbodyApart⟩ := hapart h
    have hmem := hbody.subset_boundVars hbodyApart hx
    rw [hbound, List.mem_append, List.mem_cons] at hmem
    rw [boundVars, List.cons_append, List.mem_cons, List.mem_append]
    exact or_left_comm.mp hmem
  · rw [List.map_cons, List.cons_subset]
    exact ⟨hbody.taken_subset List.mem_cons_self, hbody.binders_subset⟩
  · intro b hb
    rcases List.mem_cons.mp hb with rfl | hb
    · exact hw
    · exact fun hmem => hbody.binders_fresh b hb (List.mem_cons_of_mem _ hmem)
  · rw [List.map_cons, List.nodup_cons]
    refine ⟨fun hmem => ?_, hbody.binders_nodup⟩
    obtain ⟨b, hb, hbw⟩ := List.mem_map.mp hmem
    exact hbody.binders_fresh b hb (hbw ▸ List.mem_cons_self)
  · rw [List.length_cons, hbody.binders_length, hbound, boundVars, List.length_cons]
  · obtain ⟨hx, hxw⟩ := List.mem_filter.mp hx
    have hne := hfree x (hbody.freeVars_subset hx) (of_decide_eq_true hxw)
    exact List.mem_filter.mpr ⟨hne.1, decide_eq_true hne.2⟩
  · have hbodyKept := hkept.imp hscopes fun h => (hapart h).2
    have hname' := hkept.imp_right fun h => h.2 v List.mem_cons_self
    exact (hbody.holds_iff hbodyKept M _).trans (hholds hname' M ε d)

/-- The variables of a body in which a bound variable is renamed are the new name and those that the
quantifier leaves free. -/
lemma freeVars_replace_var {v w x : String} (hx : x ∈ (f.replace v (.var w)).freeVars)
    (hxw : x ≠ w) : x ∈ f.freeVars ∧ x ≠ v := by
  rcases mem_freeVars_replace hx with h | h
  · exact h
  · exact absurd (List.mem_singleton.mp h) hxw

/-- The prenex form of the body of a quantifier whose variable has a name in use, read with a fresh
name, gets the quantifier with the fresh name in front. -/
lemma quantified_fresh {q : Quantifier} {v : String}
    (hbody : PulledFrom.{u} (f.replace v (.var (freshVariant v taken)))
      (freshVariant v taken :: taken) p taken₁) (hv : v ∈ taken)
    (hfree : (Formula.quantified q v f).freeVars ⊆ taken) :
    PulledFrom.{u} (.quantified q v f) taken
      { p with binders := { quantifier := q, var := freshVariant v taken } :: p.binders }
      taken₁ := by
  set w := freshVariant v taken with hw_def
  have hw : w ∉ taken := freshVariant_notMem v taken
  have hwv : w ≠ v := fun h => hw (h ▸ hv)
  have hwfree : w ∉ f.freeVars := fun hmem =>
    hw (hfree (List.mem_filter.mpr ⟨hmem, decide_eq_true hwv⟩))
  -- the fresh name is the old one with a number, which captures nothing in a plain scope
  have hcapture : (Formula.quantified q v f).HasPlainScopes → ¬ f.Captures v w := by
    intro hplain
    obtain ⟨k, hk⟩ := exists_freshVariant_eq v taken
    rw [hw_def, hk]
    exact hplain.1 k
  refine hbody.quantified hw (fun x hx hxw => freeVars_replace_var hx hxw)
    (boundVars_replace f v _) (fun s hs => ?_) (fun hnot => absurd hv hnot)
    (fun hplain => hplain.2.replace_var (hcapture hplain)) (fun hkept D M ε d => ?_)
  · rcases mem_symbols_replace hs with h | h
    · exact h
    · exact absurd h List.not_mem_nil
  · have hplain := hkept.resolve_right fun hnot => hnot hv
    exact holds_replace_var_update hwv hwfree (hcapture hplain) ε d

end PulledFrom

/-- What is free in the body of a quantifier is the bound variable or in use. -/
lemma mem_cons_of_freeVars_quantified {q : Quantifier} {v x : String} {f : Formula}
    {taken : List String} (hfree : (Formula.quantified q v f).freeVars ⊆ taken)
    (hx : x ∈ f.freeVars) : x ∈ v :: taken := by
  by_cases hxv : x = v
  · exact hxv ▸ List.mem_cons_self
  · exact List.mem_cons_of_mem _ (hfree (List.mem_filter.mpr ⟨hx, decide_eq_true hxv⟩))

/-- Pulling quantifiers keeps its promises on every formula in negation normal form whose free
variables are in use. -/
theorem pulledFrom_pullQuantifiers (f : Formula) (taken : List String)
    (hnormal : f.IsNegationNormal) (hfree : f.freeVars ⊆ taken) :
    PulledFrom.{u} f taken (f.pullQuantifiers taken).1 (f.pullQuantifiers taken).2 := by
  -- the body of a quantifier may be renamed before it is pulled, so the induction is on the size
  induction hsize : f.size using Nat.strongRecOn generalizing f taken with
  | ind n ih =>
  subst hsize
  cases f with
  | atom l =>
    simp only [pullQuantifiers]
    exact PulledFrom.atom l taken
  | not f => exact hnormal.elim
  | implies f g => exact hnormal.elim
  | and f g =>
    rw [pullQuantifiers]
    have hf := ih f.size (by simp only [size]; omega) f taken hnormal.1
      (List.append_subset.mp hfree).1 rfl
    have hg := ih g.size (by simp only [size]; omega) g (f.pullQuantifiers taken).2 hnormal.2
      (List.Subset.trans (List.append_subset.mp hfree).2 hf.taken_subset) rfl
    exact PulledFrom.join (Or.inl rfl) hf hg hfree
  | or f g =>
    rw [pullQuantifiers]
    have hf := ih f.size (by simp only [size]; omega) f taken hnormal.1
      (List.append_subset.mp hfree).1 rfl
    have hg := ih g.size (by simp only [size]; omega) g (f.pullQuantifiers taken).2 hnormal.2
      (List.Subset.trans (List.append_subset.mp hfree).2 hf.taken_subset) rfl
    exact PulledFrom.join (Or.inr rfl) hf hg hfree
  | quantified q v f =>
    rw [pullQuantifiers]
    have hnormal : f.IsNegationNormal := hnormal
    by_cases hv : v ∈ taken
    · -- the name is in use: the body is read with a fresh name
      simp only [if_pos hv]
      refine PulledFrom.quantified_fresh (ih _ ?_ _ _ (hnormal.replace v _) ?_ rfl) hv hfree
      · simp only [size, size_replace]
        omega
      · intro x hx
        by_cases hxw : x = freshVariant v taken
        · exact hxw ▸ List.mem_cons_self
        · obtain ⟨hxf, hxv⟩ := PulledFrom.freeVars_replace_var hx hxw
          have hmem := mem_cons_of_freeVars_quantified hfree hxf
          exact List.mem_cons_of_mem _ ((List.mem_cons.mp hmem).resolve_left hxv)
    · -- the name is not in use: the body stays as it is
      simp only [if_neg hv]
      have hbody := ih f.size (by simp only [size]; omega) f (v :: taken) hnormal
        (fun x hx => mem_cons_of_freeVars_quantified hfree hx) rfl
      exact hbody.quantified hv (fun x hx hxv => ⟨hx, hxv⟩) rfl (List.Subset.refl _) (fun _ => rfl)
        (fun hplain => hplain.2) (fun _ D M ε d => Iff.rfl)

/-- The prenex form of a formula is pulled from it. -/
theorem exists_pulledFrom_toPrenex (f : Formula) :
    ∃ taken, PulledFrom.{u} f f.freeVars f.toPrenex taken := by
  set g := f.eliminateImplications.pushNegations with hg_def
  have hfree : g.freeVars = f.freeVars := by
    rw [hg_def, pushNegations, freeVars_negationNormal, freeVars_eliminateImplications]
  have hbound : g.boundVars = f.boundVars := by
    rw [hg_def, pushNegations, boundVars_negationNormal, boundVars_eliminateImplications]
  have hsymbols : g.symbols = f.symbols := by
    rw [hg_def, pushNegations, symbols_negationNormal, symbols_eliminateImplications]
  obtain ⟨taken, hpulled⟩ : ∃ taken, PulledFrom.{u} g g.freeVars f.toPrenex taken :=
    ⟨_, pulledFrom_pullQuantifiers g g.freeVars (isNegationNormal_negationNormal _ _)
      (List.Subset.refl _)⟩
  have hapart : f.HasApartBinders f.freeVars → g.HasApartBinders g.freeVars := by
    rw [HasApartBinders, HasApartBinders, hbound, hfree]
    exact id
  refine ⟨taken,
    ⟨hpulled.isMatrix, hfree ▸ hpulled.taken_subset, fun h => ?_, hpulled.binders_subset,
    hfree ▸ hpulled.binders_fresh, hpulled.binders_nodup, hbound ▸ hpulled.binders_length,
    hfree ▸ hpulled.freeVars_subset, hsymbols ▸ hpulled.symbols_subset, fun hkept D M ε => ?_⟩⟩
  · have hsubset := hpulled.subset_boundVars (hapart h)
    rwa [hbound, hfree] at hsubset
  have hkept' : g.HasPlainScopes ∨ g.HasApartBinders g.freeVars :=
    hkept.imp (fun hplain => hplain.eliminateImplications.negationNormal false) hapart
  refine (hpulled.holds_iff hkept' M ε).trans ?_
  rw [hg_def, pushNegations, holds_negationNormal, if_neg Bool.false_ne_true,
    holds_eliminateImplications]

/-! ## Truth of the prenex form -/

/-- The prenex form of a formula has no other symbols. -/
lemma symbols_toPrenex_subset (f : Formula) : f.toPrenex.matrix.symbols ⊆ f.symbols := by
  obtain ⟨taken, hpulled⟩ := f.exists_pulledFrom_toPrenex.{0}
  exact hpulled.symbols_subset

/-- The prenex form of a formula with plain binders is true exactly when the formula is. -/
lemma holds_toPrenex {f : Formula} (hplain : f.HasPlainBinders) (M : Structure D) (ε : String → D) :
    f.toPrenex.formula.Holds M ε ↔ f.Holds M ε := by
  obtain ⟨taken, hpulled⟩ := f.exists_pulledFrom_toPrenex.{u}
  exact hpulled.holds_iff (Or.inl hplain.hasPlainScopes) M ε

/-- The prenex form of a formula has a matrix without quantifiers, under binders whose variables are
all different and not free in the formula.  It is true where the formula is if the scopes of the
formula are plain, or if its bound names are all different and not free in it. -/
theorem isMatrix_toPrenex_and_holds_iff (f : Formula) :
    f.toPrenex.matrix.IsMatrix ∧ (f.toPrenex.binders.map Binder.var).Nodup ∧
      (∀ b ∈ f.toPrenex.binders, b.var ∉ f.freeVars) ∧
      (f.HasPlainScopes ∨ f.HasApartBinders f.freeVars →
        ∀ {D : Type u} (M : Structure D) (ε : String → D),
          f.toPrenex.formula.Holds M ε ↔ f.Holds M ε) := by
  obtain ⟨taken, hpulled⟩ := f.exists_pulledFrom_toPrenex.{u}
  exact ⟨hpulled.isMatrix, hpulled.binders_nodup, hpulled.binders_fresh, hpulled.holds_iff⟩

/-- `P(x) ∧ ∀x ∃w Q(x, w)`.  The `x` in front makes the bound one get another name. -/
def besideP (w : String) : Formula :=
  .and (.atom { predicate := "P", args := [.var "x"], positive := true })
    (.quantified .universal "x" (.quantified .existential w
      (.atom { predicate := "Q", args := [.var "x", .var w], positive := true })))

lemma freshVariant_x : freshVariant "x" ["x"] = "x1" := rfl

lemma binders_toPrenex_besideP_y :
    (besideP "y").toPrenex.binders = [⟨.universal, "x1"⟩, ⟨.existential, "y"⟩] := by
  change ((besideP "y").pullQuantifiers ["x"]).1.binders = _
  simp [pullQuantifiers, besideP, replace, freshVariant_x]

lemma hasPlainScopes_besideP_y : (besideP "y").HasPlainScopes := by
  refine ⟨trivial, fun k hk => ?_, fun k hk => hk, trivial⟩
  obtain ⟨-, ⟨hname, -⟩ | hfalse⟩ := hk
  · have hhead := congrArg (fun s => s.toList.head?) hname
    simp at hhead
  · exact hfalse

/-- In `P(x) ∧ ∀x ∃y Q(x, y)` the bound `x` is renamed, and the prenex form is true where the
formula is. -/
theorem holds_toPrenex_besideP_y :
    (besideP "y").toPrenex.binders = [⟨.universal, "x1"⟩, ⟨.existential, "y"⟩] ∧
      ∀ (M : Structure Bool) (ε : String → Bool),
        (besideP "y").toPrenex.formula.Holds M ε ↔ (besideP "y").Holds M ε := by
  refine ⟨binders_toPrenex_besideP_y, ?_⟩
  exact (isMatrix_toPrenex_and_holds_iff (besideP "y")).2.2.2 (Or.inl hasPlainScopes_besideP_y)

/-- In `P(x) ∧ ∀x ∃x1 Q(x, x1)` the bound `x` gets the name `x1`, and its occurrence is captured. -/
lemma toPrenex_besideP_x1 : (besideP "x1").toPrenex =
    { binders := [⟨.universal, "x1"⟩, ⟨.existential, "x11"⟩],
      matrix := .and (.atom { predicate := "P", args := [.var "x"], positive := true })
        (.atom { predicate := "Q", args := [.var "x11", .var "x11"], positive := true }) } := by
  have hfresh : freshVariant "x1" ["x1", "x"] = "x11" := rfl
  change ((besideP "x1").pullQuantifiers ["x"]).1 = _
  simp [pullQuantifiers, besideP, replace, freshVariant_x, hfresh, Literal.replace, Literal.subst,
    Term.binding]

/-- The prenex form of `P(x) ∧ ∀x ∃x1 Q(x, x1)` may be false where the formula is true. -/
theorem not_holds_toPrenex_besideP_x1 :
    ∃ (M : Structure Bool) (ε : String → Bool),
      (besideP "x1").Holds M ε ∧ ¬ (besideP "x1").toPrenex.formula.Holds M ε := by
  -- `P` is true of all elements, and `Q` of all pairs of different ones
  refine ⟨⟨fun _ => true, fun _ _ => true, fun _ args => args.Nodup⟩, fun _ => true, ⟨?_, ?_⟩, ?_⟩
  · simp [Holds, Literal.Holds]
  · intro d
    refine ⟨!d, ?_⟩
    simp [Holds, Literal.Holds, update]
  · rw [toPrenex_besideP_x1]
    intro h
    obtain ⟨d, -, hq⟩ := h true
    simp [Holds, Literal.Holds] at hq

end Formula

/-! ## Standardizing -/

namespace Prenex

/-- The name that a variable gets when the formula with the given index is standardized. -/
def indexedName (index : ℕ) (v : String) : String :=
  v ++ "_" ++ toString index

/-- Different variables of one formula get different names. -/
lemma indexedName_injective (index : ℕ) : Function.Injective (indexedName index) := by
  intro v w h
  have h' : v ++ "_" = w ++ "_" := (String.append_left_inj (toString index)).mp h
  exact (String.append_left_inj "_").mp h'

end Prenex

namespace Formula

/-- Renaming the literals of a matrix composes the assignment with the renaming. -/
lemma IsMatrix.holds_mapLiterals_rename {M : Structure D} {f : Formula} (h : f.IsMatrix)
    (ρ : String → String) (ε : String → D) :
    (f.mapLiterals (Literal.rename ρ)).Holds M ε ↔ f.Holds M (ε ∘ ρ) := by
  induction f with
  | atom l => exact Literal.holds_subst M ε _ l
  | not f ih => exact h.elim
  | and f g ihf ihg => exact and_congr (ihf h.1) (ihg h.2)
  | or f g ihf ihg => exact or_congr (ihf h.1) (ihg h.2)
  | implies f g ihf ihg => exact h.elim
  | quantified q v f ih => exact h.elim

/-- Renaming the binders and the matrix of a prenex form by an injective renaming composes the
assignment with it. -/
lemma IsMatrix.holds_bindAll_rename {M : Structure D} {f : Formula} (h : f.IsMatrix)
    {ρ : String → String} (hρ : Function.Injective ρ) (bs : List Binder) (ε : String → D) :
    (bindAll (bs.map fun b => { b with var := ρ b.var }) (f.mapLiterals (Literal.rename ρ))).Holds
        M ε ↔ (bindAll bs f).Holds M (ε ∘ ρ) := by
  induction bs generalizing ε with
  | nil => exact h.holds_mapLiterals_rename ρ ε
  | cons b bs ih =>
    refine b.quantifier.says_congr (fun d => (ih (update ε (ρ b.var) d)).trans ?_)
    rw [update_comp_of_injective hρ]
    exact Iff.rfl

/-- Renaming keeps that a formula is a matrix. -/
lemma IsMatrix.mapLiterals {f : Formula} (h : f.IsMatrix) (k : Literal → Literal) :
    (f.mapLiterals k).IsMatrix := by
  induction f with
  | atom l => trivial
  | not f ih => exact h.elim
  | and f g ihf ihg => exact ⟨ihf h.1, ihg h.2⟩
  | or f g ihf ihg => exact ⟨ihf h.1, ihg h.2⟩
  | implies f g ihf ihg => exact h.elim
  | quantified q v f ih => exact h.elim

/-- The variables of a matrix after a replacement are those of the terms put in. -/
lemma IsMatrix.exists_of_mem_freeVars_subst {f : Formula} (h : f.IsMatrix) {σ : String → Term}
    {w : String} (hw : w ∈ (f.mapLiterals (Literal.subst σ)).freeVars) :
    ∃ v ∈ f.freeVars, w ∈ (σ v).vars := by
  induction f with
  | atom l =>
    obtain ⟨t', ht', hw⟩ := List.mem_flatMap.mp hw
    obtain ⟨t, ht, rfl⟩ := List.mem_map.mp ht'
    obtain ⟨v, hv, hwv⟩ := Term.mem_vars_subst.mp hw
    exact ⟨v, List.mem_flatMap.mpr ⟨t, ht, hv⟩, hwv⟩
  | not f ih => exact h.elim
  | and f g ihf ihg | or f g ihf ihg =>
    rcases List.mem_append.mp hw with hw | hw
    · obtain ⟨v, hv, hwv⟩ := ihf h.1 hw
      exact ⟨v, List.mem_append_left _ hv, hwv⟩
    · obtain ⟨v, hv, hwv⟩ := ihg h.2 hw
      exact ⟨v, List.mem_append_right _ hv, hwv⟩
  | implies f g ihf ihg => exact h.elim
  | quantified q v f ih => exact h.elim

/-- The variables of a renamed matrix are the new names of the old ones. -/
lemma IsMatrix.exists_of_mem_freeVars_rename {f : Formula} (h : f.IsMatrix) {ρ : String → String}
    {w : String} (hw : w ∈ (f.mapLiterals (Literal.rename ρ)).freeVars) :
    ∃ v ∈ f.freeVars, w = ρ v := by
  obtain ⟨v, hv, hwv⟩ := h.exists_of_mem_freeVars_subst hw
  exact ⟨v, hv, List.mem_singleton.mp hwv⟩

end Formula

/-- Renaming variables keeps the symbols of a term. -/
lemma Term.symbols_rename (ρ : String → String) (t : Term) : (t.rename ρ).symbols = t.symbols := by
  induction t with
  | var v => rfl
  | const c => rfl
  | app f args ih =>
    have hargs : (args.map (Term.rename ρ)).flatMap symbols = args.flatMap symbols := by
      rw [List.flatMap_map]
      exact List.flatMap_congr ih
    rw [Term.rename, subst_app, symbols_app, symbols_app]
    exact congrArg (f :: ·) hargs

/-- Renaming variables keeps the symbols of a matrix. -/
lemma Formula.IsMatrix.symbols_rename {f : Formula} (h : f.IsMatrix) (ρ : String → String) :
    (f.mapLiterals (Literal.rename ρ)).symbols = f.symbols := by
  induction f with
  | atom l =>
    have hargs : (l.args.map (Term.rename ρ)).flatMap Term.symbols =
        l.args.flatMap Term.symbols := by
      rw [List.flatMap_map]
      exact List.flatMap_congr (fun t _ => t.symbols_rename ρ)
    exact hargs
  | not f ih => exact h.elim
  | and f g ihf ihg | or f g ihf ihg =>
    simp only [Formula.mapLiterals, Formula.symbols, ihf h.1, ihg h.2]
  | implies f g ihf ihg => exact h.elim
  | quantified q v f ih => exact h.elim

namespace Prenex

/-- A prenex form without free variables whose binders are pairwise different. -/
structure IsSentence (p : Prenex) : Prop where
  isMatrix : p.matrix.IsMatrix
  nodup : (p.binders.map Binder.var).Nodup
  closed : p.matrix.freeVars ⊆ p.binders.map Binder.var

/-- Standardizing gives all binders their new names. -/
lemma vars_binders_standardize (p : Prenex) (index : ℕ) :
    (p.standardize index).binders.map Binder.var =
      (p.binders.map Binder.var).map (indexedName index) := by
  unfold Prenex.standardize
  rw [List.map_map, List.map_map]
  rfl

/-- Standardizing a sentence gives a sentence. -/
lemma IsSentence.standardize {p : Prenex} (h : p.IsSentence) (index : ℕ) :
    (p.standardize index).IsSentence := by
  have hvars := p.vars_binders_standardize index
  refine ⟨h.isMatrix.mapLiterals _, ?_, fun w hw => ?_⟩
  · rw [hvars]
    exact h.nodup.map (indexedName_injective index)
  · obtain ⟨v, hv, rfl⟩ := h.isMatrix.exists_of_mem_freeVars_rename hw
    rw [hvars]
    exact List.mem_map_of_mem (h.closed hv)

/-- A sentence is true under all assignments or under none. -/
lemma IsSentence.holds_iff {p : Prenex} (h : p.IsSentence) (M : Structure D) (ε δ : String → D) :
    p.formula.Holds M ε ↔ p.formula.Holds M δ := by
  refine Formula.holds_congr fun v hv => ?_
  obtain ⟨hv, hnot⟩ := Formula.mem_freeVars_bindAll.mp hv
  exact absurd (h.closed hv) hnot

/-- Standardizing a sentence keeps its truth value. -/
lemma IsSentence.holds_standardize {p : Prenex} (h : p.IsSentence) (index : ℕ) (M : Structure D)
    (ε : String → D) : (p.standardize index).formula.Holds M ε ↔ p.formula.Holds M ε := by
  have hrename := h.isMatrix.holds_bindAll_rename (M := M) (indexedName_injective index) p.binders ε
  exact hrename.trans (h.holds_iff M _ _)

/-- Standardizing a sentence keeps its symbols. -/
lemma IsSentence.symbols_standardize {p : Prenex} (h : p.IsSentence) (index : ℕ) :
    (p.standardize index).matrix.symbols = p.matrix.symbols :=
  h.isMatrix.symbols_rename _

/-- The prenex form of a closed formula is a sentence. -/
lemma isSentence_toPrenex {f : Formula} (hclosed : f.IsClosed) : f.toPrenex.IsSentence := by
  obtain ⟨taken, hpulled⟩ := f.exists_pulledFrom_toPrenex.{0}
  refine ⟨hpulled.isMatrix, hpulled.binders_nodup, fun v hv => ?_⟩
  have hbound := hpulled.freeVars_matrix_subset hv
  rwa [hclosed, List.nil_append] at hbound

end Prenex

end Clausal
