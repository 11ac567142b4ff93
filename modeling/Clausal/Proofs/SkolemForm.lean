import Clausal.Formula.Skolem
import Clausal.Proofs.PrenexForm

/-!
# Skolem form

A prenex sentence has a model exactly when its Skolem form, with all variables read universally, has
one.  From right to left the structure stays the same: the value of a Skolem term is a witness for
the binder that it stands for.  From left to right the structure is changed at one name for each
existential binder, where the new meaning is chosen among the witnesses; as the name comes from the
supply, no symbol that was reserved before changes its meaning.

The binders are treated one after the other, and the claim about the rest of the prefix is about all
assignments: this is what makes the universal binders passed so far the arguments of the next Skolem
term.
-/

namespace Clausal

universe u

variable {D : Type u}

/-! ## The supply of symbols -/

/-- The Skolem term that depends on the given variables: a constant if there are none. -/
def skolemTerm (name : String) (universals : List String) : Term :=
  if universals = [] then .const name else .app name (universals.map .var)

lemma vars_skolemTerm (name : String) (universals : List String) :
    (skolemTerm name universals).vars = universals := by
  rw [skolemTerm]
  split
  · rename_i hnil
    rw [hnil, Term.vars_const]
  · rw [Term.vars_app, List.flatMap_map]
    exact List.flatMap_singleton' universals

namespace SkolemSupply

/-- A name taken from the supply is not reserved. -/
lemma take_notMem (stem : String) (supply : SkolemSupply) :
    (supply.take stem).1 ∉ supply.reserved := by
  have hinj : ∀ i j, stem ++ toString (supply.next + i) =
      stem ++ toString (supply.next + j) → i = j :=
    fun i j h => Nat.add_left_cancel (append_toString_injective stem h)
  exact freshName_not_mem hinj supply.reserved

/-- A name taken from the supply is reserved from then on. -/
lemma reserved_take (stem : String) (supply : SkolemSupply) :
    (supply.take stem).2.reserved = (supply.take stem).1 :: supply.reserved := rfl

/-- What taking a Skolem term that depends on `universals` gives: a symbol that was not reserved,
as a constant if there is nothing to depend on and else applied to the variables. -/
structure TermTaken (universals : List String) (supply : SkolemSupply) (name : String) (t : Term)
    (supply' : SkolemSupply) : Prop where
  fresh : name ∉ supply.reserved
  reserved : supply'.reserved = name :: supply.reserved
  shape : (universals = [] ∧ t = .const name) ∨
    (universals ≠ [] ∧ t = .app name (universals.map .var))

/-- Every Skolem term is taken with a symbol of its own. -/
lemma exists_termTaken (universals : List String) (supply : SkolemSupply) :
    ∃ name, TermTaken universals supply name (supply.takeTerm universals).1
      (supply.takeTerm universals).2 := by
  unfold takeTerm
  by_cases h : universals.isEmpty
  · simp only [if_pos h]
    exact ⟨_, take_notMem "C" supply, reserved_take "C" supply,
      Or.inl ⟨List.isEmpty_iff.mp h, rfl⟩⟩
  · simp only [if_neg h]
    exact ⟨_, take_notMem "f" supply, reserved_take "f" supply,
      Or.inr ⟨fun hnil => h (List.isEmpty_iff.mpr hnil), rfl⟩⟩

namespace TermTaken

variable {universals : List String} {supply supply' : SkolemSupply} {name : String} {t : Term}

lemma eq_skolemTerm (h : TermTaken universals supply name t supply') :
    t = skolemTerm name universals := by
  rcases h.shape with ⟨hnil, rfl⟩ | ⟨hne, rfl⟩
  · exact (if_pos hnil).symm
  · exact (if_neg hne).symm

/-- The variables of a Skolem term are those it depends on. -/
lemma vars_eq (h : TermTaken universals supply name t supply') : t.vars = universals := by
  rw [h.eq_skolemTerm, vars_skolemTerm]

/-- A Skolem term has no symbol but its own. -/
lemma symbols_eq (h : TermTaken universals supply name t supply') : t.symbols = [name] := by
  rcases h.shape with ⟨-, rfl⟩ | ⟨-, rfl⟩
  · rfl
  · rw [Term.symbols_app, List.flatMap_map]
    simp

/-- Putting a Skolem term into a formula with reserved symbols gives one with reserved symbols. -/
lemma symbols_replace_subset (h : TermTaken universals supply name t supply') {f : Formula}
    (hf : f.symbols ⊆ supply.reserved) (v : String) :
    (f.replace v t).symbols ⊆ supply'.reserved := by
  intro s hs
  rw [h.reserved]
  rcases Formula.mem_symbols_replace hs with hs | hs
  · exact List.mem_cons_of_mem _ (hf hs)
  · rw [h.symbols_eq, List.mem_singleton] at hs
    exact hs ▸ List.mem_cons_self

/-- Passing over an existential binder `b`: the variables left are still different from each other
and from `b`, and none of them occurs in the Skolem term. -/
lemma passBinder (h : TermTaken universals supply name t supply') {b : String}
    {rest : List String} (hnodup : (universals ++ b :: rest).Nodup) :
    b ∉ rest ∧ (universals ++ rest).Nodup ∧ ∀ w ∈ rest, w ∉ t.vars := by
  obtain ⟨huniversals, hcons, hdisjoint⟩ := List.nodup_append.mp hnodup
  obtain ⟨hb, hrest⟩ := List.nodup_cons.mp hcons
  refine ⟨hb, List.nodup_append.mpr ⟨huniversals, hrest, fun v hv w hw => ?_⟩, fun w hw hmem => ?_⟩
  · exact hdisjoint v hv w (List.mem_cons_of_mem _ hw)
  · rw [h.vars_eq] at hmem
    exact hdisjoint w hmem w (List.mem_cons_of_mem _ hw) rfl

end TermTaken

end SkolemSupply

/-! ## Choosing the meaning of a Skolem symbol -/

/-- The structure in which a name means `g`, as a function and, without arguments, as a constant. -/
def Structure.withSymbol (M : Structure D) (name : String) (g : List D → D) : Structure D where
  const c := if c = name then g [] else M.const c
  fn f := if f = name then g else M.fn f
  pred := M.pred

/-- A new meaning of a name does not change other names. -/
lemma Structure.agreesOn_withSymbol {names : List String} {name : String} (h : name ∉ names)
    (M : Structure D) (g : List D → D) : M.AgreesOn names (M.withSymbol name g) where
  const c hc := by
    have hne : c ≠ name := fun heq => h (heq ▸ hc)
    exact (if_neg hne).symm
  fn f hf := by
    have hne : f ≠ name := fun heq => h (heq ▸ hf)
    exact (if_neg hne).symm
  pred := rfl

/-- A Skolem term whose symbol means `g` has the value of `g` at the variables it depends on. -/
lemma SkolemSupply.TermTaken.eval_withSymbol {universals : List String}
    {supply supply' : SkolemSupply} {name : String} {t : Term}
    (h : TermTaken universals supply name t supply') (M : Structure D) (g : List D → D)
    (ε : String → D) : t.eval (M.withSymbol name g) ε = g (universals.map ε) := by
  rcases h.shape with ⟨rfl, rfl⟩ | ⟨-, rfl⟩
  · exact if_pos rfl
  · have hargs : (universals.map Term.var).map (Term.eval (M.withSymbol name g) ε) =
        universals.map ε := by
      rw [List.map_map]
      rfl
    rw [Term.eval_app, hargs]
    exact congrFun (if_pos rfl) _

/-- If every assignment has a witness, and whether something is one depends only on the values of
`universals`, then a function of these values gives witnesses. -/
lemma exists_skolemFunction (M : Structure D) (universals : List String)
    {IsWitness : (String → D) → D → Prop} (hex : ∀ ε, ∃ d, IsWitness ε d)
    (hdep : ∀ ε δ d, (∀ v ∈ universals, ε v = δ v) → IsWitness ε d → IsWitness δ d) :
    ∃ g : List D → D, ∀ ε, IsWitness ε (g (universals.map ε)) := by
  classical
  choose witness hwitness using hex
  refine ⟨fun ds => if h : ∃ ε, universals.map ε = ds then witness h.choose else M.const "",
    fun ε => ?_⟩
  have h : ∃ δ : String → D, universals.map δ = universals.map ε := ⟨ε, rfl⟩
  simp only [dif_pos h]
  exact hdep _ _ _ (List.map_inj_left.mp h.choose_spec) (hwitness h.choose)

/-! ## Replacing existential binders -/

namespace Formula

/-- Nothing is bound in a matrix. -/
lemma IsMatrix.boundVars_eq_nil {f : Formula} (h : f.IsMatrix) : f.boundVars = [] := by
  induction f with
  | atom l => rfl
  | not f ih => exact h.elim
  | and f g ihf ihg | or f g ihf ihg => rw [boundVars, ihf h.1, ihg h.2, List.append_nil]
  | implies f g ihf ihg => exact h.elim
  | quantified q v f ih => exact h.elim

/-- Replacing a variable keeps that a formula is a matrix. -/
lemma IsMatrix.replace {f : Formula} (h : f.IsMatrix) (v : String) (r : Term) :
    (f.replace v r).IsMatrix := by
  induction f with
  | atom l => trivial
  | not f ih => exact h.elim
  | and f g ihf ihg => exact ⟨ihf h.1, ihg h.2⟩
  | or f g ihf ihg => exact ⟨ihf h.1, ihg h.2⟩
  | implies f g ihf ihg => exact h.elim
  | quantified q w f ih => exact h.elim

/-- Replacing a variable of a matrix under binders gives it the value of the term, if the binders
bind neither the variable nor one of the term. -/
lemma IsMatrix.holds_bindAll_replace {M : Structure D} {f : Formula} (h : f.IsMatrix)
    {bs : List Binder} {v : String} {r : Term} (hv : v ∉ bs.map Binder.var)
    (hr : ∀ w ∈ bs.map Binder.var, w ∉ r.vars) (ε : String → D) :
    (bindAll bs (f.replace v r)).Holds M ε ↔
      (bindAll bs f).Holds M (update ε v (r.eval M ε)) := by
  have hbound : (bindAll bs f).boundVars = bs.map Binder.var := by
    rw [boundVars_bindAll, h.boundVars_eq_nil, List.append_nil]
  rw [← replace_bindAll hv]
  exact holds_replace (fun w hw => hr w (hbound ▸ hw)) ε

end Formula

/-- Skolemizing a matrix gives a matrix. -/
lemma isMatrix_skolemizeFrom {binders : List Binder} {universals : List String} {matrix : Formula}
    {supply : SkolemSupply} (h : matrix.IsMatrix) :
    (skolemizeFrom binders universals matrix supply).1.matrix.IsMatrix := by
  induction binders generalizing universals matrix supply with
  | nil => exact h
  | cons b binders ih =>
    rw [skolemizeFrom]
    cases b.quantifier with
    | universal => exact ih h
    | existential => exact ih (h.replace _ _)

/-- Skolemizing keeps what is reserved and reserves the symbols of the result. -/
lemma reserved_skolemizeFrom {binders : List Binder} {universals : List String} {matrix : Formula}
    {supply : SkolemSupply} (h : matrix.symbols ⊆ supply.reserved) :
    supply.reserved ⊆ (skolemizeFrom binders universals matrix supply).2.reserved ∧
      (skolemizeFrom binders universals matrix supply).1.matrix.symbols ⊆
        (skolemizeFrom binders universals matrix supply).2.reserved := by
  induction binders generalizing universals matrix supply with
  | nil => exact ⟨List.Subset.refl _, h⟩
  | cons b binders ih =>
    rw [skolemizeFrom]
    cases b.quantifier with
    | universal => exact ih h
    | existential =>
      obtain ⟨name, htaken⟩ := SkolemSupply.exists_termTaken universals supply
      have hreserved : supply.reserved ⊆ (supply.takeTerm universals).2.reserved := by
        rw [htaken.reserved]
        exact List.subset_cons_self _ _
      have hsymbols := htaken.symbols_replace_subset h b.var
      exact ⟨List.Subset.trans hreserved (ih hsymbols).1, (ih hsymbols).2⟩

/-- A structure in which the Skolem form is true under all assignments makes the prenex form
true. -/
lemma holds_of_holds_skolemizeFrom {M : Structure D} {binders : List Binder}
    {universals : List String} {matrix : Formula} {supply : SkolemSupply}
    (hmatrix : matrix.IsMatrix) (hnodup : (universals ++ binders.map Binder.var).Nodup)
    (h : ∀ ε, (skolemizeFrom binders universals matrix supply).1.matrix.Holds M ε)
    (ε : String → D) : (Formula.bindAll binders matrix).Holds M ε := by
  induction binders generalizing universals matrix supply ε with
  | nil => exact h ε
  | cons b binders ih =>
    rw [List.map_cons] at hnodup
    rw [skolemizeFrom] at h
    rw [Formula.bindAll_cons]
    cases hq : b.quantifier with
    | universal =>
      rw [hq] at h
      have hnodup' : (universals ++ [b.var] ++ binders.map Binder.var).Nodup := by
        rwa [List.append_assoc, List.singleton_append]
      exact fun d => ih hmatrix hnodup' h (update ε b.var d)
    | existential =>
      rw [hq] at h
      set t := (supply.takeTerm universals).1 with ht_def
      obtain ⟨name, htaken⟩ := SkolemSupply.exists_termTaken universals supply
      obtain ⟨hb, hnodup', hr⟩ := htaken.passBinder hnodup
      have hbody := ih (hmatrix.replace b.var t) hnodup' h ε
      exact ⟨t.eval M ε, (hmatrix.holds_bindAll_replace hb hr ε).mp hbody⟩

/-- Replacing an existential variable by its Skolem term leaves the variables bound around it and
those bound below it. -/
lemma SkolemSupply.TermTaken.freeVars_replace_subset {universals below : List String}
    {supply supply' : SkolemSupply} {name v : String} {t : Term} {f : Formula}
    (h : TermTaken universals supply name t supply')
    (hclosed : f.freeVars ⊆ universals ++ v :: below) :
    (f.replace v t).freeVars ⊆ universals ++ below := by
  intro w hw
  rw [List.mem_append]
  rcases Formula.mem_freeVars_replace hw with ⟨hw, hwv⟩ | hw
  · rcases List.mem_append.mp (hclosed hw) with hw | hw
    · exact Or.inl hw
    · exact Or.inr ((List.mem_cons.mp hw).resolve_left hwv)
  · rw [h.vars_eq] at hw
    exact Or.inl hw

/-- If a formula whose variables are among `universals` and `v` has under every assignment a value
of `v` that makes it true, then a function of the values of `universals` gives such values. -/
lemma Formula.exists_skolemFunction_holds {M : Structure D} {universals : List String} {v : String}
    {f : Formula} (hfree : ∀ w ∈ f.freeVars, w ∈ universals ∨ w = v)
    (h : ∀ ε, ∃ d, f.Holds M (update ε v d)) :
    ∃ g : List D → D, ∀ ε, f.Holds M (update ε v (g (universals.map ε))) := by
  refine exists_skolemFunction M universals h fun ε δ d hagree hd => ?_
  refine (holds_congr fun w hw => ?_).mp hd
  by_cases hwv : w = v
  · rw [hwv, update_self, update_self]
  · rw [update_of_ne _ _ hwv, update_of_ne _ _ hwv]
    exact hagree w ((hfree w hw).resolve_right hwv)

/-- A structure in which a prenex form is true under all assignments can be changed at names that
are not reserved so that the Skolem form is true under all assignments. -/
lemma exists_agreesOn_holds_skolemizeFrom {M : Structure D} {binders : List Binder}
    {universals : List String} {matrix : Formula} {supply : SkolemSupply}
    (hmatrix : matrix.IsMatrix) (hnodup : (universals ++ binders.map Binder.var).Nodup)
    (hclosed : matrix.freeVars ⊆ universals ++ binders.map Binder.var)
    (hsymbols : matrix.symbols ⊆ supply.reserved)
    (h : ∀ ε, (Formula.bindAll binders matrix).Holds M ε) :
    ∃ N : Structure D, M.AgreesOn supply.reserved N ∧
      ∀ ε, (skolemizeFrom binders universals matrix supply).1.matrix.Holds N ε := by
  induction binders generalizing universals matrix supply M with
  | nil => exact ⟨M, .refl _ M, h⟩
  | cons b binders ih =>
    rw [List.map_cons] at hnodup hclosed
    rw [skolemizeFrom]
    rw [Formula.bindAll_cons] at h
    cases hq : b.quantifier with
    | universal =>
      rw [hq] at h
      have happend : universals ++ [b.var] ++ binders.map Binder.var =
          universals ++ b.var :: binders.map Binder.var := by
        rw [List.append_assoc, List.singleton_append]
      refine ih hmatrix (happend ▸ hnodup) (happend ▸ hclosed) hsymbols (fun ε => ?_)
      have hε : (Formula.bindAll binders matrix).Holds M (update ε b.var (ε b.var)) := h ε (ε b.var)
      rwa [update_eq_self] at hε
    | existential =>
      rw [hq] at h
      set t := (supply.takeTerm universals).1 with ht_def
      obtain ⟨name, htaken⟩ := SkolemSupply.exists_termTaken universals supply
      obtain ⟨hb, hnodup', hr⟩ := htaken.passBinder hnodup
      -- what the rest of the prefix says depends on the variables bound before and on `b.var`
      have hfree : ∀ v ∈ (Formula.bindAll binders matrix).freeVars, v ∈ universals ∨ v = b.var := by
        intro v hv
        obtain ⟨hv, hnot⟩ := Formula.mem_freeVars_bindAll.mp hv
        rcases List.mem_append.mp (hclosed hv) with hv | hv
        · exact Or.inl hv
        · exact Or.inr ((List.mem_cons.mp hv).resolve_right hnot)
      obtain ⟨g, hg⟩ := Formula.exists_skolemFunction_holds hfree h
      have hagree := Structure.agreesOn_withSymbol htaken.fresh M g
      have hholds : ∀ ε, (Formula.bindAll binders (matrix.replace b.var t)).Holds
          (M.withSymbol name g) ε := by
        intro ε
        rw [hmatrix.holds_bindAll_replace hb hr, htaken.eval_withSymbol]
        refine (hagree.holds_iff ?_ _).mp (hg ε)
        rw [Formula.symbols_bindAll]
        exact hsymbols
      obtain ⟨N, hN, hskolem⟩ := ih (hmatrix.replace b.var t) hnodup'
        (htaken.freeVars_replace_subset hclosed)
        (htaken.symbols_replace_subset hsymbols b.var) hholds
      refine ⟨N, hagree.trans (hN.mono ?_), hskolem⟩
      rw [htaken.reserved]
      exact List.subset_cons_self _ _

namespace Prenex.IsSentence

variable {p : Prenex} {M : Structure D} {supply : SkolemSupply}

/-- A structure in which the Skolem form of a sentence is true under all assignments makes the
sentence true. -/
lemma holds_of_holds_skolemize (h : p.IsSentence) {index : ℕ}
    (hskolem : ∀ ε, ((p.standardize index).skolemize supply).1.matrix.Holds M ε) (ε : String → D) :
    p.formula.Holds M ε := by
  have hsentence := h.standardize index
  rw [← h.holds_standardize index]
  exact holds_of_holds_skolemizeFrom hsentence.isMatrix hsentence.nodup hskolem ε

/-- A structure in which a sentence is true can be changed at names that are not reserved so that
the Skolem form of the sentence is true under all assignments. -/
lemma exists_agreesOn_holds_skolemize (h : p.IsSentence)
    (hsymbols : p.matrix.symbols ⊆ supply.reserved) (index : ℕ)
    (hholds : ∀ ε, p.formula.Holds M ε) :
    ∃ N : Structure D, M.AgreesOn supply.reserved N ∧
      ∀ ε, ((p.standardize index).skolemize supply).1.matrix.Holds N ε := by
  have hsentence := h.standardize index
  have hsymbols' := (h.symbols_standardize index).symm ▸ hsymbols
  refine exists_agreesOn_holds_skolemizeFrom hsentence.isMatrix hsentence.nodup hsentence.closed
    hsymbols' fun ε => ?_
  exact (h.holds_standardize index M ε).mpr (hholds ε)

end Prenex.IsSentence

end Clausal
