import Clausal.Proofs.Calls
import Clausal.Proofs.Lifting

/-!
# Names of an attempt

The formulas of an attempt keep their names apart.  A variable carries the number of its formula,
and as numbers are written without underscores, what stands after the last underscore tells the
formula.  A Skolem symbol is taken from a supply in which the symbols of all formulas, also of later
ones, are reserved before the first is taken, and which reserves each symbol that is taken.

So one function gives the Skolem symbol for each existentially bound variable of all formulas, it
gives different symbols for different variables, and the clauses are those of the prenex forms in
which each existentially bound variable is replaced by its symbol, applied to the universally bound
variables before it.
-/

namespace Clausal

/-! ## Numbers in names -/

/-- The number of a formula can be read off its names. -/
lemma Prenex.index_eq_of_indexedName_eq {i j : ℕ} {v w : String}
    (h : indexedName i v = indexedName j w) : i = j := by
  have hnoUnderscore : ∀ n : ℕ, '_' ∉ (toString n).toList := by
    intro n hmem
    rw [Nat.toString_eq_repr, Nat.toList_repr] at hmem
    have hdigit := Nat.isDigit_of_mem_toDigits (by decide) (by decide) hmem
    exact absurd hdigit (by decide)
  have hsplit : ∀ {m n : ℕ} {rest : List Char},
      '_' :: (toString m).toList = rest ++ '_' :: (toString n).toList → m = n := by
    intro m n rest hrest
    cases rest with
    | nil => exact toString_nat_injective (String.toList_injective (List.cons.inj hrest).2)
    | cons c rest =>
      refine absurd ?_ (hnoUnderscore m)
      rw [(List.cons.inj hrest).2]
      exact List.mem_append_right _ List.mem_cons_self
  have hlists : v.toList ++ '_' :: (toString i).toList =
      w.toList ++ '_' :: (toString j).toList := by
    have hlist := congrArg String.toList h
    simpa [indexedName] using hlist
  rcases List.append_eq_append_iff.mp hlists with ⟨rest, -, hrest⟩ | ⟨rest, -, hrest⟩
  · exact hsplit hrest
  · exact (hsplit hrest).symm

/-! ## The search for a fresh name -/

/-- The search looks at no more candidates than it has tries. -/
lemma freshIndexFrom_le (candidate : ℕ → String) (taken : List String) (tries k : ℕ) :
    freshIndexFrom candidate taken tries k ≤ k + tries := by
  induction tries generalizing k with
  | zero => exact Nat.le_refl _
  | succ tries ih =>
    rw [freshIndexFrom]
    split
    · have := ih (k + 1)
      omega
    · omega

/-- Among pairwise distinct candidates, the search ends at the first that is not taken, after as
many candidates as there are taken names at most. -/
lemma freshIndex_spec {candidate : ℕ → String} (hinj : ∀ i j, candidate i = candidate j → i = j)
    (taken : List String) :
    freshIndex candidate taken ≤ taken.length ∧ candidate (freshIndex candidate taken) ∉ taken ∧
      ∀ k < freshIndex candidate taken, candidate k ∈ taken := by
  refine ⟨?_, freshName_not_mem hinj taken, fun k hk => ?_⟩
  · exact (freshIndexFrom_le candidate taken _ 0).trans (Nat.zero_add _).le
  · exact candidate_mem_of_lt_freshIndexFrom (Nat.zero_le k) hk

/-- The search for a Skolem symbol ends at the first candidate that is not reserved. -/
lemma SkolemSupply.exists_take_eq (stem : String) (supply : SkolemSupply) :
    ∃ k ≤ supply.reserved.length, ∃ name, name = stem ++ toString (supply.next + k) ∧
      name ∉ supply.reserved ∧ (∀ j < k, stem ++ toString (supply.next + j) ∈ supply.reserved) ∧
      supply.take stem =
        (name, { next := supply.next + k + 1, reserved := name :: supply.reserved }) := by
  have hinj : ∀ i j, stem ++ toString (supply.next + i) =
      stem ++ toString (supply.next + j) → i = j :=
    fun i j h => Nat.add_left_cancel (append_toString_injective stem h)
  obtain ⟨hle, hfresh, hpassed⟩ := freshIndex_spec hinj supply.reserved
  exact ⟨_, hle, _, rfl, hfresh, hpassed, rfl⟩

/-- The search for a new name for a bound variable ends at the first candidate that is not in
use. -/
lemma Formula.exists_freshVariant_spec (v : String) (taken : List String) :
    ∃ k ≤ taken.length, freshVariant v taken = v ++ toString (k + 1) ∧
      freshVariant v taken ∉ taken ∧ ∀ j < k, v ++ toString (j + 1) ∈ taken := by
  have hinj : ∀ i j : ℕ, v ++ toString (i + 1) = v ++ toString (j + 1) → i = j :=
    fun i j h => Nat.add_right_cancel (append_toString_injective v h)
  obtain ⟨hle, hfresh, hpassed⟩ := freshIndex_spec hinj taken
  exact ⟨_, hle, rfl, hfresh, hpassed⟩

/-! ## Skolem terms -/

/-- The variables that binders bind existentially. -/
def existentialVars (bs : List Binder) : List String :=
  (bs.filter (·.quantifier = .existential)).map Binder.var

/-- The variables that are bound universally before the binder of a variable. -/
def universalsBefore (v : String) (bs : List Binder) : List String :=
  ((bs.takeWhile (·.var ≠ v)).filter (·.quantifier = .universal)).map Binder.var

/-- What stands for a variable of a prenex form in its Skolem form.  An existentially bound variable
has a Skolem term, headed by its own symbol, of the variables bound universally before it,
`universals` coming before all binders; every other variable stands for itself. -/
def skolemValue (bs : List Binder) (universals : List String) (symbol : String → String)
    (v : String) : Term :=
  if v ∈ existentialVars bs then skolemTerm (symbol v) (universals ++ universalsBefore v bs)
  else .var v

lemma existentialVars_subset (bs : List Binder) : existentialVars bs ⊆ bs.map Binder.var :=
  (List.filter_sublist.map _).subset

lemma universalsBefore_subset (v : String) (bs : List Binder) :
    universalsBefore v bs ⊆ bs.map Binder.var :=
  ((List.filter_sublist.trans (List.takeWhile_sublist _)).map _).subset

/-- A universal binder is one more variable on which the Skolem terms after it depend. -/
lemma skolemValue_cons_universal {b : Binder} (hb : b.quantifier = .universal) {bs : List Binder}
    (hnotMem : b.var ∉ bs.map Binder.var) (universals : List String) (symbol : String → String) :
    skolemValue (b :: bs) universals symbol = skolemValue bs (universals ++ [b.var]) symbol := by
  have hvars : existentialVars (b :: bs) = existentialVars bs := by
    simp [existentialVars, hb]
  funext v
  rw [skolemValue, skolemValue, hvars]
  by_cases hv : v ∈ existentialVars bs
  · have hne : b.var ≠ v := fun heq => hnotMem (heq ▸ existentialVars_subset bs hv)
    have hbefore : universalsBefore v (b :: bs) = b.var :: universalsBefore v bs := by
      simp [universalsBefore, hb, hne]
    rw [if_pos hv, if_pos hv, hbefore, List.append_assoc, List.singleton_append]
  · rw [if_neg hv, if_neg hv]

/-- An existential binder has a Skolem term of the variables before it, and those after it do not
depend on it. -/
lemma skolemValue_cons_existential {b : Binder} (hb : b.quantifier = .existential)
    (bs : List Binder) (universals : List String) (symbol : String → String) (v : String) :
    skolemValue (b :: bs) universals symbol v =
      if v = b.var then skolemTerm (symbol v) universals
      else skolemValue bs universals symbol v := by
  have hvars : existentialVars (b :: bs) = b.var :: existentialVars bs := by
    simp [existentialVars, hb]
  rw [skolemValue, skolemValue, hvars]
  by_cases hv : v = b.var
  · have hbefore : universalsBefore v (b :: bs) = [] := by
      simp [universalsBefore, hv]
    rw [if_pos (List.mem_cons.mpr (Or.inl hv)), if_pos hv, hbefore, List.append_nil]
  · have hbefore : universalsBefore v (b :: bs) = universalsBefore v bs := by
      simp [universalsBefore, hb, Ne.symm hv]
    rw [if_neg hv, hbefore]
    exact if_congr (List.mem_cons.trans (or_iff_right hv)) rfl rfl

/-- Only the symbols of the existentially bound variables count. -/
lemma skolemValue_congr {bs : List Binder} {symbol symbol' : String → String}
    (h : ∀ v ∈ existentialVars bs, symbol v = symbol' v) (universals : List String) :
    skolemValue bs universals symbol = skolemValue bs universals symbol' := by
  funext v
  rw [skolemValue, skolemValue]
  by_cases hv : v ∈ existentialVars bs
  · rw [if_pos hv, if_pos hv, h v hv]
  · rw [if_neg hv, if_neg hv]

/-- The variables of what stands for a variable are the variable itself and bound ones. -/
lemma vars_skolemValue {bs : List Binder} {symbol : String → String} {v w : String}
    (hw : w ∈ (skolemValue bs [] symbol v).vars) : w = v ∨ w ∈ bs.map Binder.var := by
  rw [skolemValue] at hw
  by_cases hv : v ∈ existentialVars bs
  · rw [if_pos hv, vars_skolemTerm] at hw
    exact Or.inr (universalsBefore_subset v bs hw)
  · rw [if_neg hv] at hw
    exact Or.inl (List.mem_singleton.mp hw)

/-! ## Skolem form as one replacement -/

/-- Replacing a variable of a matrix and then others is one replacement. -/
lemma Formula.IsMatrix.mapLiterals_replace {f : Formula} (h : f.IsMatrix) {v : String} {r : Term}
    {σ τ : String → Term} (hτ : ∀ w, (Term.binding v r w).subst σ = τ w) :
    (f.replace v r).mapLiterals (Literal.subst σ) = f.mapLiterals (Literal.subst τ) := by
  induction f with
  | atom l =>
    refine congrArg Formula.atom ?_
    rw [Literal.replace, Literal.subst_subst]
    exact Literal.subst_congr fun w _ => hτ w
  | not f ih => exact h.elim
  | and f g ihf ihg => exact congrArg₂ Formula.and (ihf h.1) (ihg h.2)
  | or f g ihf ihg => exact congrArg₂ Formula.or (ihf h.1) (ihg h.2)
  | implies f g ihf ihg => exact h.elim
  | quantified q w f ih => exact h.elim

/-- Replacing each variable by itself changes no matrix. -/
lemma Formula.IsMatrix.mapLiterals_var {f : Formula} (h : f.IsMatrix) :
    f.mapLiterals (Literal.subst .var) = f := by
  induction f with
  | atom l => exact congrArg Formula.atom (Literal.subst_eq_self fun _ _ => rfl)
  | not f ih => exact h.elim
  | and f g ihf ihg => exact congrArg₂ Formula.and (ihf h.1) (ihg h.2)
  | or f g ihf ihg => exact congrArg₂ Formula.or (ihf h.1) (ihg h.2)
  | implies f g ihf ihg => exact h.elim
  | quantified q w f ih => exact h.elim

/-- Symbols for variables are taken from a supply: different ones, none of them reserved before and
all of them reserved after. -/
structure SkolemSupply.SymbolsTaken (supply : SkolemSupply) (vars : List String)
    (symbol : String → String) (supply' : SkolemSupply) : Prop where
  nodup : (vars.map symbol).Nodup
  fresh : ∀ v ∈ vars, symbol v ∉ supply.reserved
  reserved_subset : supply.reserved ⊆ supply'.reserved
  reserved : ∀ v ∈ vars, symbol v ∈ supply'.reserved

/-- Symbols taken first and symbols taken after that are symbols taken. -/
lemma SkolemSupply.SymbolsTaken.append {supply supply₁ supply₂ : SkolemSupply} {vs ws : List String}
    {symbol : String → String} (h₁ : supply.SymbolsTaken vs symbol supply₁)
    (h₂ : supply₁.SymbolsTaken ws symbol supply₂) :
    supply.SymbolsTaken (vs ++ ws) symbol supply₂ where
  nodup := by
    rw [List.map_append, List.nodup_append]
    refine ⟨h₁.nodup, h₂.nodup, fun name hname name' hname' heq => ?_⟩
    obtain ⟨v, hv, rfl⟩ := List.mem_map.mp hname
    obtain ⟨w, hw, rfl⟩ := List.mem_map.mp hname'
    exact h₂.fresh w hw (heq ▸ h₁.reserved v hv)
  fresh := by
    rw [List.forall_mem_append]
    exact ⟨h₁.fresh, fun w hw hmem => h₂.fresh w hw (h₁.reserved_subset hmem)⟩
  reserved_subset := List.Subset.trans h₁.reserved_subset h₂.reserved_subset
  reserved := by
    rw [List.forall_mem_append]
    exact ⟨fun v hv => h₂.reserved_subset (h₁.reserved v hv), h₂.reserved⟩

/-- Only the symbols of the variables count. -/
lemma SkolemSupply.SymbolsTaken.congr {supply supply' : SkolemSupply} {vs : List String}
    {symbol symbol' : String → String} (h : supply.SymbolsTaken vs symbol supply')
    (hsymbol : ∀ v ∈ vs, symbol v = symbol' v) : supply.SymbolsTaken vs symbol' supply' where
  nodup := List.map_congr_left hsymbol ▸ h.nodup
  fresh v hv := hsymbol v hv ▸ h.fresh v hv
  reserved_subset := h.reserved_subset
  reserved v hv := hsymbol v hv ▸ h.reserved v hv

/-- Taking a Skolem term takes its symbol. -/
lemma SkolemSupply.TermTaken.symbolsTaken {universals : List String} {supply supply' : SkolemSupply}
    {name v : String} {t : Term} (h : TermTaken universals supply name t supply')
    {symbol : String → String} (hv : symbol v = name) : supply.SymbolsTaken [v] symbol supply' where
  nodup := List.nodup_singleton _
  fresh := by
    rw [List.forall_mem_singleton, hv]
    exact h.fresh
  reserved_subset := by
    rw [h.reserved]
    exact List.subset_cons_self _ _
  reserved := by
    rw [List.forall_mem_singleton, hv, h.reserved]
    exact List.mem_cons_self

/-- Skolem form replaces, at once, each existentially bound variable by a Skolem term with a symbol
of its own. -/
lemma exists_symbol_skolemizeFrom {bs : List Binder} {universals : List String} {matrix : Formula}
    {supply : SkolemSupply} (hmatrix : matrix.IsMatrix)
    (hnodup : (universals ++ bs.map Binder.var).Nodup) :
    ∃ symbol : String → String,
      (skolemizeFrom bs universals matrix supply).1.matrix =
        matrix.mapLiterals (Literal.subst (skolemValue bs universals symbol)) ∧
      supply.SymbolsTaken (existentialVars bs) symbol
        (skolemizeFrom bs universals matrix supply).2 := by
  induction bs generalizing universals matrix supply with
  | nil =>
    refine ⟨id, hmatrix.mapLiterals_var.symm, List.nodup_nil, ?_, List.Subset.refl _, ?_⟩
    · exact fun v hv => absurd hv List.not_mem_nil
    · exact fun v hv => absurd hv List.not_mem_nil
  | cons b bs ih =>
    rw [List.map_cons] at hnodup
    rw [skolemizeFrom]
    cases hb : b.quantifier with
    | universal =>
      have hnodup' : (universals ++ [b.var] ++ bs.map Binder.var).Nodup := by
        rwa [List.append_assoc, List.singleton_append]
      have hnotMem : b.var ∉ bs.map Binder.var :=
        (List.nodup_cons.mp (List.nodup_append.mp hnodup).2.1).1
      have hvars : existentialVars (b :: bs) = existentialVars bs := by
        simp [existentialVars, hb]
      obtain ⟨symbol, hsymbol⟩ := ih hmatrix hnodup'
      rw [hvars]
      refine ⟨symbol, ?_⟩
      rw [skolemValue_cons_universal hb hnotMem]
      exact hsymbol
    | existential =>
      obtain ⟨name, htaken⟩ := SkolemSupply.exists_termTaken universals supply
      obtain ⟨hnotMem, hnodup', hapart⟩ := htaken.passBinder hnodup
      have hvars : existentialVars (b :: bs) = [b.var] ++ existentialVars bs := by
        simp [existentialVars, hb]
      obtain ⟨rest, hrest, hsymbols⟩ := @ih universals _ (supply.takeTerm universals).2
        (hmatrix.replace b.var (supply.takeTerm universals).1) hnodup'
      obtain ⟨symbol, hown, hlater⟩ : ∃ symbol : String → String,
          symbol b.var = name ∧ ∀ v ∈ existentialVars bs, rest v = symbol v := by
        refine ⟨fun v => if v = b.var then name else rest v, if_pos rfl, fun v hv =>
          (if_neg ?_).symm⟩
        exact fun heq => hnotMem (heq ▸ existentialVars_subset bs hv)
      refine ⟨symbol, ?_, ?_⟩
      · refine hrest.trans (hmatrix.mapLiterals_replace fun w => ?_)
        rw [Term.binding, skolemValue_cons_existential hb]
        by_cases hw : w = b.var
        · -- the Skolem term has no variables that are bound existentially later
          rw [if_pos hw, if_pos hw, hw, hown, ← htaken.eq_skolemTerm]
          refine Term.subst_eq_self fun v hv => if_neg fun hmem => ?_
          exact hapart v (existentialVars_subset bs hmem) hv
        · rw [if_neg hw, if_neg hw, Term.subst_var, skolemValue_congr hlater]
      · rw [hvars]
        exact (htaken.symbolsTaken hown).append (hsymbols.congr hlater)

/-! ## The formulas of an attempt -/

/-- Removing duplicates from a list without any changes nothing. -/
lemma eraseDups_of_nodup {α : Type} [DecidableEq α] {l : List α} (h : l.Nodup) :
    l.eraseDups = l := by
  induction l with
  | nil => rfl
  | cons a l ih =>
    obtain ⟨ha, hl⟩ := List.nodup_cons.mp h
    have hfilter : l.filter (fun b => !b == a) = l := by
      refine List.filter_eq_self.mpr fun b hb => ?_
      have hne : b ≠ a := fun heq => ha (heq ▸ hb)
      simp [hne]
    rw [List.eraseDups_cons, hfilter, ih hl]

namespace PendingFormula

/-- The prenex form of a formula, with its number in all variables. -/
def prenex (p : PendingFormula) : Prenex :=
  p.formula.toPrenex.standardize p.number

/-- The variables that are bound existentially in the prenex form. -/
def existentials (p : PendingFormula) : List String :=
  existentialVars p.prenex.binders

/-- The clauses, without repeated literals, of the matrix of the prenex form in which every
existentially bound variable is replaced by its Skolem term. -/
def skolemClauses (symbol : String → String) (p : PendingFormula) : List (List Literal) :=
  (p.prenex.matrix.mapLiterals
    (Literal.subst (skolemValue p.prenex.binders [] symbol))).productClauses.map List.eraseDups

variable {p q : PendingFormula}

lemma isMatrix_prenex (p : PendingFormula) : p.prenex.matrix.IsMatrix := by
  obtain ⟨taken, hpulled⟩ := p.formula.exists_pulledFrom_toPrenex.{0}
  exact hpulled.isMatrix.mapLiterals _

/-- Different binders of a prenex form bind different variables. -/
lemma nodup_binders_prenex (p : PendingFormula) : (p.prenex.binders.map Binder.var).Nodup := by
  obtain ⟨taken, hpulled⟩ := p.formula.exists_pulledFrom_toPrenex.{0}
  rw [prenex, Prenex.vars_binders_standardize]
  exact hpulled.binders_nodup.map (Prenex.indexedName_injective p.number)

/-- Every bound variable carries the number of its formula. -/
lemma exists_of_mem_binders_prenex {v : String} (hv : v ∈ p.prenex.binders.map Binder.var) :
    ∃ w, v = Prenex.indexedName p.number w := by
  rw [prenex, Prenex.vars_binders_standardize] at hv
  obtain ⟨w, -, rfl⟩ := List.mem_map.mp hv
  exact ⟨w, rfl⟩

/-- Every variable of the clauses carries the number of its formula. -/
lemma exists_of_mem_vars_skolemClauses {symbol : String → String} {c : List Literal}
    (hc : c ∈ p.skolemClauses symbol) {v : String} (hv : v ∈ c.flatMap Literal.vars) :
    ∃ w, v = Prenex.indexedName p.number w := by
  obtain ⟨literals, hliterals, rfl⟩ := List.mem_map.mp hc
  obtain ⟨l, hl, hv⟩ := List.mem_flatMap.mp hv
  have hfree := Formula.vars_subset_of_mem_productClauses hliterals (List.mem_eraseDups.mp hl) hv
  obtain ⟨u, hu, hvu⟩ := p.isMatrix_prenex.exists_of_mem_freeVars_subst hfree
  rcases vars_skolemValue hvu with rfl | hbound
  · obtain ⟨taken, hpulled⟩ := p.formula.exists_pulledFrom_toPrenex.{0}
    obtain ⟨w, -, hw⟩ := hpulled.isMatrix.exists_of_mem_freeVars_rename hu
    exact ⟨w, hw⟩
  · exact exists_of_mem_binders_prenex hbound

/-- Formulas with different numbers bind different variables. -/
lemma notMem_existentials (h : p.number ≠ q.number) {v : String} (hv : v ∈ p.existentials) :
    v ∉ q.existentials := by
  intro hv'
  obtain ⟨w, rfl⟩ := exists_of_mem_binders_prenex (existentialVars_subset _ hv)
  obtain ⟨w', heq⟩ := exists_of_mem_binders_prenex (existentialVars_subset _ hv')
  exact h (Prenex.index_eq_of_indexedName_eq heq)

/-- Only the symbols of the existentially bound variables count. -/
lemma skolemClauses_congr {symbol symbol' : String → String}
    (h : ∀ v ∈ p.existentials, symbol v = symbol' v) :
    p.skolemClauses symbol = p.skolemClauses symbol' := by
  rw [skolemClauses, skolemClauses, skolemValue_congr h]

/-- The clauses that a formula gives when the search starts are those of its prenex form with Skolem
terms, whose symbols are taken from the supply. -/
lemma exists_symbol_clauses (p : PendingFormula) (supply : SkolemSupply) :
    ∃ symbol : String → String,
      (p.clauses supply).map Clause.literals = p.skolemClauses symbol ∧
      supply.SymbolsTaken p.existentials symbol (p.formula.skolemForm p.number supply).2 := by
  obtain ⟨symbol, hmatrix, hsymbols⟩ :=
    @exists_symbol_skolemizeFrom p.prenex.binders [] p.prenex.matrix supply p.isMatrix_prenex
      p.nodup_binders_prenex
  refine ⟨symbol, ?_, hsymbols⟩
  have hform : (p.formula.skolemForm p.number supply).1.matrix =
      p.prenex.matrix.mapLiterals (Literal.subst (skolemValue p.prenex.binders [] symbol)) :=
        hmatrix
  rw [PendingFormula.clauses, hform, skolemClauses, List.map_map]
  refine List.map_congr_left fun literals _ => ?_
  exact eraseDups_of_nodup (nodup_eraseDups literals)

end PendingFormula

/-- One function gives the Skolem symbols of all formulas. -/
lemma Intake.exists_symbol_clausesFrom {pending : List PendingFormula} {supply : SkolemSupply}
    {cs : List Clause} (hnumbers : (pending.map PendingFormula.number).Nodup)
    (h : clausesFrom pending supply = .ok cs) :
    ∃ (symbol : String → String) (supply' : SkolemSupply),
      cs.map Clause.literals = pending.flatMap (PendingFormula.skolemClauses symbol) ∧
      supply.SymbolsTaken (pending.flatMap PendingFormula.existentials) symbol supply' := by
  induction pending generalizing supply cs with
  | nil =>
    cases h
    refine ⟨id, supply, rfl, List.nodup_nil, ?_, List.Subset.refl _, ?_⟩
    · exact fun v hv => absurd hv List.not_mem_nil
    · exact fun v hv => absurd hv List.not_mem_nil
  | cons p pending ih =>
    rw [List.map_cons, List.nodup_cons] at hnumbers
    rw [clausesFrom_cons] at h
    obtain ⟨more, hmore, rfl⟩ := map_eq_ok h
    obtain ⟨first, hclauses, htaken⟩ := p.exists_symbol_clauses supply
    obtain ⟨rest, supply', hrest, htaken'⟩ := ih hnumbers.2 hmore
    have hapart : ∀ q ∈ pending, ∀ v ∈ q.existentials, v ∉ p.existentials := fun q hq v hv =>
      PendingFormula.notMem_existentials
        (fun heq => hnumbers.1 (heq ▸ List.mem_map_of_mem hq)) hv
    -- a variable tells whether its symbol is one of the first formula or of the others
    obtain ⟨symbol, hfirst, hothers⟩ : ∃ symbol : String → String,
        (∀ v ∈ p.existentials, first v = symbol v) ∧
          ∀ q ∈ pending, ∀ v ∈ q.existentials, rest v = symbol v :=
      ⟨fun v => if v ∈ p.existentials then first v else rest v, fun v hv => (if_pos hv).symm,
        fun q hq v hv => (if_neg (hapart q hq v hv)).symm⟩
    refine ⟨symbol, supply', ?_, ?_⟩
    · rw [List.map_append, hclauses, hrest, List.flatMap_cons,
        PendingFormula.skolemClauses_congr hfirst]
      refine congrArg _ (List.flatMap_congr fun q hq => ?_)
      exact PendingFormula.skolemClauses_congr (hothers q hq)
    · rw [List.flatMap_cons]
      refine (htaken.congr hfirst).append (htaken'.congr fun v hv => ?_)
      obtain ⟨q, hq, hv⟩ := List.mem_flatMap.mp hv
      exact hothers q hq v hv

/-- If calls have left an attempt that collects, and some text has said a formula, then the search
starts on the formulas said.  Their clauses are those of their prenex forms in which every
existentially bound variable is replaced by a Skolem term of the variables bound universally before
it.  Clauses of two formulas share no variable.  No two existential binders of the attempt have the
same symbol, and no formula said has one of these symbols.  The search for a symbol, and for a new
name of a bound variable, ends after as many candidates as there are names to avoid at most, with
the first that is none of them. -/
theorem exists_symbol_start {settings : Settings} {calls : List Call} {i : Intake}
    (hcalls : Attempt.afterCalls settings calls = .collecting i)
    (hne : calls.filterMap Call.formula? ≠ []) :
    (∃ (s : Search) (symbol : String → String), i.start = .ok s ∧
      i.pending.map PendingFormula.formula = calls.filterMap Call.formula? ∧
      s.registry.clauses.toList.map Clause.literals =
        i.pending.flatMap (PendingFormula.skolemClauses symbol) ∧
      i.pending.Pairwise (fun p q => ∀ c ∈ p.skolemClauses symbol, ∀ d ∈ q.skolemClauses symbol,
        ∀ v ∈ c.flatMap Literal.vars, v ∉ d.flatMap Literal.vars) ∧
      (∀ p ∈ i.pending, (p.prenex.binders.map Binder.var).Nodup) ∧
      ((i.pending.flatMap PendingFormula.existentials).map symbol).Nodup ∧
      ∀ v ∈ i.pending.flatMap PendingFormula.existentials,
        ∀ f ∈ calls.filterMap Call.formula?, symbol v ∉ f.symbols) ∧
    (∀ (stem : String) (supply : SkolemSupply), ∃ k ≤ supply.reserved.length,
      ∃ name, name = stem ++ toString (supply.next + k) ∧ name ∉ supply.reserved ∧
        (∀ j < k, stem ++ toString (supply.next + j) ∈ supply.reserved) ∧
        supply.take stem =
          (name, { next := supply.next + k + 1, reserved := name :: supply.reserved })) ∧
    ∀ (v : String) (taken : List String), ∃ k ≤ taken.length,
      Formula.freshVariant v taken = v ++ toString (k + 1) ∧ Formula.freshVariant v taken ∉ taken ∧
        ∀ j < k, v ++ toString (j + 1) ∈ taken := by
  refine ⟨?_, SkolemSupply.exists_take_eq, Formula.exists_freshVariant_spec⟩
  have hphase := hcalls ▸ Attempt.phase_afterCalls settings calls
  cases hphase with
  | started hnot _ _ => exact absurd rfl (hnot i)
  | collecting hcollects _ _ =>
    have hpending : i.pending ≠ [] := by
      intro hnil
      rw [← hcollects.formulas, hnil] at hne
      exact hne rfl
    obtain ⟨cs, hcs⟩ := Intake.exists_clausesFrom_eq i.pending i.supply
    have hnumbers : (i.pending.map PendingFormula.number).Nodup :=
      hcollects.numbers.imp fun hlt => Nat.ne_of_lt hlt
    obtain ⟨symbol, supply', hliterals, htaken⟩ := Intake.exists_symbol_clausesFrom hnumbers hcs
    refine ⟨_, symbol, Intake.start_eq hcs (Intake.clausesFrom_ne_nil hpending hcs),
      hcollects.formulas, (Search.literals_initial _ cs).trans hliterals, ?_,
      fun p _ => p.nodup_binders_prenex,
      htaken.nodup, ?_⟩
    · refine (List.pairwise_map.mp hnumbers).imp fun {p q} hpq c hc d hd v hv hv' => ?_
      obtain ⟨w, rfl⟩ := PendingFormula.exists_of_mem_vars_skolemClauses hc hv
      obtain ⟨w', heq⟩ := PendingFormula.exists_of_mem_vars_skolemClauses hd hv'
      exact hpq (Prenex.index_eq_of_indexedName_eq heq)
    · intro v hv f hf hmem
      rw [← hcollects.formulas] at hf
      obtain ⟨p, hp, rfl⟩ := List.mem_map.mp hf
      exact htaken.fresh v hv (hcollects.symbols p hp hmem)

lemma toPrenex_serialR : serialR.toPrenex =
    { binders := [⟨.universal, "x"⟩, ⟨.existential, "y"⟩]
      matrix := .atom { predicate := "R", args := [.var "x", .var "y"], positive := true } } := by
  change (serialR.pullQuantifiers []).1 = _
  simp [Formula.pullQuantifiers, serialR]

/-- The text `∀x ∃y R(x, y)` given twice makes two formulas, each with variables and a Skolem
function of its own. -/
theorem exists_symbol_start_serialR :
    ∃ (i : Intake) (s : Search) (symbol : String → String),
      Attempt.afterCalls .standard [.add "∀x ∃y R(x, y)" .input, .add "∀x ∃y R(x, y)" .input] =
        .collecting i ∧
      i.start = .ok s ∧
      s.registry.clauses.toList.map Clause.literals =
        [[⟨"R", [.var "x_1", .app (symbol "y_1") [.var "x_1"]], true⟩],
          [⟨"R", [.var "x_2", .app (symbol "y_2") [.var "x_2"]], true⟩]] ∧
      symbol "y_1" ≠ symbol "y_2" := by
  have hcalls : Attempt.afterCalls .standard
      [.add "∀x ∃y R(x, y)" .input, .add "∀x ∃y R(x, y)" .input] = .collecting
        { settings := .standard
          supply := (SkolemSupply.initial.reserve serialR).reserve serialR
          pending := [⟨1, "∀x ∃y R(x, y)", .input, serialR⟩, ⟨2, "∀x ∃y R(x, y)", .input, serialR⟩]
          count := 2 } := by
    simp only [Attempt.afterCalls, Attempt.new, List.foldl_cons, List.foldl_nil, Attempt.call,
      Attempt.add, Intake.add_of_readFormula? _ readFormula?_serialR]
    rfl
  have hne :
      [Call.add "∀x ∃y R(x, y)" .input, .add "∀x ∃y R(x, y)" .input].filterMap Call.formula? ≠
      [] := by
    rw [List.filterMap_cons, Call.formula?, readFormula?_serialR]
    exact List.cons_ne_nil _ _
  obtain ⟨⟨s, symbol, hstart, -, hliterals, -, -, hnodup, -⟩, -⟩ := exists_symbol_start hcalls hne
  refine ⟨_, s, symbol, hcalls, hstart, hliterals.trans ?_, ?_⟩
  · simp only [List.flatMap_cons, List.flatMap_nil, PendingFormula.skolemClauses,
      PendingFormula.prenex, toPrenex_serialR]
    rfl
  · simp only [List.flatMap_cons, List.flatMap_nil, PendingFormula.existentials,
      PendingFormula.prenex, toPrenex_serialR] at hnodup
    have hpair : [symbol "y_1", symbol "y_2"].Nodup := hnodup
    exact fun heq => (List.nodup_cons.mp hpair).1 (List.mem_singleton.mpr heq)

end Clausal
