import Clausal.Proofs.Variants

/-!
# Clauses renamed apart

A clause that is renamed apart from another gets new names for the variables that the two share.
The search for a name goes through candidates until one is free.  As the candidates are all
different and only finitely many names are taken, it ends, and a name that was found is taken for
the variables that follow.

Hence the new names differ from each other and from every name of the two clauses.  So the clause
has no variable of the other one, its variables stay as many as they were, and those that the other
clause does not have keep their names.  Such a renaming can be undone, and it makes no two literals
equal.
-/

namespace Clausal

variable {candidate : ℕ → String} {taken : List String} {k : ℕ}

/-! ## The search for names -/

/-- The search passes over a candidate only if it is taken. -/
lemma candidate_mem_of_lt_freshIndex (h : k < freshIndex candidate taken) : candidate k ∈ taken :=
  candidate_mem_of_lt_freshIndexFrom (Nat.zero_le k) h

/-- The search finds the first candidate that is free. -/
lemma eq_freshIndex (hinj : ∀ i j, candidate i = candidate j → i = j)
    (htaken : ∀ j < k, candidate j ∈ taken) (hfree : candidate k ∉ taken) :
    k = freshIndex candidate taken := by
  rcases Nat.lt_trichotomy k (freshIndex candidate taken) with hlt | heq | hgt
  · exact absurd (candidate_mem_of_lt_freshIndex hlt) hfree
  · exact heq
  · exact absurd (htaken _ hgt) (freshName_not_mem hinj taken)

namespace Clause

/-- The names that are found for variables, one after the other.  Each variable gets the first of
its candidates that is free, and the name is taken from then on. -/
inductive FindsNames (id : ℕ) : List String → List String → List (String × String) → Prop where
  | nil {taken : List String} : FindsNames id [] taken []
  | cons {v : String} {vs taken : List String} {k : ℕ} {names : List (String × String)}
      (htaken : ∀ j < k, apartCandidate id v j ∈ taken) (hfree : apartCandidate id v k ∉ taken)
      (hrest : FindsNames id vs (apartCandidate id v k :: taken) names) :
      FindsNames id (v :: vs) taken ((v, apartCandidate id v k) :: names)

variable {id : ℕ} {vs : List String} {names : List (String × String)}

/-- Names are found for all variables, whatever names are taken, and they are the ones that the
clause gets. -/
lemma findsNames_iff : FindsNames id vs taken names ↔ names = apartNames id vs taken := by
  constructor
  · intro h
    induction h with
    | nil => rfl
    | cons htaken hfree _ ih =>
      rw [apartNames, freshName,
        ← eq_freshIndex (fun _ _ => apartCandidate_injective) htaken hfree, ih]
  · rintro rfl
    induction vs generalizing taken with
    | nil => exact .nil
    | cons v vs ih =>
      apply FindsNames.cons
      · exact fun j hj => candidate_mem_of_lt_freshIndex hj
      · exact freshName_not_mem (fun _ _ => apartCandidate_injective) taken
      · exact ih

/-! ## Renaming and undoing it -/

variable {ρ ρ' : String → String} {c : Clause}

/-- Renaming and giving the old names back leaves the clause as it was. -/
lemma rename_rename_eq_self (h : ∀ v ∈ c.vars, ρ' (ρ v) = v) : (c.rename ρ).rename ρ' = c := by
  have hliterals : (c.literals.map (Literal.rename ρ)).map (Literal.rename ρ') =
      c.literals.map fun l => l := by
    rw [List.map_map]
    refine List.map_congr_left fun l hl => ?_
    rw [Function.comp_apply, Literal.rename, Literal.rename, Literal.subst_subst]
    exact Literal.subst_eq_self fun v hv =>
      congrArg Term.var (h v (List.mem_flatMap.mpr ⟨l, hl, hv⟩))
  rw [rename, rename, hliterals, List.map_id']

/-- Names that stay apart can be given back, and stay apart then too. -/
lemma exists_rename_rename_eq_self (h : Set.InjOn ρ {v | v ∈ c.vars}) :
    ∃ ρ', Set.InjOn ρ' {w | w ∈ (c.rename ρ).vars} ∧ (c.rename ρ).rename ρ' = c := by
  have hback := h.leftInvOn_invFunOn
  refine ⟨Function.invFunOn ρ {v | v ∈ c.vars}, ?_, rename_rename_eq_self hback⟩
  intro w hw w' hw' heq
  obtain ⟨v, hv, rfl⟩ := exists_of_mem_vars_rename hw
  obtain ⟨v', hv', rfl⟩ := exists_of_mem_vars_rename hw'
  rw [hback hv, hback hv'] at heq
  rw [heq]

/-- The search for new names ends, and the names found make a clause a variant of itself that shares
no variable with the other clause: different variables get different names, those that the other
clause does not have keep theirs, the names can be given back, and no two literals become equal. -/
theorem renameApart_isRenaming (c : Clause) (id : ℕ) (d : Clause) :
    (∀ names, FindsNames id (c.sharedVariables d) (d.vars ++ c.vars) names ↔
        names = apartNames id (c.sharedVariables d) (d.vars ++ c.vars)) ∧
      (∀ v ∈ (c.renameApart id d).vars, v ∉ d.vars) ∧
      c.renameApart id d = c.rename (c.apartRenaming id d) ∧
      Set.InjOn (c.apartRenaming id d) {v | v ∈ c.vars} ∧
      (∀ v, v ∉ d.vars → c.apartRenaming id d v = v) ∧
      (∃ ρ, Set.InjOn ρ {v | v ∈ (c.renameApart id d).vars} ∧ (c.renameApart id d).rename ρ = c) ∧
      (c.literals.Nodup → (c.renameApart id d).literals.Nodup) := by
  have hinjective : Set.InjOn (c.apartRenaming id d) {v | v ∈ c.vars} :=
    fun v hv w hw heq => apartRenaming_injOn hv hw heq
  refine ⟨fun names => findsNames_iff, fun v hv => notMem_vars_renameApart hv, rfl, hinjective,
    fun v hv => ?_, exists_rename_rename_eq_self hinjective, fun hc => nodup_renameApart hc id d⟩
  exact apartRenaming_of_notMem fun hshared => hv (mem_sharedVariables.mp hshared).2

/-- The clause `P(x) ∨ Q(x_c5, y)`. -/
def overXY : Clause :=
  .ofLiterals [⟨"P", [.var "x"], true⟩, ⟨"Q", [.var "x_c5", .var "y"], true⟩] (.given .input)

/-- The clause `R(x, x_c5, x_c5_1)`. -/
def overTaken : Clause :=
  .ofLiterals [⟨"R", [.var "x", .var "x_c5", .var "x_c5_1"], true⟩] (.given .input)

/-- Of the names tried for `x`, the first is taken by both clauses and the second by the other
one. -/
lemma literals_renameApart_overXY : (overXY.renameApart 5 overTaken).literals =
    [⟨"P", [.var "x_c5_2"], true⟩, ⟨"Q", [.var "x_c5_c5", .var "y"], true⟩] := by
  have hfilter : overXY.vars.eraseDups.filter (overTaken.vars.contains ·) =
      ["x", "x_c5"] := by decide
  have hshared : overXY.sharedVariables overTaken = ["x", "x_c5"] := by
    rw [sharedVariables, hfilter]
    exact List.mergeSort_of_pairwise (by decide)
  have hnames : apartNames 5 (overXY.sharedVariables overTaken) (overTaken.vars ++ overXY.vars) =
      [("x", "x_c5_2"), ("x_c5", "x_c5_c5")] := by
    rw [hshared]
    decide
  have hrenaming : overXY.apartRenaming 5 overTaken =
      fun v => ([("x", "x_c5_2"), ("x_c5", "x_c5_c5")].lookup v).getD v := by
    funext v
    rw [apartRenaming, hnames]
  rw [renameApart, hrenaming]
  decide

/-- Renamed apart from `R(x, x_c5, x_c5_1)`, the clause `P(x) ∨ Q(x_c5, y)` becomes
`P(x_c5_2) ∨ Q(x_c5_c5, y)`. -/
theorem renameApart_overXY_overTaken :
    (overXY.renameApart 5 overTaken).literals =
        [⟨"P", [.var "x_c5_2"], true⟩, ⟨"Q", [.var "x_c5_c5", .var "y"], true⟩] ∧
      ("x_c5_2" ∈ (overXY.renameApart 5 overTaken).vars ∧ "x_c5_2" ∉ overTaken.vars) ∧
      ("y" ∉ overTaken.vars ∧ overXY.apartRenaming 5 overTaken "y" = "y") ∧
      overXY.literals.Nodup ∧ (overXY.renameApart 5 overTaken).literals.Nodup := by
  obtain ⟨-, hapart, -, -, hkept, -, hnodup⟩ := renameApart_isRenaming overXY 5 overTaken
  have hx : "x_c5_2" ∈ (overXY.renameApart 5 overTaken).vars := by
    rw [vars, literals_renameApart_overXY]
    decide
  have hy : "y" ∉ overTaken.vars := by decide
  have hliterals : overXY.literals.Nodup := by decide
  exact ⟨literals_renameApart_overXY, ⟨hx, hapart _ hx⟩, ⟨hy, hkept _ hy⟩, hliterals,
    hnodup hliterals⟩

end Clause

end Clausal
