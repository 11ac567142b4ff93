import Clausal.Proofs.Lifting
import Clausal.Proofs.Subsumption

/-!
# Variants of clauses

Two clauses are variants if their literals are the same up to the names of variables: a replacement
takes the literals of the first to those of the second, and another one takes them back.  A clause
subsumes its variants in full, and a variant of a tautology is a tautology.

The resolvents of variants are variants.  Clauses that are resolved have no variables in common, so
that one replacement takes both of them to their variants and one takes both back.  The replacement
back, followed by the unifier of two literals, makes the literals that correspond to them
complementary, hence these have a unifier too, and as both unifiers are most general, each absorbs
what leads to the other.  It does not matter which of the two clauses comes first.
-/

namespace Clausal

/-! ## Lists of literals -/

/-- Two replacements take the literals of two lists to each other and back. -/
structure VariantBy (σ τ : String → Term) (ls ms : List Literal) : Prop where
  there : ∀ l ∈ ls, l.subst σ ∈ ms ∧ (l.subst σ).subst τ = l
  back : ∀ m ∈ ms, m.subst τ ∈ ls ∧ (m.subst τ).subst σ = m

namespace VariantBy

variable {σ τ σ' τ' : String → Term} {ls ms ks ls' ms' : List Literal}

lemma symm (h : VariantBy σ τ ls ms) : VariantBy τ σ ms ls :=
  ⟨h.back, h.there⟩

/-- Lists with the same literals are variants. -/
lemma of_forall_mem_iff (h : ∀ l, l ∈ ls ↔ l ∈ ms) : VariantBy Term.var Term.var ls ms := by
  have hself : ∀ l : Literal, l.subst Term.var = l := fun l => Literal.subst_eq_self fun _ _ => rfl
  constructor
  · intro l hl
    rw [hself, hself]
    exact ⟨(h l).mp hl, rfl⟩
  · intro m hm
    rw [hself, hself]
    exact ⟨(h m).mpr hm, rfl⟩

/-- Replacements one after the other lead from one variant to the next. -/
lemma trans (h : VariantBy σ τ ls ms) (h' : VariantBy σ' τ' ms ks) :
    VariantBy (fun v => (σ v).subst σ') (fun v => (τ' v).subst τ) ls ks := by
  constructor
  · intro l hl
    obtain ⟨hmem, hback⟩ := h.there l hl
    obtain ⟨hmem', hback'⟩ := h'.there _ hmem
    rw [← Literal.subst_subst, ← Literal.subst_subst, hback', hback]
    exact ⟨hmem', rfl⟩
  · intro k hk
    obtain ⟨hmem', hthere'⟩ := h'.back k hk
    obtain ⟨hmem, hthere⟩ := h.back _ hmem'
    rw [← Literal.subst_subst, ← Literal.subst_subst, hthere, hthere']
    exact ⟨hmem, rfl⟩

/-- What replacements do to variants depends on their variables only. -/
lemma congr (h : VariantBy σ τ ls ms) (hσ : ∀ l ∈ ls, l.subst σ' = l.subst σ)
    (hτ : ∀ m ∈ ms, m.subst τ' = m.subst τ) : VariantBy σ' τ' ls ms := by
  constructor
  · intro l hl
    obtain ⟨hmem, hback⟩ := h.there l hl
    rw [hσ l hl, hτ _ hmem]
    exact ⟨hmem, hback⟩
  · intro m hm
    obtain ⟨hmem, hthere⟩ := h.back m hm
    rw [hτ m hm, hσ _ hmem]
    exact ⟨hmem, hthere⟩

lemma append (h : VariantBy σ τ ls ms) (h' : VariantBy σ τ ls' ms') :
    VariantBy σ τ (ls ++ ls') (ms ++ ms') := by
  constructor
  · intro l hl
    rcases List.mem_append.mp hl with hl | hl
    · exact ⟨List.mem_append_left _ (h.there l hl).1, (h.there l hl).2⟩
    · exact ⟨List.mem_append_right _ (h'.there l hl).1, (h'.there l hl).2⟩
  · intro m hm
    rcases List.mem_append.mp hm with hm | hm
    · exact ⟨List.mem_append_left _ (h.back m hm).1, (h.back m hm).2⟩
    · exact ⟨List.mem_append_right _ (h'.back m hm).1, (h'.back m hm).2⟩

/-- Different literals of a list have different instances. -/
lemma subst_injOn (h : VariantBy σ τ ls ms) {l l' : Literal} (hl : l ∈ ls) (hl' : l' ∈ ls)
    (heq : l.subst σ = l'.subst σ) : l = l' := by
  rw [← (h.there l hl).2, heq, (h.there l' hl').2]

/-- The instances of the literals of a list are distinct if the literals are. -/
lemma nodup_map (h : VariantBy σ τ ls ms) (hls : ls.Nodup) : (ls.map (Literal.subst σ)).Nodup :=
  hls.map_on fun _ hl _ hl' heq => h.subst_injOn hl hl' heq

/-- Variants stay variants when literals are taken away that correspond to each other. -/
lemma eraseIdx (h : VariantBy σ τ ls ms) (hls : ls.Nodup) (hms : ms.Nodup) {i j : ℕ} {l : Literal}
    (hl : ls[i]? = some l) (hm : ms[j]? = some (l.subst σ)) :
    VariantBy σ τ (ls.eraseIdx i) (ms.eraseIdx j) := by
  -- of two lists without repetition, what is left is what differs from the literal taken away
  have key : ∀ {σ τ : String → Term} {ls ms : List Literal} {i j : ℕ} {l : Literal},
      VariantBy σ τ ls ms → ls.Nodup → ls[i]? = some l → ms[j]? = some (l.subst σ) →
      ∀ x ∈ ls.eraseIdx i, x.subst σ ∈ ms.eraseIdx j ∧ (x.subst σ).subst τ = x := by
    intro σ τ ls ms i j l h hls hl hm x hx
    have hxls := List.mem_of_mem_eraseIdx hx
    obtain ⟨hmem, hback⟩ := h.there x hxls
    refine ⟨(eq_or_mem_eraseIdx hm hmem).resolve_left fun heq => ?_, hback⟩
    obtain ⟨k, hki, hk⟩ := List.mem_eraseIdx_iff_getElem?.mp hx
    rw [h.subst_injOn hxls (List.mem_of_getElem? hl) heq] at hk
    exact hki ((List.getElem?_inj (List.getElem?_eq_some_iff.mp hk).1 hls).mp (hk.trans hl.symm))
  have hback := (h.there l (List.mem_of_getElem? hl)).2
  exact ⟨key h hls hl hm, key h.symm hms hm (hback.symm ▸ hl)⟩

/-- If two lists have no variables in common, and their variants neither, then one pair of
replacements does what two pairs do. -/
lemma exists_joint (h : VariantBy σ τ ls ms) (h' : VariantBy σ' τ' ls' ms')
    (hapart : ∀ v ∈ ls.flatMap Literal.vars, v ∉ ls'.flatMap Literal.vars)
    (hapart' : ∀ v ∈ ms.flatMap Literal.vars, v ∉ ms'.flatMap Literal.vars) :
    ∃ θ η, VariantBy θ η ls ms ∧ VariantBy θ η ls' ms' := by
  -- the first replacement on the variables of the first list, the second one elsewhere
  have key : ∀ {ls ls' : List Literal} (σ σ' : String → Term),
      (∀ v ∈ ls.flatMap Literal.vars, v ∉ ls'.flatMap Literal.vars) →
      ∃ θ : String → Term, (∀ l ∈ ls, l.subst θ = l.subst σ) ∧
        ∀ l ∈ ls', l.subst θ = l.subst σ' := by
    intro ls ls' σ σ' hapart
    refine ⟨fun v => if v ∈ ls.flatMap Literal.vars then σ v else σ' v, fun l hl => ?_,
      fun l hl => ?_⟩
    · exact Literal.subst_congr fun v hv => if_pos (List.mem_flatMap.mpr ⟨l, hl, hv⟩)
    · refine Literal.subst_congr fun v hv => if_neg fun hmem => ?_
      exact hapart v hmem (List.mem_flatMap.mpr ⟨l, hl, hv⟩)
  obtain ⟨θ, hθ, hθ'⟩ := key σ σ' hapart
  obtain ⟨η, hη, hη'⟩ := key τ τ' hapart'
  exact ⟨θ, η, h.congr hθ hη, h'.congr hθ' hη'⟩

/-- Applying unifiers to variants gives variants, if each unifier absorbs the replacement that leads
to the other. -/
lemma applyLiteral {u w : Substitution} (h : VariantBy σ τ ls ms)
    (hu : ∀ v, (u.value v).subst (fun v => (σ v).subst w.value) = (σ v).subst w.value)
    (hw : ∀ v, (w.value v).subst (fun v => (τ v).subst u.value) = (τ v).subst u.value) :
    VariantBy (fun v => (σ v).subst w.value) (fun v => (τ v).subst u.value)
      (ls.map u.applyLiteral) (ms.map w.applyLiteral) := by
  have key : ∀ {σ τ : String → Term} {ls ms : List Literal} {u w : Substitution},
      VariantBy σ τ ls ms →
      (∀ v, (u.value v).subst (fun v => (σ v).subst w.value) = (σ v).subst w.value) →
      (∀ v, (w.value v).subst (fun v => (τ v).subst u.value) = (τ v).subst u.value) →
      ∀ x ∈ ls.map u.applyLiteral, x.subst (fun v => (σ v).subst w.value) ∈ ms.map w.applyLiteral ∧
        (x.subst fun v => (σ v).subst w.value).subst (fun v => (τ v).subst u.value) = x := by
    intro σ τ ls ms u w h hu hw x hx
    obtain ⟨l, hl, rfl⟩ := List.mem_map.mp hx
    obtain ⟨hmem, hback⟩ := h.there l hl
    rw [Literal.subst_applyLiteral hu, ← Literal.subst_subst]
    refine ⟨List.mem_map_of_mem hmem, ?_⟩
    calc (w.applyLiteral (l.subst σ)).subst (fun v => (τ v).subst u.value)
        = (l.subst σ).subst (fun v => (τ v).subst u.value) := Literal.subst_applyLiteral hw _
      _ = ((l.subst σ).subst τ).subst u.value := (Literal.subst_subst _ _ _).symm
      _ = u.applyLiteral l := by rw [hback, Substitution.applyLiteral]
  exact ⟨key h hu hw, key h.symm hw hu⟩

end VariantBy

/-! ## Clauses -/

namespace Clause

variable {c d e : Clause}

/-- Two clauses have the same literals up to the names of variables. -/
def Variant (c d : Clause) : Prop :=
  ∃ σ τ, VariantBy σ τ c.literals d.literals

lemma Variant.symm : c.Variant d → d.Variant c :=
  fun ⟨σ, τ, h⟩ => ⟨τ, σ, h.symm⟩

lemma Variant.trans : c.Variant d → d.Variant e → c.Variant e :=
  fun ⟨_, _, h⟩ ⟨_, _, h'⟩ => ⟨_, _, h.trans h'⟩

/-- Clauses with the same literals are variants. -/
lemma Variant.of_forall_mem_iff (h : ∀ l, l ∈ c.literals ↔ l ∈ d.literals) : c.Variant d :=
  ⟨_, _, .of_forall_mem_iff h⟩

/-- A clause is empty if a variant of it is. -/
lemma Variant.isEmpty (h : c.Variant d) (hc : c.isEmpty = true) : d.isEmpty = true := by
  obtain ⟨σ, τ, h⟩ := h
  have hnil : c.literals = [] := List.isEmpty_iff.mp hc
  refine List.isEmpty_iff.mpr (List.eq_nil_iff_forall_not_mem.mpr fun m hm => ?_)
  have hmem := (h.back m hm).1
  rw [hnil] at hmem
  exact List.not_mem_nil hmem

/-- A variant of a tautology is a tautology. -/
lemma Variant.isTautology (h : c.Variant d) (hc : c.isTautology = true) : d.isTautology = true := by
  obtain ⟨σ, τ, h⟩ := h
  obtain ⟨l, hl, hcomplement⟩ := isTautology_iff.mp hc
  exact isTautology_iff.mpr ⟨l.subst σ, (h.there l hl).1, (h.there _ hcomplement).1⟩

/-- A clause subsumes its variants in full. -/
lemma Variant.subsumes (h : c.Variant d) (hc : c.literals.Nodup) : c.subsumes d = true := by
  obtain ⟨σ, τ, h⟩ := h
  refine subsumes_of_subperm (σ := σ) ((h.nodup_map hc).subperm fun m hm => ?_)
  obtain ⟨l, hl, rfl⟩ := List.mem_map.mp hm
  exact (h.there l hl).1

/-- A clause that subsumes another exactly, and has no literal twice, is a variant of it. -/
lemma Variant.of_sameLiterals (hc : c.literals.Nodup) (h : c.sameLiterals d = true) :
    c.Variant d := by
  obtain ⟨hlength, hall⟩ := Bool.and_eq_true_iff.mp h
  have hsubset : c.literals ⊆ d.literals :=
    fun l hl => List.contains_iff_mem.mp (List.all_eq_true.mp hall l hl)
  have hperm : c.literals.Perm d.literals :=
    (hc.subperm hsubset).perm_of_length_le (Nat.le_of_eq (beq_iff_eq.mp hlength).symm)
  exact .of_forall_mem_iff fun _ => hperm.mem_iff

/-- Renames every variable of a clause at once. -/
def rename (ρ : String → String) (c : Clause) : Clause :=
  { c with literals := c.literals.map (Literal.rename ρ) }

/-- A variable of a renamed clause is the new name of a variable of the clause. -/
lemma exists_of_mem_vars_rename {ρ : String → String} {w : String} (hw : w ∈ (c.rename ρ).vars) :
    ∃ v ∈ c.vars, ρ v = w := by
  obtain ⟨l', hl', hw⟩ := List.mem_flatMap.mp hw
  obtain ⟨l, hl, rfl⟩ := List.mem_map.mp hl'
  obtain ⟨t', ht', hw⟩ := List.mem_flatMap.mp hw
  obtain ⟨t, ht, rfl⟩ := List.mem_map.mp ht'
  obtain ⟨v, hv, hwv⟩ := Term.mem_vars_subst.mp hw
  have hmem : v ∈ c.vars := List.mem_flatMap.mpr ⟨l, hl, List.mem_flatMap.mpr ⟨t, ht, hv⟩⟩
  exact ⟨v, hmem, (List.mem_singleton.mp hwv).symm⟩

/-- A replacement takes a clause renamed apart back to the clause. -/
lemma exists_subst_rename_eq (c : Clause) (id : ℕ) (other : Clause) :
    ∃ θ : String → Term, ∀ l ∈ c.literals, (l.rename (c.apartRenaming id other)).subst θ = l := by
  obtain ⟨θ, -, hθ⟩ := exists_joined c other id Term.var Term.var
  refine ⟨θ, fun l hl => ?_⟩
  rw [Literal.rename, Literal.subst_subst]
  exact Literal.subst_eq_self fun v hv => hθ v (List.mem_flatMap.mpr ⟨l, hl, hv⟩)

/-- A clause renamed apart is a variant of the clause. -/
lemma variant_renameApart (c : Clause) (id : ℕ) (other : Clause) :
    c.Variant (c.renameApart id other) := by
  obtain ⟨θ, hback⟩ := c.exists_subst_rename_eq id other
  refine ⟨fun v => .var (c.apartRenaming id other v), θ, fun l hl => ?_, fun m hm => ?_⟩
  · exact ⟨List.mem_map_of_mem hl, hback l hl⟩
  · obtain ⟨l, hl, rfl⟩ := List.mem_map.mp hm
    rw [hback l hl]
    exact ⟨hl, rfl⟩

/-- A clause renamed apart has each literal once if the clause has. -/
lemma nodup_renameApart (hc : c.literals.Nodup) (id : ℕ) (other : Clause) :
    (c.renameApart id other).literals.Nodup := by
  obtain ⟨θ, hback⟩ := c.exists_subst_rename_eq id other
  refine hc.map_on fun l hl l' hl' heq => ?_
  rw [← hback l hl, heq, hback l' hl']

/-- A clause renamed apart shares no variable with the other clause. -/
lemma notMem_vars_renameApart {id : ℕ} {v : String} (hv : v ∈ (c.renameApart id d).vars) :
    v ∉ d.vars := by
  obtain ⟨w, hw, rfl⟩ := exists_of_mem_vars_rename hv
  exact apartRenaming_notMem hw

end Clause

/-! ## Unifiers of complementary literals -/

/-- A unifier makes two literals complementary, and every replacement that does so absorbs it. -/
structure Substitution.Cuts (u : Substitution) (l m : Literal) : Prop where
  complementary : l.subst u.value = (m.subst u.value).complement
  absorbed : ∀ δ : String → Term, l.subst δ = (m.subst δ).complement →
    ∀ v, (u.value v).subst δ = δ v

/-- The order of the two literals does not matter. -/
lemma Substitution.Cuts.symm {u : Substitution} {l m : Literal} (h : u.Cuts l m) : u.Cuts m l where
  complementary := by rw [h.complementary, Literal.complement_complement]
  absorbed δ hδ := h.absorbed δ (by rw [hδ, Literal.complement_complement])

/-- Unification of the arguments of opposite literals makes the literals complementary in the most
general way. -/
lemma cuts_of_unify {l m : Literal} {u : Substitution} (hopposes : l.opposes m = true)
    (hunify : unify l.args m.args = .ok u) : u.Cuts l m where
  complementary := Literal.subst_eq_complement_of_opposes hopposes (map_subst_value_of_unify hunify)
  absorbed δ hδ := by
    obtain ⟨w, hw, habsorbs⟩ := exists_unify_eq_ok (congrArg Literal.args hδ)
    rw [← Except.ok.inj (hw.symm.trans hunify)]
    exact habsorbs

/-- Literals that some replacement makes complementary have such a unifier. -/
lemma exists_unify_cuts {l m : Literal} {δ : String → Term}
    (h : l.subst δ = (m.subst δ).complement) :
    l.opposes m = true ∧ ∃ u, unify l.args m.args = .ok u ∧ u.Cuts l m := by
  have hopposes := Literal.opposes_of_subst_eq_complement h
  obtain ⟨u, hunify, -⟩ := exists_unify_eq_ok (congrArg Literal.args h)
  exact ⟨hopposes, u, hunify, cuts_of_unify hopposes hunify⟩

/-! ## Resolvents of variants -/

namespace ParentPair

variable {p q : ParentPair} {step : ℕ}

/-- If two lists of literals are variants of the clauses of a pair, by the same replacements, then
what is left of the lists when they are resolved on two literals is a variant of a resolvent of the
pair. -/
lemma exists_resolvent_variantBy {θ η : String → Term} {ls ms : List Literal} {i j : ℕ}
    {l m : Literal} {u : Substitution} (hleft : VariantBy θ η ls q.left.literals)
    (hright : VariantBy θ η ms q.apart.literals) (hls : ls.Nodup) (hms : ms.Nodup)
    (hqleft : q.left.literals.Nodup) (hqright : q.apart.literals.Nodup) (hl : ls[i]? = some l)
    (hm : ms[j]? = some m) (hu : u.Cuts l m) (step : ℕ) :
    ∃ res ∈ q.resolvents step, ∃ σ τ,
      VariantBy σ τ ((ls.eraseIdx i ++ ms.eraseIdx j).map u.applyLiteral) res.clause.literals := by
  obtain ⟨hlmem, hlback⟩ := hleft.there l (List.mem_of_getElem? hl)
  obtain ⟨hmmem, hmback⟩ := hright.there m (List.mem_of_getElem? hm)
  obtain ⟨i', hl'⟩ := List.mem_iff_getElem?.mp hlmem
  obtain ⟨j', hm'⟩ := List.mem_iff_getElem?.mp hmmem
  -- the way back, followed by the unifier, makes the literals of the pair complementary
  have hcut : (l.subst θ).subst (fun v => (η v).subst u.value) =
      ((m.subst θ).subst fun v => (η v).subst u.value).complement := by
    rw [← Literal.subst_subst, ← Literal.subst_subst, hlback, hmback]
    exact hu.complementary
  obtain ⟨hopposes, w, hunify, hw⟩ := exists_unify_cuts hcut
  -- and the way there, followed by the unifier found, makes the given literals complementary
  have hcut' : (l.subst fun v => (θ v).subst w.value) =
      (m.subst fun v => (θ v).subst w.value).complement := by
    rw [← Literal.subst_subst, ← Literal.subst_subst]
    exact hw.complementary
  have hrest := (hleft.eraseIdx hls hqleft hl hl').append (hright.eraseIdx hms hqright hm hm')
  have hvariant := hrest.applyLiteral (hu.absorbed _ hcut') (hw.absorbed _ hcut)
  have hresolves : q.ResolvesAt i' j' (l.subst θ) (m.subst θ) w := ⟨hl', hm', hopposes, hunify⟩
  exact ⟨_, mem_resolvents_iff.mpr ⟨i', j', _, _, w, hresolves, rfl⟩, _, _,
    hvariant.trans (.of_forall_mem_iff fun _ => Clause.mem_literals_ofLiterals.symm)⟩

/-- The clauses of two pairs are variants of each other, in the same order or in the other one. -/
def Variants (p q : ParentPair) : Prop :=
  p.left.Variant q.left ∧ p.right.Variant q.right ∨ p.left.Variant q.right ∧ p.right.Variant q.left

/-- Pairs of variants have variants as resolvents. -/
lemma exists_variant_of_mem_resolvents (h : p.Variants q) (hpleft : p.left.literals.Nodup)
    (hpright : p.right.literals.Nodup) (hqleft : q.left.literals.Nodup)
    (hqright : q.right.literals.Nodup) {res : Resolvent} (hres : res ∈ p.resolvents step)
    (step' : ℕ) : ∃ res' ∈ q.resolvents step', res.clause.Variant res'.clause := by
  obtain ⟨i, j, l, m, u, hresolves, rfl⟩ := mem_resolvents_iff.mp hres
  have hu := cuts_of_unify hresolves.opposes hresolves.unify
  have hpapart : p.apart.literals.Nodup := Clause.nodup_renameApart hpright _ _
  have hqapart : q.apart.literals.Nodup := Clause.nodup_renameApart hqright _ _
  have hpvariant : p.apart.Variant p.right := (p.right.variant_renameApart _ _).symm
  have hqvariant : q.right.Variant q.apart := q.right.variant_renameApart _ _
  have hdisjoint : ∀ p : ParentPair, ∀ v ∈ p.apart.vars, v ∉ p.left.vars :=
    fun p v hv => Clause.notMem_vars_renameApart hv
  rcases h with ⟨⟨σ, τ, hleft⟩, hright⟩ | ⟨hleft, ⟨σ, τ, hright⟩⟩
  · obtain ⟨σ', τ', hright⟩ := (hpvariant.trans hright).trans hqvariant
    obtain ⟨θ, η, hleft, hright⟩ := hleft.exists_joint hright
      (fun v hv hv' => hdisjoint p v hv' hv) (fun v hv hv' => hdisjoint q v hv' hv)
    obtain ⟨res', hres', σ, τ, hvariant⟩ := exists_resolvent_variantBy hleft hright hpleft hpapart
      hqleft hqapart hresolves.left hresolves.right hu step'
    refine ⟨res', hres', _, _, .trans (.of_forall_mem_iff fun x => ?_) hvariant⟩
    rw [Clause.mem_literals_ofLiterals, remainder]
  · obtain ⟨σ', τ', hleft⟩ := hleft.trans hqvariant
    obtain ⟨σ'', τ'', hright⟩ := hpvariant.trans ⟨σ, τ, hright⟩
    obtain ⟨θ, η, hright, hleft⟩ := hright.exists_joint hleft (hdisjoint p)
      (fun v hv hv' => hdisjoint q v hv' hv)
    obtain ⟨res', hres', σ, τ, hvariant⟩ := exists_resolvent_variantBy hright hleft hpapart hpleft
      hqleft hqapart hresolves.right hresolves.left hu.symm step'
    refine ⟨res', hres', _, _, .trans (.of_forall_mem_iff fun x => ?_) hvariant⟩
    rw [Clause.mem_literals_ofLiterals, remainder, List.map_append, List.map_append,
      List.mem_append, List.mem_append, or_comm]

end ParentPair

end Clausal
