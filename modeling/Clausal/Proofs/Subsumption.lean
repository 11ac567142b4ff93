import Clausal.Proofs.MatchTrails
import Clausal.Semantics
import Mathlib.Data.List.FinRange
import Mathlib.Data.List.Perm.Subperm

/-!
# What subsumption says

A replacement agrees with bindings when it gives each bound variable the term bound to it.  If a
match succeeds, then every replacement that agrees with the bindings made turns the pattern into the
target.  Hence a clause that subsumes another in full has an instance whose literals are literals of
the other, at distinct places.  Conversely, a pattern matches its instance under every replacement
that agrees with the bindings already made, so that a clause subsumes in full every clause among
whose literals it has an instance, and in either mode every clause that has its literals.  So full
subsumption decides whether there are a replacement and distinct places to which it takes the
literals, and a clause that subsumes another implies it.

The other test for redundant clauses looks for a literal together with its complement.
-/

namespace Clausal

universe u

/-! ## Matches -/

namespace Substitution

/-- Binding a variable changes what is bound to this variable only. -/
lemma get?_bind (s : Substitution) (v w : String) (t : Term) :
    (s.bind v t).get? w = if w = v then some t else s.get? w := by
  have key : ∀ bindings : List (String × Term),
      (insertBinding v t bindings).lookup w = if w = v then some t else bindings.lookup w := by
    intro bindings
    induction bindings with
    | nil =>
      by_cases h : w = v
      · simp [insertBinding, h]
      · simp [insertBinding, List.lookup_cons, h, beq_false_of_ne h]
    | cons b rest ih =>
      obtain ⟨x, u⟩ := b
      by_cases hx : x = v
      · by_cases h : w = v
        · simp [insertBinding, hx, h]
        · simp [insertBinding, List.lookup_cons, hx, h, beq_false_of_ne h]
      · rw [insertBinding, if_neg hx, List.lookup_cons, List.lookup_cons, ih]
        by_cases h : w = v
        · rw [if_pos h, if_pos h, h, beq_false_of_ne (Ne.symm hx)]
        · rw [if_neg h, if_neg h]
  exact key s.bindings

/-- A replacement gives each bound variable the term bound to it. -/
def Agrees (σ : String → Term) (s : Substitution) : Prop :=
  ∀ v t, s.get? v = some t → σ v = t

/-- Some replacement agrees with the bindings. -/
lemma exists_agrees (s : Substitution) : ∃ σ, Agrees σ s :=
  ⟨fun v => (s.get? v).getD (.var v), fun v t h => by simp only [h, Option.getD_some]⟩

end Substitution

open Substitution

/-- If terms match targets one by one, a replacement that agrees with the bindings turns them into
the targets, provided that this holds of each of the terms. -/
lemma Term.map_subst_eq_of_matchListOnto {ps ts : List Term} {s s' : Substitution}
    {σ : String → Term}
    (each : ∀ p ∈ ps, ∀ {t : Term} {s s' : Substitution}, p.matchOnto t s = .success s' →
      Agrees σ s' → Agrees σ s ∧ p.subst σ = t)
    (hlength : ps.length = ts.length) (h : matchListOnto ps ts s = .success s')
    (hσ : Agrees σ s') : Agrees σ s ∧ ps.map (subst σ) = ts := by
  induction ps generalizing ts s with
  | nil =>
    obtain rfl := List.eq_nil_of_length_eq_zero hlength.symm
    rw [matchListOnto] at h
    · cases h
      exact ⟨hσ, rfl⟩
    · simp
  | cons p ps ih =>
    cases ts with
    | nil => cases hlength
    | cons t ts =>
      rw [matchListOnto] at h
      split at h
      · rename_i r hr
        obtain ⟨hrest, htargets⟩ := ih (fun q hq => each q (List.mem_cons_of_mem _ hq))
          (Nat.succ.inj hlength) h
        obtain ⟨hfirst, htarget⟩ := each p List.mem_cons_self hr hrest
        exact ⟨hfirst, by rw [List.map_cons, htarget, htargets]⟩
      · cases h

/-- If a term matches a target, a replacement that agrees with the bindings turns it into the
target, and agrees with the bindings of before. -/
lemma Term.subst_eq_of_matchOnto {p t : Term} {s s' : Substitution} {σ : String → Term}
    (h : p.matchOnto t s = .success s') (hσ : Agrees σ s') : Agrees σ s ∧ p.subst σ = t := by
  induction p generalizing t s s' with
  | var v =>
    rw [matchOnto] at h
    split at h
    · rename_i hget
      cases h
      refine ⟨fun w u hw => hσ w u ?_, ?_⟩
      · rw [get?_bind, if_neg (by rintro rfl; rw [hget] at hw; cases hw), hw]
      · exact hσ v t (by rw [get?_bind, if_pos rfl])
    · rename_i bound hget
      split at h
      · rename_i hbound
        cases h
        exact ⟨hσ, hσ v t (hbound ▸ hget)⟩
      · cases h
  | const c =>
    cases t with
    | const d =>
      rw [matchOnto] at h
      split at h
      · rename_i hcd
        cases h
        exact ⟨hσ, congrArg Term.const hcd⟩
      · cases h
    | var | app =>
      rw [matchOnto] at h
      · cases h
      · simp
  | app f ps ih =>
    cases t with
    | app g ts =>
      rw [matchOnto] at h
      split at h
      · cases h
      · rename_i hfg
        split at h
        · cases h
        · rename_i hlength
          obtain ⟨hs, hargs⟩ := map_subst_eq_of_matchListOnto (fun p hp => ih p hp)
            (Decidable.not_not.mp hlength) h hσ
          exact ⟨hs, by rw [subst_app, hargs, Decidable.not_not.mp hfg]⟩
    | var | const =>
      rw [matchOnto] at h
      · cases h
      · simp

/-- If a literal matches a target, a replacement that agrees with the bindings turns it into the
target, and agrees with the bindings of before. -/
lemma Literal.subst_eq_of_matchOnto {l m : Literal} {s s' : Substitution} {σ : String → Term}
    (h : l.matchOnto m s = .success s') (hσ : Agrees σ s') : Agrees σ s ∧ l.subst σ = m := by
  unfold matchOnto at h
  split at h
  · cases h
  · rename_i hhead
    split at h
    · cases h
    · rename_i hlength
      obtain ⟨hs, hargs⟩ := Term.map_subst_eq_of_matchListOnto
        (fun p _ => Term.subst_eq_of_matchOnto) (Decidable.not_not.mp hlength) h hσ
      obtain ⟨hsign, hpredicate⟩ := not_or.mp hhead
      refine ⟨hs, ?_⟩
      rw [subst, hargs, Decidable.not_not.mp hsign, Decidable.not_not.mp hpredicate]

/-! ## A clause that subsumes another -/

namespace Clause

/-- A selection from a list takes one member out. -/
lemma perm_of_mem_selections {α : Type} {l others : List α} {a : α}
    (h : (a, others) ∈ selections l) : l.Perm (a :: others) := by
  induction l generalizing others with
  | nil => cases h
  | cons b bs ih =>
    rw [selections, List.mem_cons] at h
    rcases h with h | h
    · obtain ⟨rfl, rfl⟩ := Prod.mk.inj h
      exact List.Perm.refl _
    · obtain ⟨⟨c, cs⟩, hc, h⟩ := List.mem_map.mp h
      obtain ⟨rfl, rfl⟩ := Prod.mk.inj h
      exact ((ih hc).cons b).trans (List.Perm.swap c b cs)

/-- Each member of a list can be selected. -/
lemma exists_mem_selections {α : Type} {l : List α} {a : α} (h : a ∈ l) :
    ∃ others, (a, others) ∈ selections l := by
  induction l with
  | nil => cases h
  | cons b bs ih =>
    rw [selections]
    rcases List.mem_cons.mp h with rfl | h
    · exact ⟨bs, List.mem_cons_self⟩
    · obtain ⟨others, hothers⟩ := ih h
      exact ⟨b :: others, List.mem_cons_of_mem _ (List.mem_map.mpr ⟨_, hothers, rfl⟩)⟩

/-- Literals that can be matched against distinct targets have an instance among the targets. -/
lemma exists_subperm_of_embeds {ls targets : List Literal} {s : Substitution}
    (h : embeds ls targets s = true) :
    ∃ σ, Agrees σ s ∧ (ls.map (Literal.subst σ)).Subperm targets := by
  induction ls generalizing targets s with
  | nil =>
    obtain ⟨σ, hσ⟩ := s.exists_agrees
    exact ⟨σ, hσ, List.nil_subperm⟩
  | cons l ls ih =>
    obtain ⟨target, others, hselected, r, hr, h⟩ := embeds_cons_iff.mp h
    obtain ⟨σ, hσ, hrest⟩ := ih h
    obtain ⟨hs, htarget⟩ := Literal.subst_eq_of_matchOnto hr hσ
    refine ⟨σ, hs, ?_⟩
    rw [List.map_cons, htarget, (perm_of_mem_selections hselected).subperm_left]
    exact (List.subperm_cons target).mpr hrest

/-- A clause that subsumes another, in either mode, has an instance among the literals of the
other. -/
lemma exists_subset_of_subsumesIn {mode : SubsumptionMode} {c d : Clause}
    (h : c.subsumesIn mode d = true) :
    ∃ σ, ∀ l ∈ c.literals, Literal.subst σ l ∈ d.literals := by
  cases mode with
  | exact =>
    obtain ⟨-, hall⟩ := Bool.and_eq_true_iff.mp h
    refine ⟨Term.var, fun l hl => ?_⟩
    rw [Literal.subst_eq_self fun v _ => rfl]
    exact List.contains_iff_mem.mp (List.all_eq_true.mp hall l hl)
  | full =>
    obtain ⟨-, hembeds⟩ := Bool.and_eq_true_iff.mp h
    obtain ⟨σ, -, hsubperm⟩ := exists_subperm_of_embeds hembeds
    exact ⟨σ, fun l hl => hsubperm.subset (List.mem_map_of_mem hl)⟩

end Clause

/-! ## A clause that has an instance among the literals of another -/

/-- Terms match their instances under a replacement that agrees with the bindings, provided that
this holds of each of the terms. -/
lemma Term.exists_matchListOnto_subst {ps : List Term} {σ : String → Term}
    (each : ∀ p ∈ ps, ∀ {s : Substitution}, Agrees σ s →
      ∃ s', p.matchOnto (p.subst σ) s = .success s' ∧ Agrees σ s')
    {s : Substitution} (hs : Agrees σ s) :
    ∃ s', matchListOnto ps (ps.map (subst σ)) s = .success s' ∧ Agrees σ s' := by
  induction ps generalizing s with
  | nil =>
    refine ⟨s, ?_, hs⟩
    rw [List.map_nil, matchListOnto]
    simp
  | cons p ps ih =>
    obtain ⟨r, hr, hagrees⟩ := each p List.mem_cons_self hs
    obtain ⟨s', hs', hagrees'⟩ := ih (fun q hq => each q (List.mem_cons_of_mem _ hq)) hagrees
    refine ⟨s', ?_, hagrees'⟩
    rw [List.map_cons, matchListOnto, hr]
    exact hs'

/-- A term matches its instance under a replacement that agrees with the bindings, and the
replacement agrees with the bindings made. -/
lemma Term.exists_matchOnto_subst (p : Term) {s : Substitution} {σ : String → Term}
    (hs : Agrees σ s) : ∃ s', p.matchOnto (p.subst σ) s = .success s' ∧ Agrees σ s' := by
  induction p generalizing s with
  | var v =>
    rw [matchOnto]
    cases hget : s.get? v with
    | none =>
      refine ⟨s.bind v (σ v), rfl, fun w u hw => ?_⟩
      rw [get?_bind] at hw
      split at hw
      · rename_i hwv
        rw [← Option.some.inj hw, hwv]
      · exact hs w u hw
    | some u =>
      have hu : u = (Term.var v).subst σ := (hs v u hget).symm
      simp only [if_pos hu]
      exact ⟨s, rfl, hs⟩
  | const c => exact ⟨s, by rw [subst_const, matchOnto, if_pos rfl], hs⟩
  | app f args ih =>
    rw [subst_app, matchOnto, if_neg (Decidable.not_not.mpr rfl),
      if_neg (Decidable.not_not.mpr (List.length_map _).symm)]
    exact exists_matchListOnto_subst (fun t ht => ih t ht) hs

/-- A literal matches its instance under a replacement that agrees with the bindings, and the
replacement agrees with the bindings made. -/
lemma Literal.exists_matchOnto_subst (l : Literal) {s : Substitution} {σ : String → Term}
    (hs : Agrees σ s) : ∃ s', l.matchOnto (l.subst σ) s = .success s' ∧ Agrees σ s' := by
  have hlength : l.args.length = (l.subst σ).args.length := (List.length_map _).symm
  rw [matchOnto, if_neg (by simp [subst]), if_neg (Decidable.not_not.mpr hlength)]
  exact Term.exists_matchListOnto_subst (fun t _ => t.exists_matchOnto_subst) hs

namespace Clause

/-- Literals that have an instance among the targets, at distinct places, can be matched against
them. -/
lemma embeds_of_subperm {ls targets : List Literal} {s : Substitution} {σ : String → Term}
    (hs : Agrees σ s) (h : (ls.map (Literal.subst σ)).Subperm targets) :
    embeds ls targets s = true := by
  induction ls generalizing targets s with
  | nil => rw [embeds]
  | cons l ls ih =>
    rw [List.map_cons] at h
    obtain ⟨others, hothers⟩ := exists_mem_selections (h.subset List.mem_cons_self)
    obtain ⟨s', hs', hagrees⟩ := l.exists_matchOnto_subst hs
    rw [(perm_of_mem_selections hothers).subperm_left] at h
    exact embeds_cons_iff.mpr
      ⟨l.subst σ, others, hothers, s', hs', ih hagrees ((List.subperm_cons _).mp h)⟩

/-- A clause subsumes in full each clause among whose literals it has an instance, at distinct
places. -/
lemma subsumes_of_subperm {c d : Clause} {σ : String → Term}
    (h : (c.literals.map (Literal.subst σ)).Subperm d.literals) : c.subsumes d = true := by
  have hlength := h.length_le
  rw [List.length_map] at hlength
  refine Bool.and_eq_true_iff.mpr ⟨decide_eq_true hlength, ?_⟩
  exact embeds_of_subperm (fun v t hget => nomatch hget) h

/-- A clause subsumes, in either mode, each clause that has the same literals, all of them once. -/
lemma subsumesIn_of_subset (mode : SubsumptionMode) {c d : Clause} (hc : c.literals.Nodup)
    (hd : d.literals.Nodup) (hcd : c.literals ⊆ d.literals) (hdc : d.literals ⊆ c.literals) :
    c.subsumesIn mode d = true := by
  have hlength : c.literals.length = d.literals.length :=
    Nat.le_antisymm (hc.length_le_of_subset hcd) (hd.length_le_of_subset hdc)
  cases mode with
  | exact =>
    refine Bool.and_eq_true_iff.mpr ⟨beq_iff_eq.mpr hlength, List.all_eq_true.mpr fun l hl => ?_⟩
    exact List.contains_iff_mem.mpr (hcd hl)
  | full =>
    have hself : c.literals.map (Literal.subst Term.var) = c.literals :=
      List.map_id'' (fun l => Literal.subst_eq_self fun _ _ => rfl) _
    refine subsumes_of_subperm (σ := Term.var) ?_
    rw [hself]
    exact hc.subperm hcd

/-! ## What full subsumption decides -/

/-- A list has its members at distinct places of another exactly if there is an injection that takes
the places of the one to those of the other. -/
lemma subperm_iff_exists_injective {α : Type} [DecidableEq α] {l l' : List α} :
    l.Subperm l' ↔ ∃ m : Fin l.length → Fin l'.length, Function.Injective m ∧
      ∀ k, l.get k = l'.get (m k) := by
  constructor
  · intro h
    exact ⟨h.idxInj, h.idxInj_injective, fun k => h.getElem_idxInj_eq_getElem.symm⟩
  · rintro ⟨m, hinjective, hget⟩
    have hplaces : ((List.finRange l.length).map m).Subperm (List.finRange l'.length) :=
      ((List.nodup_finRange _).map hinjective).subperm fun k _ => List.mem_finRange k
    obtain ⟨ks, hperm, hsublist⟩ := hplaces
    have hcomp : l'.get ∘ m = l.get := (funext hget).symm
    have hl : ((List.finRange l.length).map m).map l'.get = l := by
      rw [List.map_map, hcomp, List.map_get_finRange]
    have hsublist' := hsublist.map l'.get
    rw [List.map_get_finRange] at hsublist'
    exact ⟨ks.map l'.get, (hperm.map l'.get).trans (.of_eq hl), hsublist'⟩

/-- Full subsumption holds exactly if some instance of the first clause has its literals at distinct
places of the second. -/
lemma subsumes_iff_exists_subperm {c d : Clause} : c.subsumes d = true ↔
    ∃ σ, (c.literals.map (Literal.subst σ)).Subperm d.literals := by
  constructor
  · intro h
    obtain ⟨-, hembeds⟩ := Bool.and_eq_true_iff.mp h
    obtain ⟨σ, -, hsubperm⟩ := exists_subperm_of_embeds hembeds
    exact ⟨σ, hsubperm⟩
  · rintro ⟨σ, hsubperm⟩
    exact subsumes_of_subperm hsubperm

/-- A structure that makes a clause true makes every clause true that it subsumes, in either
mode. -/
lemma Valid.of_subsumesIn {D : Type u} {M : Structure D} {mode : SubsumptionMode} {c d : Clause}
    (hvalid : c.Valid M) (h : c.subsumesIn mode d = true) : d.Valid M := by
  intro ε
  obtain ⟨σ, hσ⟩ := exists_subset_of_subsumesIn h
  obtain ⟨l, hl, hholds⟩ := hvalid fun v => (σ v).eval M ε
  exact ⟨l.subst σ, hσ l hl, (Literal.holds_subst M ε σ l).mpr hholds⟩

/-- A clause subsumes another in full exactly if a replacement takes its literals to literals of the
other, by an injection between the places.  Then each structure that makes it true makes the other
true.  The search that places the literals with one trail, and undoes each trial that fails, comes
to the same answer. -/
theorem subsumes_iff_exists_injective (c d : Clause) :
    (c.subsumes d = true ↔
        ∃ (σ : String → Term) (m : Fin c.literals.length → Fin d.literals.length),
          Function.Injective m ∧ ∀ k, (c.literals.get k).subst σ = d.literals.get (m k)) ∧
      (c.subsumes d = true → ∀ {D : Type u} (M : Structure D), c.Valid M → d.Valid M) ∧
      c.subsumesByTrail d = c.subsumes d := by
  have hvalid : c.subsumesIn .full d = true →
      ∀ {D : Type u} (M : Structure D), c.Valid M → d.Valid M :=
    fun h D M hvalid => hvalid.of_subsumesIn h
  refine ⟨?_, hvalid, c.subsumesByTrail_eq d⟩
  rw [subsumes_iff_exists_subperm]
  refine exists_congr fun σ => ?_
  -- the list of instances is as long as that of the literals, so places of the one are places of
  -- the other
  have hlength : (c.literals.map (Literal.subst σ)).length = c.literals.length := List.length_map _
  rw [subperm_iff_exists_injective]
  constructor
  · rintro ⟨m, hinjective, hget⟩
    refine ⟨m ∘ Fin.cast hlength.symm, hinjective.comp (Fin.cast_injective _), fun k => ?_⟩
    rw [Function.comp_apply, ← hget]
    simp
  · rintro ⟨m, hinjective, hget⟩
    refine ⟨m ∘ Fin.cast hlength, hinjective.comp (Fin.cast_injective _), fun k => ?_⟩
    rw [Function.comp_apply, ← hget]
    simp

/-- The clause `P(x) ∨ Q(x)`. -/
def eitherPQ : Clause :=
  .ofLiterals [⟨"P", [.var "x"], true⟩, ⟨"Q", [.var "x"], true⟩] (.given .input)

/-- The clause `P(A) ∨ P(B) ∨ Q(B)`. -/
def someAB : Clause :=
  .ofLiterals [⟨"P", [.const "A"], true⟩, ⟨"P", [.const "B"], true⟩, ⟨"Q", [.const "B"], true⟩]
    (.given .input)

/-- The clause `P(x) ∨ Q(x)` subsumes `P(A) ∨ P(B) ∨ Q(B)`, where the first place tried for `P(x)`
is a wrong one, so that a search with a trail has to undo a trial. -/
theorem subsumes_eitherPQ_someAB : eitherPQ.subsumes someAB = true ∧
    eitherPQ.subsumesByTrail someAB = true ∧
    (∃ (σ : String → Term) (m : Fin eitherPQ.literals.length → Fin someAB.literals.length),
      Function.Injective m ∧ ∀ k, (eitherPQ.literals.get k).subst σ = someAB.literals.get (m k)) ∧
    ∀ {D : Type} (M : Structure D), eitherPQ.Valid M → someAB.Valid M := by
  have h : eitherPQ.subsumes someAB = true := by decide
  obtain ⟨hplaces, himplies, htrail⟩ := subsumes_iff_exists_injective.{0} eitherPQ someAB
  exact ⟨h, htrail.trans h, hplaces.mp h, himplies h⟩

/-! ## Tautologies -/

/-- A clause is a tautology exactly if it has a literal together with its complement. -/
lemma isTautology_iff {c : Clause} :
    c.isTautology = true ↔ ∃ l ∈ c.literals, l.complement ∈ c.literals := by
  have key : ∀ ls : List Literal, hasComplementaryPair ls = true ↔
      ∃ l ∈ ls, l.complement ∈ ls := by
    intro ls
    induction ls with
    | nil => simp [hasComplementaryPair]
    | cons m ls ih =>
      rw [hasComplementaryPair, Bool.or_eq_true, List.contains_iff_mem, ih]
      constructor
      · rintro (hm | ⟨l, hl, hl'⟩)
        · exact ⟨m, List.mem_cons_self, List.mem_cons_of_mem _ hm⟩
        · exact ⟨l, List.mem_cons_of_mem _ hl, List.mem_cons_of_mem _ hl'⟩
      · rintro ⟨l, hl, hl'⟩
        rcases List.mem_cons.mp hl with rfl | hrest
        · rcases List.mem_cons.mp hl' with heq | hrest
          · exact ((Bool.not_eq_self _).mp (congrArg Literal.positive heq)).elim
          · exact Or.inl hrest
        · rcases List.mem_cons.mp hl' with rfl | hrest'
          · rw [Literal.complement_complement]
            exact Or.inl hrest
          · exact Or.inr ⟨l, hrest, hrest'⟩
  exact key c.literals

end Clause

end Clausal
