import Clausal.Proofs.ResolventPlaces
import Clausal.Proofs.Subsumption

/-!
# Resolving with a subsumed clause

Let `d` subsume `c`, so that some instance of `d` has its literals at distinct places of `c`.  When
`c` is resolved with a clause `e`, the literal of `c` that is taken away may be none of these, and
then the same instance of `d` is still there; or it is one of them, and then `d` can be resolved
with `e` on the literal it is an instance of.  Either way `d` or a resolvent of `d` with `e` has an
instance among the literals that are left.

The literals of the resolvent are those that are left without repetition.  If the unifier makes
literals equal that were different, the instance still has all its literals in the resolvent, but no
longer at distinct places, and full subsumption does not see it: `P(x) ∨ P(y)` subsumes
`P(x) ∨ P(y) ∨ Q(x, y)`, but not its resolvent `P(z)` with `¬Q(z, z)`.
-/

namespace Clausal

open ParentPair

/-! ## Taking away one literal -/

/-- A function of the members of lists keeps that one list has its members at distinct places of
another. -/
lemma subperm_map {α β : Type} {xs ys : List α} (h : xs.Subperm ys) (f : α → β) :
    (xs.map f).Subperm (ys.map f) := by
  obtain ⟨zs, hperm, hsublist⟩ := h
  exact ⟨zs.map f, hperm.map f, hsublist.map f⟩

/-- A list that has its members at distinct places of another has them still when a member of the
other is taken away, or it has this member itself and can do without it. -/
lemma subperm_eraseIdx_cases {α : Type} {xs ys : List α} {i : ℕ} {a : α} (h : xs.Subperm ys)
    (hi : ys[i]? = some a) :
    xs.Subperm (ys.eraseIdx i) ∨
      ∃ k, xs[k]? = some a ∧ (xs.eraseIdx k).Subperm (ys.eraseIdx i) := by
  obtain ⟨hlt, rfl⟩ := List.getElem?_eq_some_iff.mp hi
  rw [← (List.getElem_cons_eraseIdx_perm hlt).subperm_left] at h
  obtain ⟨zs, hperm, hsublist⟩ := h
  cases hsublist with
  | cons _ hrest => exact Or.inl ⟨zs, hperm, hrest⟩
  | cons_cons _ hrest =>
    rename_i zs
    obtain ⟨k, hk⟩ := List.mem_iff_getElem?.mp (hperm.subset List.mem_cons_self)
    obtain ⟨hklt, hka⟩ := List.getElem?_eq_some_iff.mp hk
    have hzs : zs.Perm (xs.eraseIdx k) := by
      refine List.Perm.cons_inv (a := ys[i]) (hperm.trans ?_)
      rw [← hka]
      exact (List.getElem_cons_eraseIdx_perm hklt).symm
    exact Or.inr ⟨k, hk, zs, hzs, hrest⟩

namespace Clause

/-- Some instance of the first clause has all its literals among those of the second.  Full
subsumption asks besides that they are at distinct places. -/
def HasInstanceIn (c d : Clause) : Prop :=
  ∃ σ : String → Term, ∀ l ∈ c.literals, l.subst σ ∈ d.literals

variable {c d e : Clause} {i : ℕ} {l : Literal}

/-- When a literal is taken away from an instance of a subsumed clause, the clause that subsumes it
has an instance among the literals that are left, or does so once the literal is taken away from it
too. -/
lemma exists_subperm_of_subsumes (h : d.subsumes c = true) (hl : c.literals[i]? = some l)
    (σ : String → Term) :
    ∃ ρ : String → Term,
      (d.literals.map (Literal.subst ρ)).Subperm ((c.literals.eraseIdx i).map (Literal.subst σ)) ∨
        ∃ k m, d.literals[k]? = some m ∧ m.subst ρ = l.subst σ ∧
          ((d.literals.eraseIdx k).map (Literal.subst ρ)).Subperm
            ((c.literals.eraseIdx i).map (Literal.subst σ)) := by
  obtain ⟨τ, hsubperm⟩ := subsumes_iff_exists_subperm.mp h
  have hinstance : ∀ ms : List Literal, ms.map (Literal.subst fun v => (τ v).subst σ) =
      (ms.map (Literal.subst τ)).map (Literal.subst σ) := by
    intro ms
    rw [List.map_map]
    exact List.map_congr_left fun m _ => (Literal.subst_subst τ σ m).symm
  refine ⟨fun v => (τ v).subst σ, ?_⟩
  rcases subperm_eraseIdx_cases hsubperm hl with hrest | ⟨k, hk, hrest⟩
  · rw [hinstance]
    exact Or.inl (subperm_map hrest _)
  · rw [List.getElem?_map] at hk
    obtain ⟨m, hm, rfl⟩ := Option.map_eq_some_iff.mp hk
    rw [List.eraseIdx_map] at hrest
    refine Or.inr ⟨k, m, hm, (Literal.subst_subst τ σ m).symm, ?_⟩
    rw [hinstance]
    exact subperm_map hrest _

/-- A clause that has an instance at distinct places of a list has one in the clause that is made of
the list, and subsumes it if the list has no repetitions. -/
lemma hasInstanceIn_of_subperm {σ : String → Term} {ls : List Literal}
    (h : (c.literals.map (Literal.subst σ)).Subperm ls) (hd : d.literals = ls.eraseDups) :
    c.HasInstanceIn d ∧ (ls.length ≤ d.literals.length → c.subsumes d = true) := by
  have hmem : ∀ x, x ∈ ls ↔ x ∈ d.literals := fun x => by rw [hd, List.mem_eraseDups]
  refine ⟨⟨σ, fun l hl => (hmem _).mp (h.subset (List.mem_map_of_mem hl))⟩, fun hlength => ?_⟩
  have hperm : d.literals.Perm ls := by
    refine (List.Nodup.subperm ?_ fun x hx => (hmem x).mpr hx).perm_of_length_le hlength
    rw [hd]
    exact nodup_eraseDups ls
  exact subsumes_of_subperm (hperm.subperm_left.mpr h)

end Clause

/-! ## Pairs with a common clause -/

namespace ParentPair

/-- A pair is made of the two clauses, in either order. -/
def Joins (p : ParentPair) (c e : Clause) : Prop :=
  p.left = c ∧ p.right = e ∨ p.left = e ∧ p.right = c

variable {p q : ParentPair} {c d e : Clause} {step : ℕ}

/-- A resolvent is made of what is left of instances of the two clauses. -/
lemma Joins.exists_of_mem_resolvents (hp : p.Joins c e) {res : Resolvent}
    (hres : res ∈ p.resolvents step) :
    ∃ (i j : ℕ) (l m : Literal) (σ τ : String → Term), c.literals[i]? = some l ∧
      e.literals[j]? = some m ∧
      l.subst σ = (m.subst τ).complement ∧
      ∃ ls : List Literal, ls.Perm ((c.literals.eraseIdx i).map (Literal.subst σ) ++
          (e.literals.eraseIdx j).map (Literal.subst τ)) ∧
        res.clause.literals = ls.eraseDups := by
  obtain ⟨i, j, l, m, u, hresolves, rfl⟩ := mem_resolvents_iff.mp hres
  obtain ⟨σ, τ, ⟨l, m, hl, hm, hcut⟩, hremainder⟩ := hresolves.exists_resolvesBy
  have hcut := Literal.subst_eq_complement_iff.mpr hcut
  rcases hp with ⟨rfl, rfl⟩ | ⟨rfl, rfl⟩
  · exact ⟨i, j, l, m, σ, τ, hl, hm, hcut, _, .of_eq hremainder, rfl⟩
  · refine ⟨j, i, m, l, τ, σ, hm, hl, ?_, _,
      (List.Perm.of_eq hremainder).trans List.perm_append_comm, rfl⟩
    rw [hcut, Literal.complement_complement]

/-- If instances of the two clauses have complementary literals, then some resolvent has an instance
at distinct places of what is left of them. -/
lemma Joins.exists_mem_resolvents (hq : q.Joins d e) {i j : ℕ} {l m : Literal} {σ τ : String → Term}
    (hl : d.literals[i]? = some l) (hm : e.literals[j]? = some m)
    (hcut : l.subst σ = (m.subst τ).complement) (step : ℕ) :
    ∃ res ∈ q.resolvents step, ∃ θ : String → Term,
      (res.clause.literals.map (Literal.subst θ)).Subperm
        ((d.literals.eraseIdx i).map (Literal.subst σ) ++
          (e.literals.eraseIdx j).map (Literal.subst τ)) := by
  have key : ∀ {i j l m u} {θ : String → Term} {ls : List Literal}, q.ResolvesAt i j l m u →
      ((q.remainder i j u).map (Literal.subst θ)).Perm ls →
      ∃ res ∈ q.resolvents step, ∃ θ : String → Term,
        (res.clause.literals.map (Literal.subst θ)).Subperm ls := by
    intro i j l m u θ ls hresolves hperm
    refine ⟨_, mem_resolvents_iff.mpr ⟨i, j, l, m, u, hresolves, rfl⟩, θ, ?_⟩
    have hsubperm : (q.remainder i j u).eraseDups.Subperm (q.remainder i j u) :=
      (nodup_eraseDups _).subperm fun x hx => List.mem_eraseDups.mp hx
    exact (subperm_map hsubperm _).trans hperm.subperm
  rcases hq with ⟨rfl, rfl⟩ | ⟨rfl, rfl⟩
  · obtain ⟨m', u, hresolves, θ, hremainder⟩ := exists_resolvesAt_of_instances hl hm hcut
    exact key hresolves (.of_eq hremainder)
  · have hcut' : m.subst τ = (l.subst σ).complement := by rw [hcut, Literal.complement_complement]
    obtain ⟨l', u, hresolves, θ, hremainder⟩ := exists_resolvesAt_of_instances hm hl hcut'
    exact key hresolves ((List.Perm.of_eq hremainder).trans List.perm_append_comm)

/-! ## Resolvents of a subsumed clause -/

/-- If `d` subsumes `c`, then for every resolvent of `c` with `e` there is a clause, `d` or a
resolvent of `d` with `e`, that has an instance in it.  This clause subsumes the resolvent if no
literals have become equal, so that the resolvent has all literals of its parents but two. -/
theorem exists_hasInstanceIn_of_subsumes (hsubsumes : d.subsumes c = true) (hp : p.Joins c e)
    (hq : q.Joins d e) {res : Resolvent} (hres : res ∈ p.resolvents step) (step' : ℕ) :
    ∃ x : Clause, (x = d ∨ ∃ res' ∈ q.resolvents step', x = res'.clause) ∧
      x.HasInstanceIn res.clause ∧
      (res.clause.literals.length + 2 = c.literals.length + e.literals.length →
        x.subsumes res.clause = true) := by
  obtain ⟨i, j, l, m, σ, τ, hl, hm, hcut, ls, hls, hliterals⟩ := hp.exists_of_mem_resolvents hres
  -- a clause with an instance in what is left of the parents is one that is asked for
  have key : ∀ {x : Clause} {θ : String → Term},
      (x.literals.map (Literal.subst θ)).Subperm ((c.literals.eraseIdx i).map (Literal.subst σ) ++
        (e.literals.eraseIdx j).map (Literal.subst τ)) →
      x.HasInstanceIn res.clause ∧
        (res.clause.literals.length + 2 = c.literals.length + e.literals.length →
          x.subsumes res.clause = true) := by
    intro x θ hx
    obtain ⟨hinstance, himplies⟩ :=
      Clause.hasInstanceIn_of_subperm (hls.symm.subperm_left.mp hx) hliterals
    refine ⟨hinstance, fun hlength => himplies ?_⟩
    have hi := (List.getElem?_eq_some_iff.mp hl).1
    have hj := (List.getElem?_eq_some_iff.mp hm).1
    rw [hls.length_eq, List.length_append, List.length_map, List.length_map,
      List.length_eraseIdx_of_lt hi, List.length_eraseIdx_of_lt hj]
    omega
  obtain ⟨ρ, hrest | ⟨k, n, hn, hinstance, hrest⟩⟩ :=
    Clause.exists_subperm_of_subsumes hsubsumes hl σ
  · exact ⟨d, Or.inl rfl, key (hrest.trans (List.sublist_append_left _ _).subperm)⟩
  · obtain ⟨res', hres', θ, hsubperm⟩ :=
      hq.exists_mem_resolvents hn hm (hinstance.trans hcut) step'
    have happend := List.Subperm.append hrest
      (List.Subperm.refl ((e.literals.eraseIdx j).map (Literal.subst τ)))
    exact ⟨res'.clause, Or.inr ⟨res', hres', rfl⟩, key (hsubperm.trans happend)⟩

end ParentPair

namespace Clause

/-- The clause `¬P(y) ∨ R(y)`. -/
def notPOrR : Clause :=
  .ofLiterals [⟨"P", [.var "y"], false⟩, ⟨"R", [.var "y"], true⟩] (.given .input)

open scoped Evaluation in
/-- Both resolvents of `P(A) ∨ P(B) ∨ Q(B)` with `¬P(y) ∨ R(y)` have three literals. -/
lemma length_resolvents_someAB :
    (ParentPair.resolvents ⟨1, someAB, 2, notPOrR⟩ 1).map (fun res => res.clause.literals.length) =
      [3, 3] := by
  simp [someAB, notPOrR]

/-- The clause `P(x) ∨ Q(x)` subsumes `P(A) ∨ P(B) ∨ Q(B)`, whose two resolvents with `¬P(y) ∨ R(y)`
are `P(B) ∨ Q(B) ∨ R(A)` and `P(A) ∨ Q(B) ∨ R(B)`.  It subsumes the first, and its own resolvent
`Q(y) ∨ R(y)` subsumes the second. -/
theorem exists_subsumes_resolvents_someAB : eitherPQ.subsumes someAB = true ∧
    (ParentPair.resolvents ⟨1, someAB, 2, notPOrR⟩ 1).length = 2 ∧
    ∀ res ∈ ParentPair.resolvents ⟨1, someAB, 2, notPOrR⟩ 1,
      ∃ x : Clause, (x = eitherPQ ∨
          ∃ res' ∈ ParentPair.resolvents ⟨0, eitherPQ, 2, notPOrR⟩ 1, x = res'.clause) ∧
        x.HasInstanceIn res.clause ∧ x.subsumes res.clause = true := by
  have hsubsumes : eitherPQ.subsumes someAB = true := by decide
  refine ⟨hsubsumes, ?_, fun res hres => ?_⟩
  · have hlength := congrArg List.length length_resolvents_someAB
    rwa [List.length_map] at hlength
  · obtain ⟨x, hx, hinstance, himplies⟩ := exists_hasInstanceIn_of_subsumes
      (p := ⟨1, someAB, 2, notPOrR⟩) (q := ⟨0, eitherPQ, 2, notPOrR⟩) hsubsumes (Or.inl ⟨rfl, rfl⟩)
      (Or.inl ⟨rfl, rfl⟩) hres 1
    have hlength : res.clause.literals.length ∈ [3, 3] := by
      rw [← length_resolvents_someAB]
      exact List.mem_map_of_mem hres
    have hthree : res.clause.literals.length = 3 := by simpa using hlength
    refine ⟨x, hx, hinstance, himplies ?_⟩
    rw [hthree]
    rfl

/-! ## Literals that become equal -/

/-- The clause `P(x) ∨ P(y)`. -/
def anyTwoP : Clause :=
  .ofLiterals [⟨"P", [.var "x"], true⟩, ⟨"P", [.var "y"], true⟩] (.given .input)

/-- The clause `P(x) ∨ P(y) ∨ Q(x, y)`. -/
def anyTwoPOrQ : Clause :=
  .ofLiterals [⟨"P", [.var "x"], true⟩, ⟨"P", [.var "y"], true⟩, ⟨"Q", [.var "x", .var "y"], true⟩]
    (.given .input)

/-- The clause `¬Q(z, z)`. -/
def notQTwice : Clause :=
  .ofLiterals [⟨"Q", [.var "z", .var "z"], false⟩] (.given .input)

open scoped Evaluation in
/-- The resolvent of `P(x) ∨ P(y) ∨ Q(x, y)` with `¬Q(z, z)` is `P(z)`, as two literals become
equal. -/
lemma literals_resolvents_anyTwoPOrQ :
    (ParentPair.resolvents ⟨1, anyTwoPOrQ, 2, notQTwice⟩ 1).map (fun res => res.clause.literals) =
      [[⟨"P", [.var "z"], true⟩]] := by
  simp [anyTwoPOrQ, notQTwice]

/-- The clause `P(x) ∨ P(y)` subsumes `P(x) ∨ P(y) ∨ Q(x, y)`.  It does not subsume the resolvent
`P(z)` of this clause with `¬Q(z, z)`, which is no tautology, and it has no resolvents with
`¬Q(z, z)`. -/
theorem not_subsumes_resolvent_anyTwoPOrQ : anyTwoP.subsumes anyTwoPOrQ = true ∧
    ∃ res ∈ ParentPair.resolvents ⟨1, anyTwoPOrQ, 2, notQTwice⟩ 1,
      res.clause.isTautology = false ∧ anyTwoP.subsumes res.clause = false ∧
        ParentPair.resolvents ⟨0, anyTwoP, 2, notQTwice⟩ 1 = [] := by
  have hmem : [⟨"P", [.var "z"], true⟩] ∈
      (ParentPair.resolvents ⟨1, anyTwoPOrQ, 2, notQTwice⟩ 1).map
        (fun res => res.clause.literals) := by
    rw [literals_resolvents_anyTwoPOrQ]
    exact List.mem_singleton_self _
  obtain ⟨res, hres, hliterals⟩ := List.mem_map.mp hmem
  refine ⟨by decide, res, hres, ?_, ?_, rfl⟩
  · rw [isTautology, hliterals]
    decide
  · rw [subsumes, hliterals]
    decide

end Clause

end Clausal
