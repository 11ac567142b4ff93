import Clausal.Proofs.BindingChains
import Clausal.Proofs.Subsumption

/-!
# What one-way matching decides

A literal matches a target exactly if some replacement that agrees with the bindings already made
turns it into the target.  One half is that a replacement which agrees with the bindings left by a
match does so, and the other that a pattern matches each of its instances.

A match, also one that fails halfway, only puts new bindings behind those that it finds, of
variables of the pattern to terms whose variables are in the target.  So dropping what lies behind
the old bindings gives them back.  The bindings are stored to be read at once and not in chains.
The two readings agree where no variable of a bound term is bound, and so they do after a match of
two literals without common variables.
-/

namespace Clausal

namespace Substitution

variable {s : Substitution}

/-! ## The two readings of bindings -/

lemma agrees_simultaneous (s : Substitution) : Agrees s.simultaneous s := by
  intro v t hget
  rw [simultaneous, hget, Option.getD_some]

/-- Where no variable of a bound term is bound, following the bindings is reading them at once. -/
lemma value_eq_simultaneous (h : ∀ v w, s.RefersTo v w → s.get? w = none) :
    s.value = s.simultaneous := by
  have hacyclic : s.IsAcyclic := by
    apply isAcyclic_of_rank_lt fun v => if s.get? v = none then 1 else 0
    rintro v w ⟨t, hget, hw⟩
    rw [if_pos (h v w ⟨t, hget, hw⟩), hget, if_neg (Option.some_ne_none t)]
    exact Nat.one_pos
  funext v
  rw [simultaneous]
  cases hget : s.get? v with
  | none => exact value_eq_var hget
  | some t =>
    rw [hacyclic.value_eq_apply hget]
    exact Term.subst_eq_self fun w hw => value_eq_var (h v w ⟨t, hget, hw⟩)

end Substitution

open Substitution

namespace Literal

/-! ## What a match decides -/

variable {p l : Literal} {s s' : Substitution}

/-- A literal matches another exactly if a replacement that agrees with the bindings turns it into
the other. -/
lemma exists_matchOnto_eq_success_iff :
    (∃ s', p.matchOnto l s = .success s') ↔ ∃ σ, Agrees σ s ∧ p.subst σ = l := by
  constructor
  · rintro ⟨s', h⟩
    exact ⟨s'.simultaneous, subst_eq_of_matchOnto h s'.agrees_simultaneous⟩
  · rintro ⟨σ, hσ, rfl⟩
    obtain ⟨s', h, -⟩ := p.exists_matchOnto_subst hσ
    exact ⟨s', h⟩

/-- After a match from no bindings of two literals without common variables, no variable of a bound
term is bound. -/
lemma get?_eq_none_of_refersTo (hapart : ∀ v ∈ p.vars, v ∉ l.vars)
    (h : p.matchOnto l .empty = .success s') {v w : String} (hrefers : s'.RefersTo v w) :
    s'.get? w = none := by
  obtain ⟨added, hadded, hb⟩ := isExtendedBy_matchOnto p l .empty
  have hbindings : s'.bindings = added := by
    rw [h] at hadded
    exact hadded
  have hbound : ∀ {x : String} {u : Term}, s'.get? x = some u → x ∈ p.vars ∧ u.vars ⊆ l.vars := by
    intro x u hget
    have hmem : (x, u) ∈ added := hbindings ▸ mem_of_lookup_eq_some hget
    exact ⟨(hb _ hmem).1, (hb _ hmem).2.2⟩
  obtain ⟨t, hget, hw⟩ := hrefers
  refine Option.eq_none_iff_forall_ne_some.mpr fun u hu => ?_
  exact hapart w (hbound hu).1 ((hbound hget).2 hw)

/-- A literal matches another exactly if some replacement that agrees with the bindings already made
turns it into the other.  A match puts bindings of its own variables behind them, which turn it into
the other when they are read at once; whatever the outcome, dropping the new bindings gives back the
old ones.  From no bindings, and if the two have no variable in common, applying what is found gives
the other as well. -/
theorem matchOnto_decides_and_truncate (p l : Literal) (s : Substitution) :
    ((∃ s', p.matchOnto l s = .success s') ↔ ∃ σ, Agrees σ s ∧ p.subst σ = l) ∧
      (∀ s', p.matchOnto l s = .success s' →
        (∃ added, s'.bindings = s.bindings ++ added ∧
          ∀ b ∈ added, b.1 ∈ p.vars ∧ s.get? b.1 = none) ∧
        p.subst s'.simultaneous = l) ∧
      (p.matchOnto l s).bindings.truncate s.size = s ∧
      (s = .empty → (∀ v ∈ p.vars, v ∉ l.vars) →
        ∀ s', p.matchOnto l s = .success s' → s'.applyLiteral p = l) := by
  have hextended := isExtendedBy_matchOnto p l s
  have hsubst : ∀ s', p.matchOnto l s = .success s' → p.subst s'.simultaneous = l :=
    fun s' h => (subst_eq_of_matchOnto h s'.agrees_simultaneous).2
  refine ⟨exists_matchOnto_eq_success_iff, fun s' h => ⟨?_, hsubst s' h⟩, hextended.truncate, ?_⟩
  · obtain ⟨added, hadded, hb⟩ := hextended
    rw [h] at hadded
    exact ⟨added, hadded, fun b hmem => ⟨(hb b hmem).1, (hb b hmem).2.1⟩⟩
  · rintro rfl hapart s' h
    rw [applyLiteral, value_eq_simultaneous fun v w => get?_eq_none_of_refersTo hapart h]
    exact hsubst s' h

/-- The literal `P(x, f(x, y))`. -/
def patternXY : Literal :=
  ⟨"P", [.var "x", .app "f" [.var "x", .var "y"]], true⟩

/-- The literal `P(A, f(A, g(z)))`. -/
def targetAZ : Literal :=
  ⟨"P", [.const "A", .app "f" [.const "A", .app "g" [.var "z"]]], true⟩

/-- The literal `P(x, f(x, y))` matches `P(A, f(A, g(z)))`, where `x` meets the same term twice. -/
theorem matchOnto_patternXY_targetAZ :
    patternXY.matchOnto targetAZ .empty =
        .success ⟨[("x", .const "A"), ("y", .app "g" [.var "z"])]⟩ ∧
      (∃ σ, Agrees σ .empty ∧ patternXY.subst σ = targetAZ) ∧
      Substitution.applyLiteral ⟨[("x", .const "A"), ("y", .app "g" [.var "z"])]⟩ patternXY =
        targetAZ := by
  have h : patternXY.matchOnto targetAZ .empty =
      .success ⟨[("x", .const "A"), ("y", .app "g" [.var "z"])]⟩ := by decide
  obtain ⟨hiff, -, -, happly⟩ := matchOnto_decides_and_truncate patternXY targetAZ .empty
  exact ⟨h, hiff.mp ⟨_, h⟩, happly rfl (by decide) _ h⟩

-- The literal `P(x, y)` matches `P(y, x)` by bindings that must be read at once, as they make a
-- circle when they are followed.
example :
    Literal.matchOnto ⟨"P", [.var "x", .var "y"], true⟩ ⟨"P", [.var "y", .var "x"], true⟩ .empty =
        .success ⟨[("x", .var "y"), ("y", .var "x")]⟩ ∧
      Substitution.applyLiteral ⟨[("x", .var "y"), ("y", .var "x")]⟩
        ⟨"P", [.var "x", .var "y"], true⟩ ≠ ⟨"P", [.var "y", .var "x"], true⟩ := by
  decide

end Literal

end Clausal
