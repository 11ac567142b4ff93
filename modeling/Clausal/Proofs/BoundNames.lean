import Mathlib.Tactic.Common
import Clausal.Formula.Lowering
import Clausal.Proofs.PrenexForm
import Clausal.Proofs.ReadableStatements

/-!
# Names of bound variables

Every variable that a formula text binds is a single character.  A name of one character is never
another name followed by a number, so the formulas that come from texts have plain binders, which is
what prenexing needs.
-/

namespace Clausal

/-- The variable of a readable binder is one character. -/
lemma Binder.IsReadable.length_var {b : Binder} (h : b.IsReadable) : b.var.length = 1 := by
  obtain ⟨v, -, hvar⟩ := h
  rw [hvar]
  exact String.length_singleton

namespace Statement

/-- The names that a statement binds, from left to right. -/
def boundVars : Statement → List String
  | .atom a => a.binder.toList.map Binder.var
  | .scoped _ binders _ operand => binders.map Binder.var ++ operand.boundVars
  | .joined _ binders _ left right =>
      binders.map Binder.var ++ (left.boundVars ++ right.boundVars)

/-- All names that a readable statement binds are single characters. -/
lemma IsReadable.length_of_mem_boundVars {st : Statement} (h : st.IsReadable) :
    ∀ v ∈ st.boundVars, v.length = 1 := by
  have hrun : ∀ {binders : List Binder}, (∀ b ∈ binders, b.IsReadable) →
      ∀ v ∈ binders.map Binder.var, v.length = 1 := by
    intro binders hbinders v hv
    obtain ⟨b, hb, rfl⟩ := List.mem_map.mp hv
    exact (hbinders b hb).length_var
  match st with
  | .atom a => exact hrun (fun b hb => h.binder b (Option.mem_toList.mp hb))
  | .scoped _ _ _ _ =>
    obtain ⟨-, -, hbinders, -, hoperand⟩ := h
    exact List.forall_mem_append.mpr ⟨hrun hbinders, length_of_mem_boundVars hoperand⟩
  | .joined _ _ _ _ _ =>
    obtain ⟨-, hbinders, hleft, hright⟩ := h
    refine List.forall_mem_append.mpr ⟨hrun hbinders, List.forall_mem_append.mpr ⟨?_, ?_⟩⟩
    · exact length_of_mem_boundVars hleft
    · exact length_of_mem_boundVars hright

end Statement

/-! ## Lowering -/

namespace Formula

/-- Lowering a statement keeps the names that it binds. -/
lemma boundVars_ofStatement {s : Statement} {f : Formula} (h : ofStatement s = .ok f) :
    f.boundVars = s.boundVars := by
  have hlead : ∀ (negated : Bool) (binders : List Binder) (g : Formula),
      (withLead negated binders g).boundVars = binders.map Binder.var ++ g.boundVars := by
    intro negated binders g
    cases negated <;> exact boundVars_bindAll binders g
  match s with
  | .atom a =>
    rw [ofStatement, ofAtom] at h
    split at h
    · cases h
    · cases h
      rw [boundVars_bindAll, boundVars, List.append_nil, Statement.boundVars]
  | .scoped negated binders connective operand =>
    rw [ofStatement] at h
    obtain ⟨g, hg, h⟩ := bind_eq_ok h
    cases connective with
    | some c => cases h
    | none =>
      cases h
      rw [hlead, boundVars_ofStatement hg, Statement.boundVars]
  | .joined negated binders connective left right =>
    rw [ofStatement] at h
    obtain ⟨g, hg, h⟩ := bind_eq_ok h
    cases connective with
    | none => cases h
    | some c =>
      obtain ⟨k, hk, h⟩ := bind_eq_ok h
      cases h
      have hjoin : (join c g k).boundVars = g.boundVars ++ k.boundVars := by cases c <;> rfl
      rw [hlead, hjoin, boundVars_ofStatement hg, boundVars_ofStatement hk, Statement.boundVars]

/-- A formula whose bound names are single characters has plain binders. -/
lemma hasPlainBinders_of_length {f : Formula} (h : ∀ v ∈ f.boundVars, v.length = 1) :
    f.HasPlainBinders := by
  intro v hv k hk
  have hlong := h _ hk
  have hpos : 0 < (toString (k + 1)).length := by
    rw [Nat.toString_eq_repr]
    exact Nat.length_repr_pos
  rw [String.length_append, h v hv] at hlong
  omega

/-- The formula that a text says has plain binders. -/
theorem hasPlainBinders_of_parse {text : String} {st : Statement} {f : Formula}
    (hparse : Statement.parse text = .ok (some st)) (hlower : ofStatement st = .ok f) :
    f.HasPlainBinders := by
  refine hasPlainBinders_of_length (fun v hv => ?_)
  rw [boundVars_ofStatement hlower] at hv
  exact (Statement.isReadable_of_parse hparse).length_of_mem_boundVars v hv

end Formula

end Clausal
