/-!
# Fresh names

A fresh name is the first member of a sequence of candidates that is not taken.  When the
candidates are pairwise distinct, the first `taken.length + 1` of them cannot all be taken, so
looking at that many is enough.
-/

namespace Clausal

/-- The least of the indices `k, …, k + tries - 1` whose candidate is not taken, and
`k + tries` if there is none. -/
def freshIndexFrom (candidate : Nat → String) (taken : List String) : (tries k : Nat) → Nat
  | 0, k => k
  | tries + 1, k =>
      if candidate k ∈ taken then freshIndexFrom candidate taken tries (k + 1) else k

/-- The index of the first candidate that is not taken. -/
def freshIndex (candidate : Nat → String) (taken : List String) : Nat :=
  freshIndexFrom candidate taken taken.length 0

/-- The first candidate that is not taken. -/
def freshName (candidate : Nat → String) (taken : List String) : String :=
  candidate (freshIndex candidate taken)

/-- Every candidate passed over is taken. -/
theorem candidate_mem_of_lt_freshIndexFrom {candidate : Nat → String} {taken : List String}
    {tries k i : Nat} (hk : k ≤ i) (hi : i < freshIndexFrom candidate taken tries k) :
    candidate i ∈ taken := by
  induction tries generalizing k with
  | zero => simp only [freshIndexFrom] at hi; omega
  | succ tries ih =>
    rw [freshIndexFrom] at hi
    split at hi
    case isTrue hmem =>
      rcases Nat.eq_or_lt_of_le hk with rfl | hlt
      · exact hmem
      · exact ih hlt hi
    case isFalse => omega

/-- The search stops at a candidate that is not taken, or it has used up its tries. -/
theorem freshIndexFrom_cases (candidate : Nat → String) (taken : List String) (tries k : Nat) :
    candidate (freshIndexFrom candidate taken tries k) ∉ taken ∨
      freshIndexFrom candidate taken tries k = k + tries := by
  induction tries generalizing k with
  | zero => exact Or.inr rfl
  | succ tries ih =>
    rw [freshIndexFrom]
    split
    case isTrue => exact (ih (k + 1)).imp_right (by omega)
    case isFalse h => exact Or.inl h

/-- Among pairwise distinct candidates the name found is not taken. -/
theorem freshName_not_mem {candidate : Nat → String}
    (hinj : ∀ i j, candidate i = candidate j → i = j) (taken : List String) :
    freshName candidate taken ∉ taken := by
  intro hmem
  have hidx : freshIndex candidate taken = taken.length := by
    have := freshIndexFrom_cases candidate taken taken.length 0
    simp only [Nat.zero_add] at this
    exact this.resolve_left (fun h => h hmem)
  let names := (List.range (taken.length + 1)).map candidate
  have hnodup : names.Nodup :=
    List.Pairwise.map candidate (fun _ _ hne heq => hne (hinj _ _ heq)) List.nodup_range
  have hsub : names ⊆ taken := by
    intro name hname
    obtain ⟨i, hi, rfl⟩ := List.mem_map.mp hname
    rcases Nat.lt_or_eq_of_le (Nat.le_of_lt_succ (List.mem_range.mp hi)) with hlt | rfl
    · exact candidate_mem_of_lt_freshIndexFrom (Nat.zero_le i) (hidx ▸ hlt)
    · rw [freshName, hidx] at hmem
      exact hmem
  have := hnodup.length_le_of_subset hsub
  simp only [names, List.length_map, List.length_range] at this
  omega

end Clausal
