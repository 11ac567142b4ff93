import Clausal.Proofs.HigherCeilings
import Mathlib.Data.List.Sort
import Mathlib.Logic.Relation

/-!
# The clauses of a proof

The clauses that a log gives as the proof are those to which the parents of the empty clause, their
parents, and so on lead, and no others.  This holds of every log, whatever its steps are: they may
go in a circle, lead to clauses that are recorded nowhere, or derive one clause several times, in
which case the last step counts.

While the clauses are collected, the parents of every clause visited are visited too or still to be
looked at, and every clause visited or to be looked at is an ancestor of the one that was first
looked at.  When nothing is left to be looked at, the first fact gives all ancestors and the second
one nothing else.

In the log of a refutation each step leads to lower numbers, and there is one for each clause that
was not given.  So the empty clause is the last one of the proof, and the proof is complete.
-/

namespace Clausal

namespace ResolutionStep

/-! ## Ancestors -/

variable {steps : List ResolutionStep} {visited agenda : List ℕ} {id parent : ℕ}

/-- A parent of a clause according to the last step that is recorded for the clause. -/
def IsParent (steps : List ResolutionStep) (id parent : ℕ) : Prop :=
  ∃ before st after, steps = before ++ st :: after ∧ st.resolventId = id ∧
    (∀ st' ∈ after, st'.resolventId ≠ id) ∧ (parent = st.parentIds.1 ∨ parent = st.parentIds.2)

/-- The parents of a clause are those of the last step recorded for it. -/
lemma parentsOf?_eq_some_iff {parents : ℕ × ℕ} :
    parentsOf? steps id = some parents ↔
      ∃ before st after, steps = before ++ st :: after ∧ st.resolventId = id ∧
        (∀ st' ∈ after, st'.resolventId ≠ id) ∧ st.parentIds = parents := by
  unfold parentsOf?
  rw [Option.map_eq_some_iff]
  constructor
  · rintro ⟨st, hfind, hparents⟩
    obtain ⟨hid, later, earlier, hreverse, hlater⟩ := List.find?_eq_some_iff_append.mp hfind
    refine ⟨earlier.reverse, st, later.reverse, ?_, of_decide_eq_true hid, fun st' hst' heq => ?_,
      hparents⟩
    · rw [List.reverse_eq_append_iff] at hreverse
      simpa using hreverse
    · have hne := hlater st' (List.mem_reverse.mp hst')
      simp [heq] at hne
  · rintro ⟨before, st, after, rfl, hid, hafter, hparents⟩
    refine ⟨st,
      List.find?_eq_some_iff_append.mpr ⟨decide_eq_true hid, after.reverse, before.reverse,
      by simp, fun st' hst' => ?_⟩, hparents⟩
    simp [hafter st' (List.mem_reverse.mp hst')]

/-- A clause with two parents according to the steps has these and no other parents. -/
lemma isParent_iff_of_parentsOf? {a b : ℕ} (h : parentsOf? steps id = some (a, b)) :
    IsParent steps id parent ↔ parent = a ∨ parent = b := by
  constructor
  · rintro ⟨before, st, after, hsteps, hid, hafter, hparent⟩
    have hst := parentsOf?_eq_some_iff.mpr ⟨before, st, after, hsteps, hid, hafter, rfl⟩
    obtain heq : st.parentIds = (a, b) := Option.some.inj (hst.symm.trans h)
    rwa [heq] at hparent
  · intro hparent
    obtain ⟨before, st, after, hsteps, hid, hafter, heq⟩ := parentsOf?_eq_some_iff.mp h
    exact ⟨before, st, after, hsteps, hid, hafter, by rwa [heq]⟩

/-- A clause for which no step is recorded has no parents. -/
lemma not_isParent_of_parentsOf? (h : parentsOf? steps id = none) : ¬ IsParent steps id parent := by
  rintro ⟨before, st, after, hsteps, hid, hafter, -⟩
  rw [parentsOf?_eq_some_iff.mpr ⟨before, st, after, hsteps, hid, hafter, rfl⟩] at h
  cases h

/-- No clause is visited twice. -/
lemma nodup_ancestors (h : visited.Nodup) : (ancestors steps visited agenda).Nodup := by
  fun_induction ancestors steps visited agenda with
  | case1 visited => exact h
  | case2 visited id agenda hid ih => exact ih h
  | case3 visited id agenda hid hnone ih => exact ih (List.nodup_cons.mpr ⟨hid, h⟩)
  | case4 visited id agenda hid a b hsome ih => exact ih (List.nodup_cons.mpr ⟨hid, h⟩)

/-- Every clause that is visited was visited before, or one that was to be looked at leads to it. -/
lemma mem_or_exists_of_mem_ancestors (h : id ∈ ancestors steps visited agenda) :
    id ∈ visited ∨ ∃ a ∈ agenda, Relation.ReflTransGen (IsParent steps) a id := by
  -- the clause that is looked at leads to itself and to whatever its parents lead to
  have hcons : ∀ {visited agenda : List ℕ} {a : ℕ},
      (id ∈ a :: visited ∨ ∃ b ∈ agenda, Relation.ReflTransGen (IsParent steps) b id) →
      id ∈ visited ∨ ∃ b ∈ a :: agenda, Relation.ReflTransGen (IsParent steps) b id := by
    rintro visited agenda a (hid | ⟨b, hb, hpath⟩)
    · rcases List.mem_cons.mp hid with rfl | hid
      · exact Or.inr ⟨id, List.mem_cons_self, .refl⟩
      · exact Or.inl hid
    · exact Or.inr ⟨b, List.mem_cons_of_mem _ hb, hpath⟩
  fun_induction ancestors steps visited agenda with
  | case1 visited => exact Or.inl h
  | case2 visited a agenda ha ih =>
    rcases ih h with hid | ⟨b, hb, hpath⟩
    · exact Or.inl hid
    · exact Or.inr ⟨b, List.mem_cons_of_mem _ hb, hpath⟩
  | case3 visited a agenda ha hnone ih => exact hcons (ih h)
  | case4 visited a agenda ha b c hsome ih =>
    rcases ih h with hid | ⟨d, hd, hpath⟩
    · exact hcons (Or.inl hid)
    · rw [List.mem_cons, List.mem_cons, ← or_assoc] at hd
      rcases hd with hd | hd
      · have hparent := (isParent_iff_of_parentsOf? hsome).mpr hd
        exact Or.inr ⟨a, List.mem_cons_self, .head hparent hpath⟩
      · exact hcons (Or.inr ⟨d, hd, hpath⟩)

/-- Passing over a clause that is visited already loses nothing. -/
lemma append_cons_subset_of_mem (hid : id ∈ visited) :
    visited ++ id :: agenda ⊆ visited ++ agenda := by
  rw [List.append_subset, List.cons_subset]
  exact ⟨List.subset_append_left _ _, List.mem_append_left _ hid, List.subset_append_right _ _⟩

/-- Visiting a clause loses nothing, whatever comes before the others to be looked at. -/
lemma append_cons_subset_cons_append (more : List ℕ) :
    visited ++ id :: agenda ⊆ (id :: visited) ++ (more ++ agenda) := by
  rw [List.append_subset, List.cons_subset]
  refine ⟨fun v hv => ?_, List.mem_cons_self, fun v hv => ?_⟩
  · exact List.mem_append_left _ (List.mem_cons_of_mem _ hv)
  · exact List.mem_append_right _ (List.mem_append_right _ hv)

/-- What was visited before and what was to be looked at is visited in the end. -/
lemma append_subset_ancestors : visited ++ agenda ⊆ ancestors steps visited agenda := by
  fun_induction ancestors steps visited agenda with
  | case1 visited =>
    rw [List.append_nil]
    exact List.Subset.refl _
  | case2 visited id agenda hid ih => exact List.Subset.trans (append_cons_subset_of_mem hid) ih
  | case3 visited id agenda hid hnone ih =>
    exact List.Subset.trans (append_cons_subset_cons_append []) ih
  | case4 visited id agenda hid a b hsome ih =>
    exact List.Subset.trans (append_cons_subset_cons_append [a, b]) ih

/-- If the parents of all clauses visited are visited or to be looked at, then in the end they are
all visited. -/
lemma isParent_mem_ancestors
    (h : ∀ v ∈ visited, ∀ p, IsParent steps v p → p ∈ visited ++ agenda) :
    ∀ v ∈ ancestors steps visited agenda, ∀ p, IsParent steps v p →
      p ∈ ancestors steps visited agenda := by
  fun_induction ancestors steps visited agenda with
  | case1 visited =>
    rw [List.append_nil] at h
    exact h
  | case2 visited id agenda hid ih =>
    exact ih fun v hv p hp => append_cons_subset_of_mem hid (h v hv p hp)
  | case3 visited id agenda hid hnone ih =>
    refine ih (List.forall_mem_cons.mpr ⟨fun p hp => ?_, fun v hv p hp => ?_⟩)
    · exact absurd hp (not_isParent_of_parentsOf? hnone)
    · exact append_cons_subset_cons_append [] (h v hv p hp)
  | case4 visited id agenda hid a b hsome ih =>
    refine ih (List.forall_mem_cons.mpr ⟨fun p hp => ?_, fun v hv p hp => ?_⟩)
    · -- the parents of the clause that is looked at come first on the agenda
      have hparents : p ∈ [a, b] := by
        rw [List.mem_cons, List.mem_singleton]
        exact (isParent_iff_of_parentsOf? hsome).mp hp
      exact List.mem_append_right _ (List.mem_append_left agenda hparents)
    · exact append_cons_subset_cons_append [a, b] (h v hv p hp)

/-- The clauses collected from one clause are those to which its parents, their parents, and so on
lead. -/
lemma mem_ancestors_iff {root : ℕ} :
    id ∈ ancestors steps [] [root] ↔ Relation.ReflTransGen (IsParent steps) root id := by
  constructor
  · intro h
    rcases mem_or_exists_of_mem_ancestors h with hid | ⟨a, ha, hpath⟩
    · exact absurd hid List.not_mem_nil
    · rwa [List.mem_singleton.mp ha] at hpath
  · intro hpath
    induction hpath with
    | refl => exact append_subset_ancestors (List.mem_singleton.mpr rfl)
    | tail _ hparent ih =>
      exact isParent_mem_ancestors (fun v hv => absurd hv List.not_mem_nil) _ ih _ hparent

end ResolutionStep

/-! ## The proof that a log gives -/

namespace ProofLog

variable {log : ProofLog}

/-- The first entry of a log that tells of a contradiction names the given clause. -/
def FirstContradiction (log : ProofLog) (id : ℕ) : Prop :=
  ∃ before parents after, log.entries.toList = before ++ .contradiction id parents :: after ∧
    ∀ id' parents', LogEntry.contradiction id' parents' ∉ before

/-- The contradiction of a log is the first one that it tells of. -/
lemma contradiction?_eq_some_iff {id : ℕ} :
    log.contradiction? = some id ↔ log.FirstContradiction id := by
  unfold contradiction? FirstContradiction
  rw [List.findSome?_eq_some_iff]
  constructor
  · rintro ⟨before, e, after, hentries, he, hbefore⟩
    cases e with
    | contradiction clauseId parents =>
      cases he
      refine ⟨before, parents, after, hentries, fun id' parents' hmem => ?_⟩
      cases hbefore _ hmem
    | initial | resolution | noNewClauses | timeout => cases he
  · rintro ⟨before, parents, after, hentries, hbefore⟩
    refine ⟨before, _, after, hentries, rfl, fun e he => ?_⟩
    cases e with
    | contradiction id' parents' => exact absurd he (hbefore id' parents')
    | initial | resolution | noNewClauses | timeout => rfl

/-- A log has no contradiction exactly if no entry tells of one. -/
lemma contradiction?_eq_none_iff :
    log.contradiction? = none ↔
      ∀ id parents, LogEntry.contradiction id parents ∉ log.entries.toList := by
  unfold contradiction?
  rw [List.findSome?_eq_none_iff]
  constructor
  · intro h id parents hmem
    cases h _ hmem
  · intro h e he
    cases e with
    | contradiction id parents => exact absurd he (h id parents)
    | initial | resolution | noNewClauses | timeout => rfl

/-- The clauses of a proof come in strictly ascending order. -/
lemma pairwise_lt_of_proofClauses? {ids : List ℕ} (h : log.proofClauses? = some ids) :
    ids.Pairwise (· < ·) := by
  obtain ⟨root, -, rfl⟩ := Option.map_eq_some_iff.mp h
  have hnodup : (ResolutionStep.ancestors log.steps [] [root]).mergeSort.Nodup :=
    (List.mergeSort_perm _ _).nodup_iff.mpr (ResolutionStep.nodup_ancestors List.nodup_nil)
  have hsorted : (ResolutionStep.ancestors log.steps [] [root]).mergeSort.Pairwise (· ≤ ·) :=
    List.sortedLE_mergeSort.pairwise
  exact (hsorted.and hnodup).imp fun hab => Nat.lt_of_le_of_ne hab.1 hab.2

/-- The clauses of a proof are the first contradiction and the clauses it derives from. -/
lemma exists_firstContradiction_of_proofClauses? {ids : List ℕ} (h : log.proofClauses? = some ids) :
    ∃ root, log.FirstContradiction root ∧
      ∀ id, id ∈ ids ↔ Relation.ReflTransGen (ResolutionStep.IsParent log.steps) root id := by
  obtain ⟨root, hroot, rfl⟩ := Option.map_eq_some_iff.mp h
  refine ⟨root, contradiction?_eq_some_iff.mp hroot, fun id => ?_⟩
  rw [List.mem_mergeSort, ResolutionStep.mem_ancestors_iff]

end ProofLog

/-! ## The proof in a refutation -/

namespace Registry

variable {mode : SubsumptionMode} {given : ℕ} {ending : List LogEntry} {r : Registry}

/-- The step of a documented registry that stands at place `n` derives the clause with number `given
+ n` from its parents, which have lower numbers. -/
lemma Documented.parents_of_step (h : r.Documented mode given ending) {n : ℕ} {st : ResolutionStep}
    (hst : r.log.steps[n]? = some st) :
    st.resolventId = given + n ∧ st.parentIds.1 < given + n ∧ st.parentIds.2 < given + n ∧
      ∃ c, r.get? (given + n) = some c ∧
        c.provenance.parents = [st.parentIds.1, st.parentIds.2] := by
  obtain ⟨hid, c, left, right, hc, -, -, hparents, -⟩ := h.tells n st hst
  obtain ⟨p, hlt, hlast, -, -, hparents', -⟩ :=
    (h.derives _ c hc (Nat.le_add_right _ _)).exists_parents
  rw [hparents, List.cons.injEq, List.cons.injEq] at hparents'
  obtain ⟨hleft, hright, -⟩ := hparents'
  rw [hleft, hright]
  exact ⟨hid, Nat.lt_trans hlt hlast, hlast, c, hc, by rw [hparents, hleft, hright]⟩

/-- A parent of a clause has a lower number. -/
lemma Documented.lt_of_isParent (h : r.Documented mode given ending) {id parent : ℕ}
    (hparent : ResolutionStep.IsParent r.log.steps id parent) : parent < id := by
  obtain ⟨before, st, after, hsteps, rfl, -, hparent⟩ := hparent
  have hst : r.log.steps[before.length]? = some st := by
    rw [hsteps, List.getElem?_append_right (Nat.le_refl _), Nat.sub_self]
    rfl
  obtain ⟨hid, hleft, hright, -⟩ := h.parents_of_step hst
  rw [hid]
  rcases hparent with rfl | rfl
  · exact hleft
  · exact hright

/-- A clause that was not given has two parents, to which the log leads. -/
lemma Documented.exists_isParent (h : r.Documented mode given ending) {k : ℕ} (hk : given ≤ k)
    (hsize : k < r.size) :
    ∃ c left right, r.get? k = some c ∧ c.provenance.parents = [left, right] ∧
      ResolutionStep.IsParent r.log.steps k left ∧ ResolutionStep.IsParent r.log.steps k right := by
  obtain ⟨n, rfl⟩ := Nat.exists_eq_add_of_le hk
  have hn : n < r.log.steps.length := by
    have hlength := h.length_steps
    omega
  have hst := List.getElem?_eq_getElem hn
  obtain ⟨hid, -, -, c, hc, hparents⟩ := h.parents_of_step hst
  -- the steps after this one derive clauses with higher numbers
  have hlast : ∀ st' ∈ r.log.steps.drop (n + 1), st'.resolventId ≠ given + n := by
    intro st' hst'
    obtain ⟨m, hm⟩ := List.mem_iff_getElem?.mp hst'
    rw [List.getElem?_drop] at hm
    have hid' := (h.parents_of_step hm).1
    omega
  have hsteps : r.log.steps = r.log.steps.take n ++ r.log.steps[n] :: r.log.steps.drop (n + 1) := by
    rw [← List.drop_eq_getElem_cons hn, List.take_append_drop]
  exact ⟨c, _, _, hc, hparents, ⟨_, _, _, hsteps, hid, hlast, Or.inl rfl⟩,
    ⟨_, _, _, hsteps, hid, hlast, Or.inr rfl⟩⟩

/-- The clauses given are recorded at the start of the log. -/
lemma exists_mem_take_records {id : ℕ} (hid : id < given) (hgiven : given ≤ r.size) :
    ∃ record ∈ r.records.take given, record.id = id := by
  have hsize : id < r.clauses.toList.length := Nat.lt_of_lt_of_le hid hgiven
  refine ⟨recordOf (r.clauses.toList[id]) id, List.mem_iff_getElem?.mpr ⟨id, ?_⟩, rfl⟩
  rw [List.getElem?_take_of_lt hid, records, List.getElem?_map, List.getElem?_zipIdx,
    List.getElem?_eq_getElem hsize, Option.map_some, Option.map_some, Nat.zero_add]

/-- The proof that the log of a refutation gives: the empty clause comes last, and each clause was
given or has both its parents in the proof. -/
lemma Documented.exists_proofClauses? (h : r.Documented mode given ending)
    (hends : r.EndsWith (some .refuted) ending) :
    ∃ ids root c, r.log.proofClauses? = some ids ∧ r.get? root = some c ∧ c.isEmpty = true ∧
      root ∈ ids ∧ (∀ id ∈ ids, id ≤ root) ∧
      ∀ id ∈ ids, ∃ d, r.get? id = some d ∧
        (id < given ∧ d.provenance.parents = [] ∨
          ∃ left ∈ ids, ∃ right ∈ ids, d.provenance.parents = [left, right]) := by
  obtain ⟨root, c, hfind⟩ := hends.hasEmpty.exists_findEmpty?
  have hroot : r.log.contradiction? = some root := by
    rw [h.contradiction?_eq hends, hfind]
    rfl
  obtain ⟨hget, hempty⟩ := get?_of_findEmpty? hfind
  have hmem : ∀ id, id ∈ (ResolutionStep.ancestors r.log.steps [] [root]).mergeSort ↔
      Relation.ReflTransGen (ResolutionStep.IsParent r.log.steps) root id := by
    intro id
    rw [List.mem_mergeSort, ResolutionStep.mem_ancestors_iff]
  have hle : ∀ id, Relation.ReflTransGen (ResolutionStep.IsParent r.log.steps) root id →
      id ≤ root := by
    intro id hpath
    induction hpath with
    | refl => exact Nat.le_refl _
    | tail _ hparent ih => exact Nat.le_trans (Nat.le_of_lt (h.lt_of_isParent hparent)) ih
  refine ⟨_, root, c, by rw [ProofLog.proofClauses?, hroot, Option.map_some], hget, hempty,
    (hmem root).mpr .refl, fun id hid => hle id ((hmem id).mp hid), fun id hid => ?_⟩
  have hpath := (hmem id).mp hid
  have hsize : id < r.size := Nat.lt_of_le_of_lt (hle id hpath) (lt_size_of_get? hget)
  rcases Nat.lt_or_ge id given with hgiven | hgiven
  · have hd : r.get? id = some r.clauses[id] := Array.getElem?_eq_getElem hsize
    exact ⟨_, hd, Or.inl ⟨hgiven, h.parents_eq_nil id _ hd hgiven⟩⟩
  · obtain ⟨d, left, right, hd, hparents, hleft, hright⟩ := h.exists_isParent hgiven hsize
    exact ⟨d, hd, Or.inr ⟨left, (hmem left).mpr (hpath.tail hleft), right,
      (hmem right).mpr (hpath.tail hright), hparents⟩⟩

end Registry

/-- The clauses that a log gives as the proof: there are none exactly if no entry tells of a
contradiction, and else they are, in strictly ascending order, the clause of the first contradiction
and all clauses to which the last steps recorded lead from it.  In an attempt that has come to a
refutation the last of them is an empty clause, and each of them was given at the start or has both
its parents among them. -/
theorem proofClauses?_eq_none_iff_and_mem_iff :
    (∀ log : ProofLog,
      (log.proofClauses? = none ↔
        ∀ id parents, LogEntry.contradiction id parents ∉ log.entries.toList) ∧
      ∀ ids, log.proofClauses? = some ids → ids.Pairwise (· < ·) ∧
        ∃ root, log.FirstContradiction root ∧
          ∀ id, id ∈ ids ↔ Relation.ReflTransGen (ResolutionStep.IsParent log.steps) root id) ∧
    ∀ (settings : Settings) (a : Attempt) (tried : List ParentPair),
      Attempt.Reached settings a tried → a.verdict? = some .refuted →
        ∃ ids root c records, a.registry.log.proofClauses? = some ids ∧
          a.registry.get? root = some c ∧ c.isEmpty = true ∧ root ∈ ids ∧ (∀ id ∈ ids, id ≤ root) ∧
          a.registry.log.entries.toList.head? = some (.initial records) ∧
          ∀ id ∈ ids, ∃ d, a.registry.get? id = some d ∧
            ((∃ record ∈ records, record.id = id) ∧ d.provenance.parents = [] ∨
              ∃ left ∈ ids, ∃ right ∈ ids, d.provenance.parents = [left, right]) := by
  refine ⟨fun log => ⟨?_, fun ids hids => ?_⟩, fun settings a tried hreached hverdict => ?_⟩
  · rw [ProofLog.proofClauses?, Option.map_eq_none_iff, ProofLog.contradiction?_eq_none_iff]
  · exact ⟨log.pairwise_lt_of_proofClauses? hids,
      log.exists_firstContradiction_of_proofClauses? hids⟩
  · cases a with
    | collecting i => cases hverdict
    | searching s => cases hverdict
    | finished s verdict =>
      obtain rfl : verdict = .refuted := Option.some.inj hverdict
      obtain ⟨-, i, start, ending, -, -, -, ⟨hdocumented, -⟩, hends⟩ := hreached.recorded
      obtain ⟨ids, root, c, hids, hroot, hempty, hmem, hle, hproof⟩ :=
        hdocumented.exists_proofClauses? hends
      have hinitial : s.registry.log.entries.toList.head? =
          some (.initial (s.registry.records.take start.registry.size)) := by
        rw [hdocumented.entries_eq]
        rfl
      refine ⟨ids, root, c, _, hids, hroot, hempty, hmem, hle, hinitial, fun id hid => ?_⟩
      obtain ⟨d, hd, ⟨hgiven, hparents⟩ | hparents⟩ := hproof id hid
      · have hrecord := Registry.exists_mem_take_records hgiven hdocumented.given_le
        exact ⟨d, hd, Or.inl ⟨hrecord, hparents⟩⟩
      · exact ⟨d, hd, Or.inr hparents⟩

/-- The attempt at `∀x P(x)` and `¬P(A)` comes to a refutation, and its log gives a proof that ends
with the empty clause. -/
theorem exists_proofClauses?_allP_notPA :
    ∃ a tried ids root, Attempt.Reached .standard a tried ∧ a.verdict? = some .refuted ∧
      a.registry.log.proofClauses? = some ids ∧ ids.Pairwise (· < ·) ∧
      (∃ c, a.registry.get? root = some c ∧ c.isEmpty = true) ∧ root ∈ ids ∧
        ∀ id ∈ ids, id ≤ root := by
  have hadd : (Attempt.new .standard).addAll [("∀x P(x)", .input), ("¬P(A)", .input)] =
      .ok (.collecting intakeP) := by
    rw [Attempt.new, Attempt.addAll_cons_of_readFormula? _ readFormula?_allP,
      Attempt.addAll_cons_of_readFormula? _ readFormula?_notPA]
    rfl
  have hstart : intakeP.start = .ok searchP :=
    Intake.start_eq clausesFrom_intakeP (List.cons_ne_nil _ _)
  have hstep : (Attempt.collecting intakeP).step = Attempt.ofStep searchP.step := by
    rw [Attempt.step, hstart]
  obtain ⟨tried, hreached⟩ := (Attempt.Reached.new.addAll hadd).exists_run hstep
  rw [Search.run_of_step_none step_searchP, Search.run_of_step_some step_step_searchP] at hreached
  obtain ⟨hlogs, hrefuted⟩ := proofClauses?_eq_none_iff_and_mem_iff
  obtain ⟨ids, root, c, records, hids, hroot, hempty, hmem, hle, -⟩ := hrefuted _ _ _ hreached rfl
  exact ⟨_, tried, ids, root, hreached, rfl, hids, ((hlogs _).2 ids hids).1,
    ⟨c, hroot, hempty⟩, hmem, hle⟩

end Clausal
