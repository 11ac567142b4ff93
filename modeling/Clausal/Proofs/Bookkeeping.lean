import Clausal.Proofs.Offers
import Clausal.Proofs.Saturation

/-!
# The registry and its log

The log of an attempt tells how its clauses came about.  It is empty until the search starts.  Then
it has one entry for the clauses given, one entry for each resolvent, in the order of their numbers
and of the pairs that they come from, and one last entry when there is a verdict.

The registry keeps its own order too: each clause knows its number, and each resolvent is new, that
is, not a tautology and not subsumed by a clause with a lower number.  Both are kept by every
resolvent that is registered in the middle of a round, hence by rounds, by steps and by attempts,
whatever is asked of them.
-/

namespace Clausal

/-! ## Log entries -/

namespace ProofLog

/-- The entry of a resolution step comes after the steps before it. -/
lemma steps_push_resolution (log : ProofLog) (st : ResolutionStep) :
    (log.push (.resolution st)).steps = log.steps ++ [st] := by
  simp [steps, push]

/-- An entry that tells of no resolution step leaves the steps as they are. -/
lemma steps_push_of_forall_ne {log : ProofLog} {e : LogEntry} (h : ∀ st, e ≠ .resolution st) :
    (log.push e).steps = log.steps := by
  cases e with
  | resolution st => exact absurd rfl (h st)
  | initial | contradiction | noNewClauses | timeout => simp [steps, push]

end ProofLog

/-- The place of a resolution step in a search: the step, then the numbers of the two parents. -/
def ResolutionStep.place (st : ResolutionStep) : ℕ ×ₗ ℕ ×ₗ ℕ :=
  toLex (st.step, toLex st.parentIds)

namespace Registry

/-! ## Adding a resolvent -/

variable {mode : SubsumptionMode} {r : Registry} {given : ℕ}

/-- The clauses after a resolvent is added, by their numbers. -/
lemma get?_addResolvent (r : Registry) (step : ℕ) (p : ParentPair) (res : Resolvent) (k : ℕ) :
    (r.addResolvent step p res).get? k =
      if k = r.size then some { res.clause with id := some r.size } else r.get? k :=
  Array.getElem?_push

/-- There is one clause more after a resolvent is added. -/
lemma size_addResolvent (r : Registry) (step : ℕ) (p : ParentPair) (res : Resolvent) :
    (r.addResolvent step p res).size = r.size + 1 :=
  Array.size_push _

/-- What the log tells of a resolvent. -/
def stepOf (r : Registry) (step : ℕ) (p : ParentPair) (res : Resolvent) : ResolutionStep where
  step := step
  parentIds := (p.leftId, p.rightId)
  parentTexts := (p.left.text, p.right.text)
  resolventId := r.size
  resolventText := res.clause.text
  substitution := res.unifier.texts
  cut := (res.cut.1.text, res.cut.2.text)

/-- The log after a resolvent is added. -/
lemma log_addResolvent (r : Registry) (step : ℕ) (p : ParentPair) (res : Resolvent) :
    (r.addResolvent step p res).log = r.log.push (.resolution (r.stepOf step p res)) :=
  rfl

/-- Clauses that are registered have numbers below the size. -/
lemma lt_size_of_get? {k : ℕ} {c : Clause} (h : r.get? k = some c) : k < r.size :=
  (Array.getElem?_eq_some_iff.mp h).1

/-- What the log shows of the first clauses does not change when others are added. -/
lemma IsPartOf.take_records {r r' : Registry} (h : r.IsPartOf r') (hgiven : given ≤ r.size) :
    r'.records.take given = r.records.take given := by
  obtain ⟨more, hmore⟩ := h
  have hlength : given ≤ r.clauses.toList.zipIdx.length := by
    rw [List.length_zipIdx]
    exact hgiven
  rw [records, records, ← List.map_take, ← List.map_take, ← hmore, List.zipIdx_append,
    List.take_append_of_le_length hlength]

/-! ## Growing registries with their logs -/

/-- The clauses and the log entries of a registry are the first ones of another. -/
structure Grows (r r' : Registry) : Prop where
  isPartOf : r.IsPartOf r'
  log : r.log.entries.toList <+: r'.log.entries.toList

lemma Grows.refl (r : Registry) : r.Grows r :=
  ⟨.refl r, List.prefix_rfl⟩

lemma Grows.trans {r r' r'' : Registry} (h : r.Grows r') (h' : r'.Grows r'') : r.Grows r'' :=
  ⟨h.isPartOf.trans h'.isPartOf, h.log.trans h'.log⟩

/-- A log grows by an entry. -/
lemma grows_note (r : Registry) (e : LogEntry) : r.Grows (r.note e) := by
  refine ⟨.refl r, ?_⟩
  rw [note, ProofLog.push, Array.toList_push]
  exact List.prefix_append _ _

/-- A registry grows by a resolvent. -/
lemma grows_addResolvent (r : Registry) (step : ℕ) (p : ParentPair) (res : Resolvent) :
    r.Grows (r.addResolvent step p res) := by
  constructor
  · rw [IsPartOf, clauses_addResolvent]
    exact List.prefix_append _ _
  · rw [log_addResolvent, ProofLog.push, Array.toList_push]
    exact List.prefix_append _ _

/-- A round only adds to the registry and its log. -/
lemma grows_resolveRound (r : Registry) (settings : Settings) (step paired : ℕ) :
    r.Grows (r.resolveRound settings step paired) := by
  rw [resolveRound_eq]
  refine Round.foldl_tryPair_induct (P := fun round => r.Grows round.registry) (.refl r) ?_
  intro round p _ res _ hround _ _
  exact hround.trans (grows_addResolvent _ _ _ _)

/-! ## Documented registries -/

/-- The clause with number `k` is a resolvent of two clauses with lower numbers, its parents, and
new: not a tautology, and not subsumed by a clause with a lower number. -/
structure Derives (mode : SubsumptionMode) (r : Registry) (k : ℕ) (c : Clause) : Prop where
  exists_parents : ∃ p : ParentPair, p.leftId < p.rightId ∧ p.rightId < k ∧
    r.get? p.leftId = some p.left ∧ r.get? p.rightId = some p.right ∧
    c.provenance.parents = [p.leftId, p.rightId] ∧
    ∃ step, ∃ res ∈ p.resolvents step, c.literals = res.clause.literals
  noTautology : c.isTautology = false
  notSubsumed : ∀ j < k, ∀ d, r.get? j = some d → d.subsumesIn mode c = false

/-- A resolution step tells of the clause with number `k`: its number and text, and the numbers and
texts of its parents. -/
structure Tells (r : Registry) (st : ResolutionStep) (k : ℕ) : Prop where
  resolventId_eq : st.resolventId = k
  exists_clauses : ∃ c left right, r.get? k = some c ∧ r.get? st.parentIds.1 = some left ∧
    r.get? st.parentIds.2 = some right ∧ c.provenance.parents = [st.parentIds.1, st.parentIds.2] ∧
    st.parentTexts = (left.text, right.text) ∧ st.resolventText = c.text

/-- The first `given` clauses of a registry were given and the others derived, each clause has its
number and no literal twice, and the log tells of all of this: first the clauses given, then one
step for each clause derived, in order, then the entries of `ending`. -/
structure Documented (mode : SubsumptionMode) (given : ℕ) (ending : List LogEntry) (r : Registry) :
    Prop where
  given_le : given ≤ r.size
  id_eq : ∀ k c, r.get? k = some c → c.id = some k
  nodup : ∀ k c, r.get? k = some c → c.literals.Nodup
  parents_eq_nil : ∀ k c, r.get? k = some c → k < given → c.provenance.parents = []
  derives : ∀ k c, r.get? k = some c → given ≤ k → r.Derives mode k c
  entries_eq : r.log.entries.toList =
    .initial (r.records.take given) :: r.log.steps.map .resolution ++ ending
  length_steps : given + r.log.steps.length = r.size
  tells : ∀ n st, r.log.steps[n]? = some st → r.Tells st (given + n)
  sorted : r.log.steps.Pairwise fun st st' => st.place ≤ st'.place

/-- A derived clause stays derived when clauses are added. -/
lemma Derives.mono {r r' : Registry} {k : ℕ} {c : Clause} (h : r.Derives mode k c)
    (hpart : r.IsPartOf r') (hk : k ≤ r.size) : r'.Derives mode k c where
  exists_parents := by
    obtain ⟨p, hlt, hltk, hleft, hright, hparents⟩ := h.exists_parents
    exact ⟨p, hlt, hltk, hpart.get?_eq hleft, hpart.get?_eq hright, hparents⟩
  noTautology := h.noTautology
  notSubsumed j hj d hd :=
    h.notSubsumed j hj d (hpart.get?_eq_of_lt hd (Nat.lt_of_lt_of_le hj hk))

/-- What a resolution step tells stays right when clauses are added. -/
lemma Tells.mono {r r' : Registry} {st : ResolutionStep} {k : ℕ} (h : r.Tells st k)
    (hpart : r.IsPartOf r') : r'.Tells st k where
  resolventId_eq := h.resolventId_eq
  exists_clauses := by
    obtain ⟨c, left, right, hc, hleft, hright, htexts⟩ := h.exists_clauses
    exact ⟨c, left, right, hpart.get?_eq hc, hpart.get?_eq hleft, hpart.get?_eq hright, htexts⟩

/-- A resolvent that the registry does not cover is derived once it is added. -/
lemma derives_addResolvent {step : ℕ} {p : ParentPair} {res : Resolvent}
    (hlt : p.leftId < p.rightId) (hleft : r.get? p.leftId = some p.left)
    (hright : r.get? p.rightId = some p.right) (hres : res ∈ p.resolvents step)
    (hcovers : ¬ r.Covers mode res.clause) :
    (r.addResolvent step p res).Derives mode r.size { res.clause with id := some r.size } := by
  have hpart := (r.grows_addResolvent step p res).isPartOf
  have hcovers' : ¬ r.Covers mode { res.clause with id := some r.size } :=
    fun hnew => hcovers ((covers_congr rfl).mp hnew)
  obtain ⟨htautology, hsubsumes⟩ := not_or.mp hcovers'
  have hparents := ParentPair.parents_of_mem_resolvents hres
  refine ⟨⟨p, hlt, lt_size_of_get? hright, hpart.get?_eq hleft, hpart.get?_eq hright,
    hparents, step, res, hres, rfl⟩, Bool.eq_false_iff.mpr htautology, ?_⟩
  intro j hj d hd
  have hd' := hpart.get?_eq_of_lt hd hj
  rw [← Bool.not_eq_true]
  exact fun hsubsumed =>
    hsubsumes ⟨d, Array.mem_toList_iff.mpr (Array.mem_of_getElem? hd'), hsubsumed⟩

/-- The step recorded for a resolvent tells of it once it is added. -/
lemma tells_addResolvent {step : ℕ} {p : ParentPair} {res : Resolvent}
    (hleft : r.get? p.leftId = some p.left) (hright : r.get? p.rightId = some p.right)
    (hres : res ∈ p.resolvents step) :
    (r.addResolvent step p res).Tells (r.stepOf step p res) r.size := by
  have hpart := (r.grows_addResolvent step p res).isPartOf
  have hparents := ParentPair.parents_of_mem_resolvents hres
  have hnew : (r.addResolvent step p res).get? r.size =
      some { res.clause with id := some r.size } := by
    rw [get?_addResolvent, if_pos rfl]
  exact ⟨rfl, _, p.left, p.right, hnew, hpart.get?_eq hleft, hpart.get?_eq hright,
    hparents, rfl, rfl⟩

/-- Adding a resolvent that is not covered keeps a registry documented, if the resolvent does not
come before those recorded. -/
lemma Documented.addResolvent (h : r.Documented mode given []) {step : ℕ} {p : ParentPair}
    {res : Resolvent} (hlt : p.leftId < p.rightId) (hleft : r.get? p.leftId = some p.left)
    (hright : r.get? p.rightId = some p.right) (hres : res ∈ p.resolvents step)
    (hcovers : ¬ r.Covers mode res.clause)
    (hplace : ∀ st ∈ r.log.steps, st.place ≤ Offer.place step (p, res)) :
    (r.addResolvent step p res).Documented mode given [] := by
  have hpart := (r.grows_addResolvent step p res).isPartOf
  -- a clause is the new one or was there before
  have hcases : ∀ k c, (r.addResolvent step p res).get? k = some c →
      k = r.size ∧ c = { res.clause with id := some r.size } ∨ k < r.size ∧ r.get? k = some c := by
    intro k c hc
    rw [get?_addResolvent] at hc
    split at hc
    · rename_i hk
      exact Or.inl ⟨hk, (Option.some.inj hc).symm⟩
    · exact Or.inr ⟨lt_size_of_get? hc, hc⟩
  have hsteps : (r.addResolvent step p res).log.steps = r.log.steps ++ [r.stepOf step p res] := by
    rw [log_addResolvent, ProofLog.steps_push_resolution]
  constructor
  case given_le => exact Nat.le_trans h.given_le hpart.size_le
  case id_eq =>
    intro k c hc
    rcases hcases k c hc with ⟨rfl, rfl⟩ | ⟨-, hc⟩
    · rfl
    · exact h.id_eq k c hc
  case nodup =>
    intro k c hc
    rcases hcases k c hc with ⟨rfl, rfl⟩ | ⟨-, hc⟩
    · exact ParentPair.nodup_of_mem_resolvents hres
    · exact h.nodup k c hc
  case parents_eq_nil =>
    intro k c hc hk
    rcases hcases k c hc with ⟨rfl, rfl⟩ | ⟨-, hc⟩
    · exact absurd hk (Nat.not_lt.mpr h.given_le)
    · exact h.parents_eq_nil k c hc hk
  case derives =>
    intro k c hc hk
    rcases hcases k c hc with ⟨rfl, rfl⟩ | ⟨hlt, hc⟩
    · exact derives_addResolvent hlt hleft hright hres hcovers
    · exact (h.derives k c hc hk).mono hpart (Nat.le_of_lt hlt)
  case entries_eq =>
    have hentries := h.entries_eq
    rw [List.append_nil] at hentries
    rw [hsteps, hpart.take_records h.given_le, log_addResolvent, ProofLog.push, Array.toList_push,
      hentries, List.append_nil, List.map_append, List.map_singleton, List.cons_append]
  case length_steps =>
    have hlength := h.length_steps
    rw [hsteps, size_addResolvent, List.length_append, List.length_singleton]
    omega
  case tells =>
    intro n st hst
    rw [hsteps] at hst
    rcases Nat.lt_or_ge n r.log.steps.length with hn | hn
    · rw [List.getElem?_append_left hn] at hst
      exact (h.tells n st hst).mono hpart
    · rw [List.getElem?_append_right hn] at hst
      rw [List.getElem?_singleton] at hst
      split at hst
      · rename_i hn'
        have hsize : given + n = r.size := by
          have hlength := h.length_steps
          omega
        rw [hsize, ← Option.some.inj hst]
        exact tells_addResolvent hleft hright hres
      · cases hst
  case sorted =>
    rw [hsteps, List.pairwise_append]
    refine ⟨h.sorted, List.pairwise_singleton _ _, fun st hst st' hst' => ?_⟩
    rw [List.mem_singleton.mp hst']
    exact hplace st hst

/-- An entry that ends the search keeps a registry documented. -/
lemma Documented.note (h : r.Documented mode given []) {e : LogEntry}
    (he : ∀ st, e ≠ .resolution st) : (r.note e).Documented mode given [e] := by
  have hsteps : (r.note e).log.steps = r.log.steps := ProofLog.steps_push_of_forall_ne he
  refine ⟨h.given_le, h.id_eq, h.nodup, h.parents_eq_nil, ?_, ?_, ?_, ?_, ?_⟩
  · intro k c hc hk
    exact (h.derives k c hc hk).mono (r.grows_note e).isPartOf (Nat.le_of_lt (lt_size_of_get? hc))
  · have hentries := h.entries_eq
    rw [List.append_nil] at hentries
    rw [hsteps, Registry.note, ProofLog.push, Array.toList_push, hentries]
    rfl
  · rw [hsteps]
    exact h.length_steps
  · rw [hsteps]
    exact fun n st hst => (h.tells n st hst).mono (r.grows_note e).isPartOf
  · rw [hsteps]
    exact h.sorted

/-! ## Given clauses -/

/-- Registering clauses one after the other gives them the next numbers. -/
lemma clauses_foldl_register (cs : List Clause) (r : Registry) :
    (cs.foldl register r).clauses.toList =
      r.clauses.toList ++ (cs.zipIdx r.size).map fun ck => { ck.1 with id := some ck.2 } := by
  induction cs generalizing r with
  | nil => exact (List.append_nil _).symm
  | cons c cs ih =>
    have hpush : (r.register c).clauses.toList =
        r.clauses.toList ++ [{ c with id := some r.size }] := Array.toList_push
    have hsize : (r.register c).size = r.size + 1 := Array.size_push _
    rw [List.foldl_cons, ih, hpush, hsize, List.append_assoc, List.zipIdx_cons, List.map_cons,
      List.singleton_append]

/-- Registering clauses writes nothing into the log. -/
lemma log_foldl_register (cs : List Clause) (r : Registry) :
    (cs.foldl register r).log = r.log := by
  induction cs generalizing r with
  | nil => rfl
  | cons c cs ih => rw [List.foldl_cons, ih, register]

/-- The registry with which a search starts is documented, if the clauses given have no parents and
no literal twice. -/
lemma documented_initial (mode : SubsumptionMode) (settings : Settings) {cs : List Clause}
    (hcs : ∀ c ∈ cs, c.literals.Nodup ∧ c.provenance.parents = []) :
    (Search.initial settings cs).registry.Documented mode
      (Search.initial settings cs).registry.size [] := by
  have hclause : ∀ k c, (Search.initial settings cs).registry.get? k = some c →
      ∃ d ∈ cs, c = { d with id := some k } := by
    intro k c hc
    have hlist : (Search.initial settings cs).registry.clauses.toList =
        [] ++ cs.zipIdx.map fun ck => { ck.1 with id := some ck.2 } :=
      clauses_foldl_register cs .empty
    rw [get?, ← Array.getElem?_toList, hlist, List.nil_append, List.getElem?_map,
      List.getElem?_zipIdx, Option.map_map, Option.map_eq_some_iff] at hc
    obtain ⟨d, hd, rfl⟩ := hc
    exact ⟨d, List.mem_of_getElem? hd, by rw [Function.comp_apply, Nat.zero_add]⟩
  have hlog : (Search.initial settings cs).registry.log.entries.toList =
      [.initial (Search.initial settings cs).registry.records] := by
    change ((cs.foldl register .empty).log.push _).entries.toList = _
    rw [log_foldl_register]
    rfl
  have hsteps : (Search.initial settings cs).registry.log.steps = [] := by
    rw [ProofLog.steps, hlog]
    rfl
  have hrecords : (Search.initial settings cs).registry.records.length =
      (Search.initial settings cs).registry.size := by
    rw [records, List.length_map, List.length_zipIdx]
    rfl
  constructor
  case given_le => exact Nat.le_refl _
  case id_eq =>
    intro k c hc
    obtain ⟨d, -, rfl⟩ := hclause k c hc
    rfl
  case nodup =>
    intro k c hc
    obtain ⟨d, hd, rfl⟩ := hclause k c hc
    exact (hcs d hd).1
  case parents_eq_nil =>
    intro k c hc _
    obtain ⟨d, hd, rfl⟩ := hclause k c hc
    exact (hcs d hd).2
  case derives =>
    intro k c hc hk
    exact absurd (lt_size_of_get? hc) (Nat.not_lt.mpr hk)
  case entries_eq =>
    rw [hsteps, hlog, ← hrecords, List.take_length]
    rfl
  case length_steps =>
    rw [hsteps]
    rfl
  case tells =>
    intro n st hst
    rw [hsteps] at hst
    cases hst
  case sorted =>
    rw [hsteps]
    exact List.Pairwise.nil

end Registry

/-- The clauses of formulas have no parents and no literal twice. -/
lemma Intake.nodup_and_parents_of_mem_clausesFrom {pending : List PendingFormula}
    {supply : SkolemSupply} {cs : List Clause} (h : clausesFrom pending supply = .ok cs) :
    ∀ c ∈ cs, c.literals.Nodup ∧ c.provenance.parents = [] := by
  induction pending generalizing supply cs with
  | nil =>
    cases h
    exact fun c hc => absurd hc List.not_mem_nil
  | cons p pending ih =>
    rw [clausesFrom] at h
    split at h
    · cases h
    · obtain ⟨more, hmore, rfl⟩ := map_eq_ok h
      intro c hc
      rcases List.mem_append.mp hc with hc | hc
      · obtain ⟨d, -, rfl⟩ := List.mem_map.mp hc
        exact ⟨nodup_eraseDups _, rfl⟩
      · exact ih hmore c hc

/-! ## Steps -/

/-- The entries with which the log ends: none while there is no verdict, and then one that tells the
verdict, with the first empty clause and its parents if there is a contradiction. -/
inductive Registry.EndsWith (r : Registry) : Option Verdict → List LogEntry → Prop where
  | undecided : EndsWith r none []
  | refuted {id : ℕ} {c : Clause} (h : r.findEmpty? = some (id, c)) :
      EndsWith r (some .refuted) [.contradiction id c.provenance.parents]
  | notRefuted : EndsWith r (some .notRefuted) [.noNewClauses]
  | undetermined : EndsWith r (some .undetermined) [.timeout]

/-- A round in which the given offers are to come: its registry is documented, the offers are
resolvents of registered clauses, and they come in order and after what is recorded. -/
structure Round.OnTrack (mode : SubsumptionMode) (given step : ℕ) (offers : List Offer)
    (round : Round) : Prop where
  documented : round.registry.Documented mode given []
  offered : ∀ o ∈ offers, o.1.leftId < o.1.rightId ∧
    round.registry.get? o.1.leftId = some o.1.left ∧
    round.registry.get? o.1.rightId = some o.1.right ∧ o.2 ∈ o.1.resolvents step
  ordered : offers.Pairwise fun o o' => o.place step ≤ o'.place step
  after : ∀ o ∈ offers, ∀ st ∈ round.registry.log.steps, st.place ≤ o.place step
  step_le : ∀ st ∈ round.registry.log.steps, st.step ≤ step

/-- A round that passes over an offer stays on track. -/
lemma Round.OnTrack.skip {mode : SubsumptionMode} {given step : ℕ} {o : Offer} {rest : List Offer}
    {round : Round} (h : OnTrack mode given step (o :: rest) round) :
    OnTrack mode given step rest round where
  documented := h.documented
  offered o' ho' := h.offered o' (List.mem_cons_of_mem _ ho')
  ordered := h.ordered.of_cons
  after o' ho' := h.after o' (List.mem_cons_of_mem _ ho')
  step_le := h.step_le

/-- A round that registers an offer stays on track. -/
lemma Round.OnTrack.register {settings : Settings} {given step : ℕ} {o : Offer} {rest : List Offer}
    {round : Round} (h : OnTrack settings.subsumption given step (o :: rest) round)
    (hcovers : ¬ round.registry.Covers settings.subsumption o.2.clause) :
    OnTrack settings.subsumption given step rest (registered settings step round o.1 o.2) := by
  obtain ⟨hlt, hleft, hright, hres⟩ := h.offered o List.mem_cons_self
  have hsteps : (registered settings step round o.1 o.2).registry.log.steps =
      round.registry.log.steps ++ [round.registry.stepOf step o.1 o.2] :=
    ProofLog.steps_push_resolution _ _
  have hpart := isPartOf_registered settings step round o.1 o.2
  refine ⟨h.documented.addResolvent hlt hleft hright hres hcovers (h.after o List.mem_cons_self),
    ?_, h.ordered.of_cons, ?_, ?_⟩
  · intro o' ho'
    obtain ⟨hlt', hleft', hright', hres'⟩ := h.offered o' (List.mem_cons_of_mem _ ho')
    exact ⟨hlt', hpart.get?_eq hleft', hpart.get?_eq hright', hres'⟩
  · intro o' ho'
    rw [hsteps, List.forall_mem_append, List.forall_mem_singleton]
    exact ⟨h.after o' (List.mem_cons_of_mem _ ho'), List.rel_of_pairwise_cons h.ordered ho'⟩
  · rw [hsteps, List.forall_mem_append, List.forall_mem_singleton]
    exact ⟨h.step_le, Nat.le_refl _⟩

namespace Search

/-- The registry of a search is documented, and it tells of no step that is not made yet. -/
structure Documents (s : Search) (given : ℕ) (ending : List LogEntry) : Prop where
  documented : s.registry.Documented s.settings.subsumption given ending
  step_le : ∀ st ∈ s.registry.log.steps, st.step ≤ s.stepsMade

variable {s : Search} {given : ℕ}

/-- A search that starts is documented. -/
lemma documents_initial (settings : Settings) {cs : List Clause}
    (hcs : ∀ c ∈ cs, c.literals.Nodup ∧ c.provenance.parents = []) :
    (initial settings cs).Documents (initial settings cs).registry.size [] := by
  have hdocumented := Registry.documented_initial settings.subsumption settings hcs
  refine ⟨hdocumented, ?_⟩
  have hnone : (initial settings cs).registry.log.steps = [] := by
    have hlength := hdocumented.length_steps
    exact List.eq_nil_of_length_eq_zero (by omega)
  rw [hnone]
  exact fun st hst => absurd hst List.not_mem_nil

/-- A round keeps a search documented. -/
lemma Documents.round (h : s.Documents given []) : s.counted.round.Documents given [] := by
  have htrack : Round.OnTrack s.settings.subsumption given (s.stepsMade + 1)
      (s.registry.offers (s.stepsMade + 1) s.paired) ⟨s.registry, false⟩ := by
    refine ⟨h.documented, fun o ho => Registry.mem_offers ho,
      s.registry.pairwise_offers _ _, ?_, ?_⟩
    · intro o _ st hst
      exact Prod.Lex.left _ _ (Nat.lt_succ_of_le (h.step_le st hst))
    · intro st hst
      exact Nat.le_succ_of_le (h.step_le st hst)
  have hend : Round.OnTrack s.settings.subsumption given (s.stepsMade + 1) []
      ((s.registry.offers (s.stepsMade + 1) s.paired).foldl
        (Round.take s.settings (s.stepsMade + 1)) ⟨s.registry, false⟩) :=
    Round.foldl_take_induct (P := Round.OnTrack s.settings.subsumption given (s.stepsMade + 1))
      htrack (fun o rest round hround => hround.skip)
      fun o rest round hround _ hcovers => hround.register hcovers
  have hregistry : s.counted.round.registry =
      ((s.registry.offers (s.stepsMade + 1) s.paired).foldl
        (Round.take s.settings (s.stepsMade + 1)) ⟨s.registry, false⟩).registry :=
    Round.resolveRound_eq_foldl_take _ _ _ _
  constructor
  · rw [hregistry]
    exact hend.documented
  · rw [hregistry]
    exact hend.step_le

/-- An entry that ends the search keeps it documented. -/
lemma Documents.finish (h : s.Documents given []) {e : LogEntry} (he : ∀ st, e ≠ .resolution st) :
    (s.finish e).Documents given [e] := by
  refine ⟨h.documented.note he, ?_⟩
  have hsteps : (s.finish e).registry.log.steps = s.registry.log.steps :=
    ProofLog.steps_push_of_forall_ne he
  rw [hsteps]
  exact h.step_le

/-- A step keeps a search documented, and the log ends with the verdict if there is one. -/
lemma Documents.step (h : s.Documents given []) :
    ∃ ending, s.step.1.Documents given ending ∧ s.step.1.registry.EndsWith s.step.2 ending := by
  have hcounted : s.counted.Documents given [] :=
    ⟨h.documented, fun st hst => Nat.le_succ_of_le (h.step_le st hst)⟩
  unfold Search.step
  simp only
  split
  · rename_i id c hfind
    exact ⟨_, hcounted.finish (fun _ => nofun), .refuted hfind⟩
  · split
    · exact ⟨_, hcounted.finish (fun _ => nofun), .undetermined⟩
    · split
      · exact ⟨_, h.round.finish (fun _ => nofun), .notRefuted⟩
      · exact ⟨_, h.round, .undecided⟩

/-- A run keeps a search documented, and its log ends with the verdict. -/
lemma Documents.run (h : s.Documents given []) : ∃ ending, s.run.1.Documents given ending ∧
    s.run.1.registry.EndsWith (some s.run.2) ending := by
  fun_induction Search.run s with
  | case1 s t verdict hstep =>
    obtain ⟨ending, hdocuments, hends⟩ := h.step
    rw [hstep] at hdocuments hends
    exact ⟨ending, hdocuments, hends⟩
  | case2 s t hstep ih =>
    obtain ⟨ending, hdocuments, hends⟩ := h.step
    rw [hstep] at hdocuments hends
    cases hends
    exact ih hdocuments

/-- A step only adds to the registry and its log. -/
lemma grows_step (s : Search) : s.registry.Grows s.step.1.registry := by
  have hround : s.registry.Grows s.counted.round.registry :=
    Registry.grows_resolveRound _ _ _ _
  unfold Search.step
  simp only
  split
  · exact Registry.grows_note _ _
  · split
    · exact Registry.grows_note _ _
    · split
      · exact hround.trans (Registry.grows_note _ _)
      · exact hround

/-- A run keeps the clauses. -/
lemma isPartOf_run (s : Search) : s.registry.IsPartOf s.run.1.registry := by
  fun_induction run s with
  | case1 s t verdict hstep =>
    have hgrows := s.grows_step
    rw [hstep] at hgrows
    exact hgrows.1
  | case2 s t hstep ih =>
    have hgrows := s.grows_step
    rw [hstep] at hgrows
    exact hgrows.1.trans ih

end Search

/-! ## Attempts -/

namespace Attempt

/-- The search of an attempt that has come to the given verdict, or to none yet, goes back to the
start of a search on what was collected, and it is documented from there. -/
def Traces (settings : Settings) (verdict : Option Verdict) (s : Search) : Prop :=
  s.settings = settings ∧ ∃ i start ending, Reached settings (.collecting i) [] ∧
    i.start = .ok start ∧ start.registry.Grows s.registry ∧
    s.Documents start.registry.size ending ∧ s.registry.EndsWith verdict ending

/-- What is known of every attempt: its search, if there is one, is documented from its start. -/
def Recorded (settings : Settings) : Attempt → Prop
  | .collecting i => i.settings = settings
  | .searching s => Traces settings none s
  | .finished s verdict => Traces settings (some verdict) s

/-- A step of a search that has not ended keeps it documented. -/
lemma Traces.ofStep {settings : Settings} {s : Search} (h : Traces settings none s) :
    Recorded settings (ofStep s.step).2 := by
  obtain ⟨hsettings, i, start, ending, hreached, hstart, hgrows, hdocuments, hends⟩ := h
  cases hends
  obtain ⟨ending', hdocuments', hends'⟩ := hdocuments.step
  have hstep : Traces settings s.step.2 s.step.1 :=
    ⟨s.outcome_step.settings_eq.trans hsettings, i, start, ending', hreached, hstart,
      hgrows.trans s.grows_step, hdocuments', hends'⟩
  generalize s.step = result at hstep
  obtain ⟨t, verdict⟩ := result
  cases verdict with
  | none => exact hstep
  | some verdict => exact hstep

/-- A search that starts on what was collected is documented. -/
lemma traces_start {settings : Settings} {i : Intake} (hi : Reached settings (.collecting i) [])
    (hsettings : i.settings = settings) {s : Search} (hstart : i.start = .ok s) :
    Traces settings none s := by
  obtain ⟨cs, hcs, rfl⟩ : ∃ cs, Intake.clausesFrom i.pending i.supply = .ok cs ∧
      s = .initial i.settings cs := by
    unfold Intake.start at hstart
    split at hstart
    · cases hstart
    · rename_i cs hcs
      split at hstart
      · cases hstart
      · exact ⟨cs, hcs, (Except.ok.inj hstart).symm⟩
  refine ⟨hsettings, i, _, [], hi, hstart, .refl _, ?_, .undecided⟩
  exact Search.documents_initial _ (Intake.nodup_and_parents_of_mem_clausesFrom hcs)

/-- Every attempt that can be reached is documented. -/
lemma Reached.recorded {settings : Settings} {a : Attempt} {tried : List ParentPair}
    (h : Reached settings a tried) : Recorded settings a := by
  induction h with
  | new => exact rfl
  | @add a tried _ text origin ih =>
    cases a with
    | collecting i => exact (i.settings_add text origin).trans ih
    | searching s => exact ih
    | finished s verdict => exact ih
  | @step a tried hreached ih =>
    cases a with
    | collecting i =>
      rw [Attempt.step]
      cases hstart : i.start with
      | error e => exact ih
      | ok s =>
        obtain ⟨-, rfl⟩ := hreached.tracks
        exact (traces_start hreached ih hstart).ofStep
    | searching s => exact ih.ofStep
    | finished s verdict => exact ih

/-- Taking in a text leaves the registry as it is. -/
lemma registry_add (a : Attempt) (text : String) (origin : Origin) :
    (a.add text origin).2.registry = a.registry := by
  cases a <;> rfl

/-- Making a step only adds to the registry and its log. -/
lemma grows_step (a : Attempt) : a.registry.Grows a.step.2.registry := by
  have hofStep : ∀ s : Search, s.registry.Grows (ofStep s.step).2.registry := by
    intro s
    have hgrows := s.grows_step
    generalize s.step = result at hgrows
    obtain ⟨t, verdict⟩ := result
    cases verdict with
    | none => exact hgrows
    | some verdict => exact hgrows
  cases a with
  | collecting i =>
    rw [Attempt.step]
    cases hstart : i.start with
    | error e => exact .refl _
    | ok s => exact ⟨List.nil_prefix, List.nil_prefix⟩
  | searching s => exact hofStep s
  | finished s verdict => exact .refl _

end Attempt

/-- In every attempt that can be reached, either nothing is registered and logged yet, as the
attempt still collects, or the search has started, and the registry and the log are documented from
the clauses with which it did; the log ends with an entry for the verdict exactly if there is one.
Whatever is asked of an attempt only adds to its registry and its log, and nothing changes an
attempt that has come to a verdict. -/
theorem documented_of_reached {settings : Settings} {a : Attempt} {tried : List ParentPair}
    (h : Attempt.Reached settings a tried) :
    ((∃ i, a = .collecting i) ∧ a.registry = .empty ∨
      ∃ i s ending, Attempt.Reached settings (.collecting i) [] ∧ i.start = .ok s ∧
        s.registry.Grows a.registry ∧
        a.registry.Documented settings.subsumption s.registry.size ending ∧
        a.registry.EndsWith a.verdict? ending) ∧
    (∀ text origin, a.registry.Grows (a.add text origin).2.registry) ∧
    a.registry.Grows a.step.2.registry ∧
    (a.verdict? ≠ none → (∀ text origin, (a.add text origin).2 = a) ∧ a.step.2 = a) := by
  have hrecorded := h.recorded
  refine ⟨?_, fun text origin => ?_, a.grows_step, fun hverdict => ?_⟩
  · cases a with
    | collecting i => exact Or.inl ⟨⟨i, rfl⟩, rfl⟩
    | searching s =>
      obtain ⟨rfl, i, start, ending, hreached, hstart, hgrows, hdocuments, hends⟩ := hrecorded
      exact Or.inr ⟨i, start, ending, hreached, hstart, hgrows, hdocuments.documented, hends⟩
    | finished s verdict =>
      obtain ⟨rfl, i, start, ending, hreached, hstart, hgrows, hdocuments, hends⟩ := hrecorded
      exact Or.inr ⟨i, start, ending, hreached, hstart, hgrows, hdocuments.documented, hends⟩
  · rw [a.registry_add]
    exact .refl _
  · cases a with
    | collecting i => exact absurd rfl hverdict
    | searching s => exact absurd rfl hverdict
    | finished s verdict => exact ⟨fun _ _ => rfl, rfl⟩

/-- The attempt at `P ∨ Q` and `¬P` reaches a verdict, with its registry and log documented, and
making a step changes nothing any more. -/
theorem documented_orPQ_notP :
    ∃ a tried, Attempt.Reached .standard a tried ∧ a.verdict? = some .notRefuted ∧
      (∃ given ending, a.registry.Documented .full given ending ∧
        a.registry.EndsWith (some .notRefuted) ending) ∧ a.step.2 = a := by
  have hstart : intakePQ.start = .ok searchPQ :=
    Intake.start_eq clausesFrom_intakePQ (List.cons_ne_nil _ _)
  have hstep : (Attempt.collecting intakePQ).step = Attempt.ofStep searchPQ.step := by
    rw [Attempt.step, hstart]
  obtain ⟨tried, hreached⟩ := (Attempt.Reached.new.addAll addAll_intakePQ).exists_run hstep
  rw [Search.run_of_step_none step_searchPQ, Search.run_of_step_some step_step_searchPQ] at hreached
  obtain ⟨hrecorded, -, -, hover⟩ := documented_of_reached hreached
  refine ⟨_, tried, hreached, rfl, ?_, (hover (Option.some_ne_none _)).2⟩
  rcases hrecorded with ⟨⟨i, hi⟩, -⟩ | ⟨i, s, ending, -, -, -, hdocumented, hends⟩
  · cases hi
  · exact ⟨s.registry.size, ending, hdocumented, hends⟩

end Clausal
