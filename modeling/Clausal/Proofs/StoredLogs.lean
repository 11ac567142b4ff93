import Mathlib.Data.List.Nodup
import Clausal.Proofs.JsonText
import Clausal.ProofLog.Json

/-!
# Logs that are stored and read back

A log can be stored if its numbers have at most 64 bits and no step binds a variable twice.  Such a
log is read back from its text as it was, with the bindings in the same order.  No other log ever
is, because only logs of this kind are read from any text.
-/

namespace Clausal

/-! ## Logs that can be stored -/

/-- The number of a clause record has at most 64 bits. -/
def ClauseRecord.IsStorable (r : ClauseRecord) : Prop :=
  r.id < Nat.pow 2 64

/-- The numbers of a step have at most 64 bits, and no variable is bound twice. -/
structure ResolutionStep.IsStorable (r : ResolutionStep) : Prop where
  step : r.step < Nat.pow 2 64
  parentIds : r.parentIds.1 < Nat.pow 2 64 ∧ r.parentIds.2 < Nat.pow 2 64
  resolventId : r.resolventId < Nat.pow 2 64
  substitution : (r.substitution.map Prod.fst).Nodup

/-- What an entry holds can be stored. -/
def LogEntry.IsStorable : LogEntry → Prop
  | .initial clauses => ∀ r ∈ clauses, r.IsStorable
  | .resolution r => r.IsStorable
  | .contradiction clauseId parentIds =>
      clauseId < Nat.pow 2 64 ∧ ∀ id ∈ parentIds, id < Nat.pow 2 64
  | .noNewClauses => True
  | .timeout => True

/-- All entries of a log can be stored. -/
def ProofLog.IsStorable (log : ProofLog) : Prop :=
  ∀ e ∈ log.entries.toList, e.IsStorable

/-! ## Bindings of texts -/

/-- A variable that is bound for the first time is added at the end. -/
lemma keys_insertText (v t : String) (bindings : List (String × String)) :
    (insertText v t bindings).map Prod.fst =
      if v ∈ bindings.map Prod.fst then bindings.map Prod.fst
      else bindings.map Prod.fst ++ [v] := by
  induction bindings with
  | nil => rfl
  | cons p rest ih =>
    obtain ⟨w, u⟩ := p
    rw [insertText]
    by_cases hw : w = v
    · simp [hw]
    · have hv : v ≠ w := fun heq => hw heq.symm
      rw [if_neg hw, List.map_cons, ih, List.map_cons]
      by_cases hmem : v ∈ rest.map Prod.fst
      · rw [if_pos hmem, if_pos (List.mem_cons_of_mem w hmem)]
      · rw [if_neg hmem, if_neg (List.not_mem_cons_of_ne_of_not_mem hv hmem)]
        rfl

lemma insertText_of_notMem {v t : String} {bindings : List (String × String)}
    (h : v ∉ bindings.map Prod.fst) : insertText v t bindings = bindings ++ [(v, t)] := by
  induction bindings with
  | nil => rfl
  | cons p rest ih =>
    obtain ⟨w, u⟩ := p
    rw [List.map_cons] at h
    obtain ⟨hv, hrest⟩ := List.ne_and_not_mem_of_not_mem_cons h
    rw [insertText, if_neg fun heq => hv heq.symm, ih hrest]
    rfl

/-- Bindings of different variables are kept as they come. -/
lemma foldl_insertText {before after : List (String × String)}
    (h : ((before ++ after).map Prod.fst).Nodup) :
    after.foldl (fun bindings p => insertText p.1 p.2 bindings) before = before ++ after := by
  induction after generalizing before with
  | nil => exact (List.append_nil before).symm
  | cons p after ih =>
    have hsplit : before ++ p :: after = before ++ [p] ++ after := by simp
    have hfresh : p.1 ∉ before.map Prod.fst := by
      rw [List.map_append, List.map_cons, List.nodup_middle, List.nodup_cons] at h
      exact fun hmem => h.1 (List.mem_append_left _ hmem)
    rw [List.foldl_cons, insertText_of_notMem hfresh]
    rw [hsplit] at h ⊢
    exact ih h

/-- No variable is bound twice by bindings that are added one after the other. -/
lemma nodup_foldl_insertText {before : List (String × String)} (after : List (String × String))
    (h : (before.map Prod.fst).Nodup) :
    ((after.foldl (fun bindings p => insertText p.1 p.2 bindings) before).map Prod.fst).Nodup := by
  induction after generalizing before with
  | nil => exact h
  | cons p after ih =>
    refine ih ?_
    rw [keys_insertText]
    split
    · exact h
    · rename_i hfresh
      rw [List.nodup_append_comm]
      exact List.nodup_cons.mpr ⟨hfresh, h⟩

/-! ## Reading what was written -/

namespace Json

@[simp] lemma natural?_natural {n : ℕ} (hn : n < Nat.pow 2 64) : natural? (.natural n) = some n :=
  if_pos hn

@[simp] lemma string?_string (s : String) : string? (.string s) = some s :=
  rfl

lemma array?_map {α : Type} {read : Json → Option α} {write : α → Json} {as : List α}
    (h : ∀ a ∈ as, read (write a) = some a) : array? read (.array (as.map write)) = some as :=
  mapM_map_eq_some h

lemma pair?_eq_some {α : Type} {read : Json → Option α} {j k : Json} {a b : α}
    (ha : read j = some a) (hb : read k = some b) : pair? read (.array [j, k]) = some (a, b) := by
  simp [pair?, array?, ha, hb]

end Json

lemma ClauseRecord.IsStorable.ofJson?_toJson {r : ClauseRecord} (h : r.IsStorable) :
    ofJson? r.toJson = some r := by
  have hid := Json.natural?_natural h
  simp [ofJson?, toJson, Json.record?, Json.uniqueField?, hid]

/-- Bindings are read back in their order. -/
lemma substitutionOfJson?_map {bindings : List (String × String)}
    (h : (bindings.map Prod.fst).Nodup) :
    substitutionOfJson? (.object (bindings.map fun p => (p.1, .string p.2))) = some bindings := by
  have hfold : bindings.foldl (fun before p => insertText p.1 p.2 before) [] = bindings :=
    foldl_insertText h
  unfold substitutionOfJson?
  dsimp only
  rw [Json.mapM_map_eq_some]
  · exact congrArg some hfold
  · intro p _
    rfl

/-- An entry that can be stored is read back. -/
lemma LogEntry.IsStorable.ofJson?_toJson {e : LogEntry} (h : e.IsStorable) :
    ofJson? e.toJson = some e := by
  cases e with
  | initial clauses =>
    have hclauses : Json.array? ClauseRecord.ofJson? (.array (clauses.map ClauseRecord.toJson)) =
        some clauses := Json.array?_map fun r hr => (h r hr).ofJson?_toJson
    simp [toJson, ofJson?, ofBody?, Json.record?, Json.uniqueField?, hclauses]
  | resolution r =>
    obtain ⟨hstep, ⟨hleft, hright⟩, hresolvent, hsubstitution⟩ := h
    have hstep := Json.natural?_natural hstep
    have hids := Json.pair?_eq_some (Json.natural?_natural hleft) (Json.natural?_natural hright)
    have hresolvent := Json.natural?_natural hresolvent
    have hbindings := substitutionOfJson?_map hsubstitution
    have htexts :=
      Json.pair?_eq_some (Json.string?_string r.parentTexts.1) (Json.string?_string r.parentTexts.2)
    have hcut := Json.pair?_eq_some (Json.string?_string r.cut.1) (Json.string?_string r.cut.2)
    simp [toJson, ofJson?, ofBody?, ResolutionStep.ofJson?, Json.record?,
      Json.uniqueField?, hstep, hids, hresolvent, hbindings, htexts, hcut]
  | contradiction clauseId parentIds =>
    obtain ⟨hid, hids⟩ := h
    have hid := Json.natural?_natural hid
    have hids : Json.array? Json.natural? (.array (parentIds.map .natural)) = some parentIds :=
      Json.array?_map fun id hmem => Json.natural?_natural (hids id hmem)
    simp [toJson, ofJson?, ofBody?, Json.record?, Json.uniqueField?, hid, hids]
  | noNewClauses => simp [toJson, ofJson?, ofBody?, Json.record?, Json.uniqueField?]
  | timeout => simp [toJson, ofJson?, ofBody?, Json.record?, Json.uniqueField?]

/-! ## The JSON of a log -/

namespace Json

lemma areHoldable_iff {levels : ℕ} {js : List Json} :
    areHoldable levels js = true ↔ ∀ j ∈ js, j.isHoldable levels = true := by
  induction js with
  | nil => simp [areHoldable]
  | cons j js ih => simp [areHoldable, ih]

lemma haveHoldableValues_iff {levels : ℕ} {fields : List (String × Json)} :
    haveHoldableValues levels fields = true ↔ ∀ p ∈ fields, p.2.isHoldable levels = true := by
  induction fields with
  | nil => simp [haveHoldableValues]
  | cons p fields ih => simp [haveHoldableValues, ih]

end Json

/-- Arrays and objects are nested three deep in an entry. -/
lemma LogEntry.isHoldable_toJson (e : LogEntry) (levels : ℕ) :
    e.toJson.isHoldable (levels + 3) = true := by
  cases e with
  | resolution r =>
    have hbindings : Json.haveHoldableValues (levels + 1)
        (r.substitution.map fun p => (p.1, .string p.2)) = true := by
      rw [Json.haveHoldableValues_iff]
      intro p hp
      obtain ⟨b, _, rfl⟩ := List.mem_map.mp hp
      rw [Json.isHoldable]
    simp [toJson, Json.isHoldable, Json.areHoldable, Json.haveHoldableValues, hbindings]
  | _ =>
    simp [toJson, ClauseRecord.toJson, Json.isHoldable, Json.areHoldable_iff,
      Json.haveHoldableValues_iff]

lemma ClauseRecord.IsStorable.isExact_toJson {r : ClauseRecord} (h : r.IsStorable) :
    r.toJson.IsExact := by
  refine .object ?_
  simp only [List.forall_mem_cons]
  exact ⟨.natural h, .string _, .string _, by simp⟩

lemma ResolutionStep.IsStorable.isExact_toJson {r : ResolutionStep} (h : r.IsStorable) :
    (LogEntry.resolution r).toJson.IsExact := by
  have hids : (Json.array [.natural r.parentIds.1, .natural r.parentIds.2]).IsExact := by
    refine .array ?_
    simp only [List.forall_mem_cons]
    exact ⟨.natural h.parentIds.1, .natural h.parentIds.2, by simp⟩
  have hpair (a b : String) : (Json.array [.string a, .string b]).IsExact := by
    refine .array ?_
    simp only [List.forall_mem_cons]
    exact ⟨.string a, .string b, by simp⟩
  have hbindings : (Json.object (r.substitution.map fun p => (p.1, .string p.2))).IsExact := by
    refine .object ?_
    intro p hp
    obtain ⟨b, _, rfl⟩ := List.mem_map.mp hp
    exact .string b.2
  refine .object ?_
  simp only [List.forall_mem_cons]
  exact ⟨.string _, .natural h.step, hids, hpair _ _, .natural h.resolventId, .string _, hbindings,
    hpair _ _, by simp⟩

lemma LogEntry.IsStorable.isExact_toJson {e : LogEntry} (h : e.IsStorable) : e.toJson.IsExact := by
  cases e with
  | resolution r => exact ResolutionStep.IsStorable.isExact_toJson h
  | initial clauses =>
    refine .object ?_
    simp only [List.forall_mem_cons]
    refine ⟨.string _, .array ?_, by simp⟩
    intro j hj
    obtain ⟨r, hr, rfl⟩ := List.mem_map.mp hj
    exact (h r hr).isExact_toJson
  | contradiction clauseId parentIds =>
    refine .object ?_
    simp only [List.forall_mem_cons]
    refine ⟨.string _, .natural h.1, .array ?_, by simp⟩
    intro j hj
    obtain ⟨id, hid, rfl⟩ := List.mem_map.mp hj
    exact .natural (h.2 id hid)
  | noNewClauses => exact .object (by simpa using .string _)
  | timeout => exact .object (by simpa using .string _)

/-- A log that can be stored is read back from its text. -/
theorem ProofLog.IsStorable.ofJsonText?_jsonText {log : ProofLog} (h : log.IsStorable) :
    ofJsonText? log.jsonText = some log := by
  have hexact : log.toJson.IsExact := by
    refine .array ?_
    intro j hj
    obtain ⟨e, he, rfl⟩ := List.mem_map.mp hj
    exact (h e he).isExact_toJson
  have hholdable : log.toJson.isHoldable maxJsonLevels = true := by
    rw [toJson, maxJsonLevels, Json.isHoldable, Json.areHoldable_iff]
    intro j hj
    obtain ⟨e, _, rfl⟩ := List.mem_map.mp hj
    exact e.isHoldable_toJson 123
  have hentries : log.toJson.array? LogEntry.ofJson? = some log.entries.toList :=
    Json.array?_map fun e he => (h e he).ofJson?_toJson
  rw [ofJsonText?, jsonText, hexact.parse?_print, Option.bind_some, ofJson?,
    if_pos hholdable, hentries]
  rfl

/-! ## What is read can be stored -/

namespace Json

lemma lt_of_natural?_eq_some {j : Json} {n : ℕ} (h : j.natural? = some n) : n < Nat.pow 2 64 := by
  cases j with
  | natural m =>
    obtain ⟨hlt, hm⟩ := Option.ite_none_right_eq_some.mp h
    obtain rfl := Option.some.inj hm
    exact hlt
  | _ => cases h

/-- What holds of everything that can be read holds of what is read from a list. -/
lemma forall_of_mapM_eq_some {α : Type} {P : α → Prop} {read : Json → Option α}
    (hP : ∀ j a, read j = some a → P a) {js : List Json} {as : List α}
    (h : js.mapM read = some as) : ∀ a ∈ as, P a := by
  induction js generalizing as with
  | nil =>
    obtain rfl := Option.some.inj h
    exact fun a ha => absurd ha List.not_mem_nil
  | cons j js ih =>
    simp only [List.mapM_cons, Option.bind_eq_bind, Option.bind_eq_some_iff] at h
    obtain ⟨a, ha, rest, hrest, h⟩ := h
    obtain rfl := Option.some.inj h
    exact List.forall_mem_cons.mpr ⟨hP j a ha, ih hrest⟩

lemma forall_of_array?_eq_some {α : Type} {P : α → Prop} {read : Json → Option α}
    (hP : ∀ j a, read j = some a → P a) {j : Json} {as : List α} (h : j.array? read = some as) :
    ∀ a ∈ as, P a := by
  cases j with
  | array js => exact forall_of_mapM_eq_some hP h
  | _ => cases h

lemma and_of_pair?_eq_some {α : Type} {P : α → Prop} {read : Json → Option α}
    (hP : ∀ j a, read j = some a → P a) {j : Json} {p : α × α} (h : j.pair? read = some p) :
    P p.1 ∧ P p.2 := by
  unfold pair? at h
  split at h
  · rename_i a b hread
    obtain rfl := Option.some.inj h
    have hall := forall_of_array?_eq_some hP hread
    exact ⟨hall a (by simp), hall b (by simp)⟩
  · cases h

end Json

lemma ClauseRecord.isStorable_of_ofJson? {j : Json} {r : ClauseRecord} (h : ofJson? j = some r) :
    r.IsStorable := by
  unfold ofJson? at h
  split at h
  · simp only [Option.bind_eq_bind, Option.bind_eq_some_iff] at h
    obtain ⟨id, hid, text, _, source, _, h⟩ := h
    obtain rfl := Option.some.inj h
    exact Json.lt_of_natural?_eq_some hid
  · cases h

lemma nodup_of_substitutionOfJson? {j : Json} {bindings : List (String × String)}
    (h : substitutionOfJson? j = some bindings) : (bindings.map Prod.fst).Nodup := by
  cases j with
  | object fields =>
    simp only [substitutionOfJson?, Option.bind_eq_bind, Option.bind_eq_some_iff] at h
    obtain ⟨texts, _, h⟩ := h
    obtain rfl := Option.some.inj h
    exact nodup_foldl_insertText texts List.nodup_nil
  | _ => cases h

lemma ResolutionStep.isStorable_of_ofJson? {j : Json} {r : ResolutionStep}
    (h : ofJson? j = some r) : r.IsStorable := by
  unfold ofJson? at h
  split at h
  · simp only [Option.bind_eq_bind, Option.bind_eq_some_iff] at h
    obtain ⟨step, hstep, ids, hids, _, _, resolventId, hresolvent, _, _, bindings,
      hbindings, _, _, h⟩ := h
    obtain rfl := Option.some.inj h
    exact {
      step := Json.lt_of_natural?_eq_some hstep
      parentIds := Json.and_of_pair?_eq_some (fun _ _ => Json.lt_of_natural?_eq_some) hids
      resolventId := Json.lt_of_natural?_eq_some hresolvent
      substitution := nodup_of_substitutionOfJson? hbindings }
  · cases h

lemma LogEntry.isStorable_of_ofBody? {kind : String} {body : Json} {e : LogEntry}
    (h : ofBody? kind body = some e) : e.IsStorable := by
  unfold ofBody? at h
  split at h
  · split at h
    · obtain ⟨clauses, hclauses, rfl⟩ := Option.map_eq_some_iff.mp h
      exact Json.forall_of_array?_eq_some (fun _ _ => ClauseRecord.isStorable_of_ofJson?) hclauses
    · cases h
  · obtain ⟨r, hr, rfl⟩ := Option.map_eq_some_iff.mp h
    exact ResolutionStep.isStorable_of_ofJson? hr
  · split at h
    · simp only [Option.bind_eq_bind, Option.bind_eq_some_iff] at h
      obtain ⟨id, hid, ids, hids, h⟩ := h
      obtain rfl := Option.some.inj h
      exact ⟨Json.lt_of_natural?_eq_some hid,
        Json.forall_of_array?_eq_some (fun _ _ => Json.lt_of_natural?_eq_some) hids⟩
    · cases h
  · obtain ⟨_, _, rfl⟩ := Option.map_eq_some_iff.mp h
    trivial
  · obtain ⟨_, _, rfl⟩ := Option.map_eq_some_iff.mp h
    trivial
  · cases h

lemma LogEntry.isStorable_of_ofJson? {j : Json} {e : LogEntry} (h : ofJson? j = some e) :
    e.IsStorable := by
  unfold ofJson? at h
  split at h
  · simp only [Option.bind_eq_bind, Option.bind_eq_some_iff] at h
    obtain ⟨_, _, kind, _, h⟩ := h
    exact isStorable_of_ofBody? h
  · simp only [Option.bind_eq_bind, Option.bind_eq_some_iff] at h
    obtain ⟨kind, _, h⟩ := h
    exact isStorable_of_ofBody? h
  · cases h

/-- Whatever text a log is read from, the log can be stored. -/
theorem ProofLog.isStorable_of_ofJsonText? {s : String} {log : ProofLog}
    (h : ofJsonText? s = some log) : log.IsStorable := by
  obtain ⟨j, _, h⟩ := Option.bind_eq_some_iff.mp h
  obtain ⟨_, h⟩ := Option.ite_none_right_eq_some.mp h
  obtain ⟨entries, hentries, rfl⟩ := Option.map_eq_some_iff.mp h
  exact Json.forall_of_array?_eq_some (fun _ _ => LogEntry.isStorable_of_ofJson?) hentries

/-- The logs that are read back from their texts as they were are those whose numbers have at most
64 bits and whose steps bind no variable twice. -/
theorem ProofLog.ofJsonText?_jsonText_eq_some_iff (log : ProofLog) :
    ofJsonText? log.jsonText = some log ↔ log.IsStorable :=
  ⟨isStorable_of_ofJsonText?, IsStorable.ofJsonText?_jsonText⟩

end Clausal
