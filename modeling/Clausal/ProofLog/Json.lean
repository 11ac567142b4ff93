import Clausal.Json.Printer
import Clausal.Json.Reader
import Clausal.ProofLog.Basic

/-!
# Proof logs as JSON

A log is an array of entries.  Each entry is an object whose field `type` says which kind it is.
-/

namespace Clausal

/-! ### Writing -/

/-- The JSON of a clause record. -/
def ClauseRecord.toJson (r : ClauseRecord) : Json :=
  .object [("id", .natural r.id), ("text", .string r.text), ("source", .string r.source)]

/-- The JSON of an entry. -/
def LogEntry.toJson : LogEntry → Json
  | .initial clauses =>
      .object [("type", .string "initial"), ("clauses", .array (clauses.map ClauseRecord.toJson))]
  | .resolution r =>
      .object
        [("type", .string "resolution_step"),
          ("step", .natural r.step),
          ("parent_ids", .array [.natural r.parentIds.1, .natural r.parentIds.2]),
          ("parent_texts", .array [.string r.parentTexts.1, .string r.parentTexts.2]),
          ("resolvent_id", .natural r.resolventId),
          ("resolvent_text", .string r.resolventText),
          ("substitution", .object (r.substitution.map fun (v, t) => (v, .string t))),
          ("resolved_literals", .array [.string r.cut.1, .string r.cut.2])]
  | .contradiction clauseId parentIds =>
      .object
        [("type", .string "contradiction_found"),
          ("clause_id", .natural clauseId),
          ("parent_ids", .array (parentIds.map .natural))]
  | .noNewClauses => .object [("type", .string "no_new_clauses")]
  | .timeout => .object [("type", .string "timeout")]

/-- The JSON of a log. -/
def ProofLog.toJson (log : ProofLog) : Json :=
  .array (log.entries.toList.map LogEntry.toJson)

/-- The JSON text of a log. -/
def ProofLog.jsonText (log : ProofLog) : String :=
  log.toJson.print

/-! ### Reading -/

/-- Adds a binding of texts.  A variable that is bound already keeps its place and gets the new
text. -/
def insertText (v t : String) : List (String × String) → List (String × String)
  | [] => [(v, t)]
  | (w, u) :: rest => if w = v then (v, t) :: rest else (w, u) :: insertText v t rest

/-- The clause record that a JSON value is. -/
def ClauseRecord.ofJson? (j : Json) : Option ClauseRecord :=
  match j.record? ["id", "text", "source"] with
  | some [id, text, source] => do
      return { id := ← id.natural?, text := ← text.string?, source := ← source.string? }
  | _ => none

/-- The bindings of texts that a JSON value is. -/
def substitutionOfJson? : Json → Option (List (String × String))
  | .object fields => do
      let texts ← fields.mapM fun (v, j) => j.string?.map (v, ·)
      return texts.foldl (fun bindings (v, t) => insertText v t bindings) []
  | _ => none

/-- The resolution step whose fields a JSON value has. -/
def ResolutionStep.ofJson? (j : Json) : Option ResolutionStep :=
  match j.record? ["step", "parent_ids", "parent_texts", "resolvent_id", "resolvent_text",
    "substitution", "resolved_literals"] with
  | some [step, parentIds, parentTexts, resolventId, resolventText, substitution, cut] => do
      return {
        step := ← step.natural?
        parentIds := ← parentIds.pair? Json.natural?
        parentTexts := ← parentTexts.pair? Json.string?
        resolventId := ← resolventId.natural?
        resolventText := ← resolventText.string?
        substitution := ← substitutionOfJson? substitution
        cut := ← cut.pair? Json.string? }
  | _ => none

/-- The entry of the given kind whose fields a JSON value has. -/
def LogEntry.ofBody? (kind : String) (body : Json) : Option LogEntry :=
  match kind with
  | "initial" =>
      match body.record? ["clauses"] with
      | some [clauses] => (clauses.array? ClauseRecord.ofJson?).map .initial
      | _ => none
  | "resolution_step" => (ResolutionStep.ofJson? body).map .resolution
  | "contradiction_found" =>
      match body.record? ["clause_id", "parent_ids"] with
      | some [clauseId, parentIds] => do
          return .contradiction (← clauseId.natural?) (← parentIds.array? Json.natural?)
      | _ => none
  | "no_new_clauses" => (body.record? []).map fun _ => .noNewClauses
  | "timeout" => (body.record? []).map fun _ => .timeout
  | _ => none

/-- The entry that a JSON value is: an object with its kind under `type`, or an array that starts
with its kind. -/
def LogEntry.ofJson? : Json → Option LogEntry
  | .object fields => do
      let kind ← Json.uniqueField? fields "type"
      ofBody? (← kind.string?) (.object fields)
  | .array (kind :: elements) => do ofBody? (← kind.string?) (.array elements)
  | _ => none

/-- The deepest nesting of arrays and objects in the JSON of a log. -/
def ProofLog.maxJsonLevels : Nat := 127

/-- The log that a JSON value is. -/
def ProofLog.ofJson? (j : Json) : Option ProofLog :=
  if j.isHoldable maxJsonLevels then
    (j.array? LogEntry.ofJson?).map fun entries => { entries := entries.toArray }
  else none

/-- The log that a JSON text holds. -/
def ProofLog.ofJsonText? (s : String) : Option ProofLog :=
  (Json.parse? s).bind ofJson?

end Clausal
