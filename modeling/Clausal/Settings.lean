import Clausal.Json.Reader
import Clausal.Redundancy

/-!
# Search settings

The ceilings of a search and two choices about it.  Settings can be read from JSON, where each
field may be left out.
-/

namespace Clausal

/-- The settings of a search. -/
structure Settings where
  /-- The number of rounds after which a search is given up. -/
  maxSteps : Nat
  /-- The number of clauses at which a search is given up. -/
  maxClauses : Nat
  subsumption : SubsumptionMode
  /-- Whether a round stops as soon as the empty clause is found. -/
  earlyExit : Bool
deriving DecidableEq, Repr

namespace Settings

/-- The settings that are used unless others are given. -/
def standard : Settings :=
  { maxSteps := 100, maxClauses := 2000, subsumption := .full, earlyExit := true }

instance : Inhabited Settings :=
  ⟨standard⟩

/-- The subsumption mode of the given name. -/
def modeOfName? : String → Option SubsumptionMode
  | "exact" => some .exact
  | "full" => some .full
  | _ => none

/-- The subsumption mode that a JSON value is: its name, or an object with nothing but the name as
a key to null. -/
def modeOfJson? : Json → Option SubsumptionMode
  | .string name => modeOfName? name
  | .object [(name, .null)] => modeOfName? name
  | _ => none

/-- The value of a field that may be left out but not repeated. -/
def optional {α : Type} (read : Json → Option α) (standard : α) : List Json → Option α
  | [] => some standard
  | [j] => read j
  | _ => none

/-- The settings whose fields have the given values; each list has the values written for it. -/
def ofValues? (maxSteps maxClauses subsumption earlyExit : List Json) : Option Settings := do
  return {
    maxSteps := ← optional Json.natural? standard.maxSteps maxSteps
    maxClauses := ← optional Json.natural? standard.maxClauses maxClauses
    subsumption := ← optional modeOfJson? standard.subsumption subsumption
    earlyExit := ← optional Json.bool? standard.earlyExit earlyExit }

/-- The settings that a JSON value is: an object, whose unknown fields are ignored, or the array of
the values in order, of which the last may be left out. -/
def ofJson? : Json → Option Settings
  | .object fields =>
      let valuesOf (key : String) : List Json := (fields.filter (·.1 = key)).map (·.2)
      ofValues? (valuesOf "max_steps") (valuesOf "max_clauses") (valuesOf "subsumption")
        (valuesOf "early_exit")
  | .array elements =>
      let valueAt (i : Nat) : List Json := elements[i]?.toList
      if elements.length ≤ 4 then ofValues? (valueAt 0) (valueAt 1) (valueAt 2) (valueAt 3)
      else none
  | _ => none

/-- The settings that a JSON text holds. -/
def ofJsonText? (s : String) : Option Settings :=
  (Json.parse? s).bind ofJson?

end Settings

end Clausal
