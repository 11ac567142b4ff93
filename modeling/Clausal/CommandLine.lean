import Clausal.ProofLog.Json
import Clausal.ProofLog.Proof
import Clausal.Search.Attempt

/-!
# The command line

The arguments are formulas and options.  An option with a value takes it after `=` or from the next
argument, which must not look like an option itself; after `--` every argument is a formula.  No
option may be given twice.

The answer is the proof log as text or JSON, followed by the verdict, and the exit code tells the
verdict: 0 for refuted, 1 for not refuted, 2 for undetermined.  It is 2 for arguments that cannot be
understood and 3 for every other failure.
-/

namespace Clausal

/-- What a search on the command line is given. -/
structure Options where
  formulas : List String
  /-- A file with one formula on each line. -/
  file : Option String
  /-- A goal, whose negation is added to the formulas. -/
  goal : Option String
  /-- A file with settings. -/
  config : Option String
  maxSteps : Option Nat
  maxClauses : Option Nat
  exactSubsumption : Bool
  json : Bool
  verbose : Bool
deriving DecidableEq, Inhabited, Repr

/-- What the arguments ask for. -/
inductive Command where
  | help
  | version
  | search (o : Options)
deriving DecidableEq, Repr

namespace Options

/-- The options of an empty command line. -/
def empty : Options :=
  { formulas := [], file := none, goal := none, config := none, maxSteps := none,
    maxClauses := none, exactSubsumption := false, json := false, verbose := false }

/-! ### Reading arguments -/

/-- The number that a text is: decimal digits, which a plus sign may precede, below 2 ^ 64. -/
def number? (s : String) : Option Nat :=
  let digits := match s.toList with
    | '+' :: rest => rest
    | cs => cs
  if digits.isEmpty || !digits.all Char.isDigit then none
  else
    let n := Json.ofDigits digits
    if n < Nat.pow 2 64 then some n else none

/-- A path, which is not empty. -/
def path? (s : String) : Option String :=
  if s.isEmpty then none else some s

/-- The new value of an option, which must be one and must not have been set before. -/
def once? {α : Type} (old new : Option α) : Option (Option α) :=
  match old, new with
  | none, some a => some (some a)
  | _, _ => none

/-- How to set the option of the given name, if it is one that takes a value. -/
def valueSetter? (name : String) : Option (Options → String → Option Options) :=
  match name with
  | "file" => some fun o s => (once? o.file (path? s)).map fun a => { o with file := a }
  | "goal" => some fun o s => (once? o.goal (some s)).map fun a => { o with goal := a }
  | "config" => some fun o s => (once? o.config (path? s)).map fun a => { o with config := a }
  | "max-steps" =>
      some fun o s => (once? o.maxSteps (number? s)).map fun a => { o with maxSteps := a }
  | "max-clauses" =>
      some fun o s => (once? o.maxClauses (number? s)).map fun a => { o with maxClauses := a }
  | _ => none

/-- Sets the option of the given name, if it is one that takes no value and is not set yet. -/
def setFlag? (o : Options) (name : String) : Option Options :=
  match name with
  | "exact-subsumption" =>
      if o.exactSubsumption then none else some { o with exactSubsumption := true }
  | "json" => if o.json then none else some { o with json := true }
  | "verbose" => if o.verbose then none else some { o with verbose := true }
  | _ => none

/-- What options written as single letters ask for, and the options that they set. -/
def readLetters : Options → List Char → Option (Command ⊕ Options)
  | o, [] => some (.inr o)
  | o, c :: rest =>
      if c = 'v' then (o.setFlag? "verbose").bind (readLetters · rest)
      else if c = 'h' then some (.inl .help)
      else if c = 'V' then some (.inl .version)
      else none

/-- Whether an argument looks like an option. -/
def looksLikeOption (arg : String) : Bool :=
  match arg.toList with
  | '-' :: _ :: _ => true
  | _ => false

/-- Reads the arguments after those that gave the options so far. -/
def readFrom : Options → List String → Option Command
  | o, [] => some (.search o)
  | o, arg :: rest =>
      match arg.toList with
      | ['-', '-'] => some (.search { o with formulas := o.formulas ++ rest })
      | '-' :: '-' :: long =>
          let name := String.ofList (long.takeWhile (· != '='))
          match valueSetter? name, long.dropWhile (· != '=') with
          | some set, _ :: value => (set o (String.ofList value)).bind (readFrom · rest)
          | some set, [] =>
              match rest with
              | value :: rest =>
                  if looksLikeOption value then none else (set o value).bind (readFrom · rest)
              | [] => none
          | none, [] =>
              if name = "help" then some .help
              else if name = "version" then some .version
              else (o.setFlag? name).bind (readFrom · rest)
          | none, _ :: _ => none
      | '-' :: letter :: letters =>
          match o.readLetters (letter :: letters) with
          | none => none
          | some (.inl command) => some command
          | some (.inr o) => readFrom o rest
      | _ => readFrom { o with formulas := o.formulas ++ [arg] } rest

end Options

/-- What the arguments ask for, unless they cannot be understood. -/
def Command.read? (args : List String) : Option Command :=
  Options.readFrom .empty args

/-! ### Carrying out a command -/

/-- Why a command fails. -/
inductive CommandError where
  | usage
  | unreadableSettings (path reason : String)
  | badSettings (path : String)
  | unreadableFile (path reason : String)
  | attempt (e : ProveError)
deriving DecidableEq, Repr

namespace CommandError

/-- The message for each cause. -/
def message : CommandError → String
  | .usage => "the arguments cannot be understood"
  | .unreadableSettings path reason => "cannot read config " ++ path ++ ": " ++ reason
  | .badSettings path => "invalid config " ++ path ++ ": not a JSON configuration"
  | .unreadableFile path reason => "cannot read " ++ path ++ ": " ++ reason
  | .attempt e => e.message

/-- The exit code for each cause. -/
def exitCode : CommandError → Nat
  | .usage => 2
  | _ => 3

end CommandError

/-- What a command prints and its exit code. -/
structure CommandReport where
  output : String
  exitCode : Nat
deriving DecidableEq, Repr

/-- The exit code for each verdict. -/
def Verdict.exitCode : Verdict → Nat
  | .refuted => 0
  | .notRefuted => 1
  | .undetermined => 2

namespace Options

/-- The settings of a command: those of its file, or the standard ones, with what other options
say instead. -/
def settings (o : Options) (contentsOf : String → Except String String) :
    Except CommandError Settings := do
  let base ← match o.config with
    | none => .ok Settings.standard
    | some path =>
        match contentsOf path with
        | .error reason => .error (.unreadableSettings path reason)
        | .ok text => (Settings.ofJsonText? text).elim (.error (.badSettings path)) .ok
  return {
    base with
    maxSteps := o.maxSteps.getD base.maxSteps
    maxClauses := o.maxClauses.getD base.maxClauses
    subsumption := if o.exactSubsumption then .exact else base.subsumption }

/-- The formulas of a file: its lines without the blank ones and those that start with `#`. -/
def formulasOfFile (text : String) : List String :=
  ((text.splitOn "\n").map Text.trim).filter fun line =>
    line.toList.head?.any (· != '#')

/-- The formulas of a command with their origins. -/
def inputs (o : Options) (contentsOf : String → Except String String) :
    Except CommandError (List (String × Origin)) := do
  let lines ← match o.file with
    | none => .ok []
    | some path =>
        match contentsOf path with
        | .error reason => .error (.unreadableFile path reason)
        | .ok text => .ok (formulasOfFile text)
  return premises (o.formulas ++ lines) ++
    (o.goal.map fun goal => (negatedGoalText goal, .negatedGoal)).toList

/-- The output for a verdict and its log. -/
def report (o : Options) (verdict : Verdict) (log : ProofLog) : CommandReport :=
  let body :=
    if o.json then log.jsonText ++ "\n"
    else
      log.text ++
        (match log.proofClauses? with
          | some ids => "proof uses " ++ " ".intercalate (ids.map idText) ++ "\n"
          | none => "")
  { output := body ++ "verdict: " ++ verdict.text ++ "\n", exitCode := verdict.exitCode }

/-- Carries out a command, given what reading a file gives. -/
def execute (o : Options) (contentsOf : String → Except String String) :
    Except CommandError CommandReport := do
  let settings ← o.settings contentsOf
  let inputs ← o.inputs contentsOf
  let attempt ← ((Attempt.new settings).addAll inputs).mapError .attempt
  let (verdict, log) ← attempt.run.mapError .attempt
  return o.report verdict log

end Options

namespace Command

/-- How the command line is used. -/
def usage : String :=
  "\n".intercalate
    ["Resolution refutation prover for first-order logic",
      "",
      "Usage: clausal [OPTIONS] [FORMULAS]...",
      "",
      "Options:",
      "      --file <PATH>        Read one formula per line; blank lines and # lines are skipped",
      "      --goal <FORMULA>     Goal to prove; its negation is added to the formulas",
      "      --config <PATH>      JSON settings; the options below override them",
      "      --max-steps <N>      Rounds of resolution before the search is given up",
      "      --max-clauses <N>    Clauses before the search is given up",
      "      --exact-subsumption  Discard only resolvents that repeat a clause",
      "      --json               Print the proof log as JSON",
      "  -v, --verbose            Accepted for scripts; the log is always complete",
      "  -h, --help               Print help",
      "  -V, --version            Print version",
      ""]

/-- Carries out what the arguments ask for, given what reading a file gives. -/
def run (args : List String) (contentsOf : String → Except String String) :
    Except CommandError CommandReport :=
  match read? args with
  | none => .error .usage
  | some .help => .ok { output := usage, exitCode := 0 }
  | some .version => .ok { output := "clausal 1.0\n", exitCode := 0 }
  | some (.search o) => o.execute contentsOf

end Command

end Clausal
