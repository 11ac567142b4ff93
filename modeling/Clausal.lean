import Clausal.Clause
import Clausal.CommandLine
import Clausal.Formula.Basic
import Clausal.Formula.ClauseForm
import Clausal.Formula.Lowering
import Clausal.Formula.NegationNormal
import Clausal.Formula.NormalFormError
import Clausal.Formula.Prenex
import Clausal.Formula.Skolem
import Clausal.Json.Basic
import Clausal.Json.Precision
import Clausal.Json.Printer
import Clausal.Json.Reader
import Clausal.Literal
import Clausal.Main
import Clausal.Mismatch
import Clausal.OneWayMatch
import Clausal.Pipeline
import Clausal.ProofLog.Basic
import Clausal.ProofLog.Json
import Clausal.ProofLog.Proof
import Clausal.Proofs.BoundNames
import Clausal.Proofs.Clausification
import Clausal.Proofs.ConjunctiveForm
import Clausal.Proofs.GroundClauses
import Clausal.Proofs.GroundDecision
import Clausal.Proofs.Intake
import Clausal.Proofs.NegationNormalForm
import Clausal.Proofs.PrenexForm
import Clausal.Proofs.Refutation
import Clausal.Proofs.Resolution
import Clausal.Proofs.Rounds
import Clausal.Proofs.Saturation
import Clausal.Proofs.SearchSteps
import Clausal.Proofs.SkolemForm
import Clausal.Proofs.Subsumption
import Clausal.Proofs.Truth
import Clausal.Proofs.Unification
import Clausal.Redundancy
import Clausal.Resolvent
import Clausal.Search.Attempt
import Clausal.Search.Registry
import Clausal.Search.Round
import Clausal.Search.Run
import Clausal.Semantics
import Clausal.Settings
import Clausal.Statement.Basic
import Clausal.Statement.ParseError
import Clausal.Statement.Reading
import Clausal.Statement.Span
import Clausal.Substitution
import Clausal.Symbol
import Clausal.Term.Basic
import Clausal.Term.Reading
import Clausal.Term.Token
import Clausal.Text.Alphabetic
import Clausal.Text.Blank
import Clausal.Text.Character
import Clausal.Text.CodePointSet
import Clausal.Text.FreshName
import Clausal.Text.Lowercase
import Clausal.Text.Numeric
import Clausal.Unifier
import Clausal.Proofs.Bookkeeping
import Clausal.Proofs.Ceilings
import Clausal.Proofs.Lockstep
import Clausal.Proofs.HigherCeilings
import Clausal.Proofs.MostGeneralUnifier
import Clausal.Proofs.Lifting
import Clausal.Proofs.FactorClosure
import Clausal.Proofs.ModelExistence
import Clausal.Proofs.EarlyExit
import Clausal.Proofs.Variants
import Clausal.Proofs.SubsumptionModes
import Clausal.Proofs.FormulaText
import Clausal.Proofs.ReadableStatements
import Clausal.Proofs.Rereading
import Clausal.Proofs.RoundTrip
import Clausal.Proofs.ResolventPlaces
import Clausal.Proofs.DeeperReading
import Clausal.Proofs.MalformedGoals
import Clausal.Proofs.SubsumedParents
import Clausal.Proofs.FreeVariables
import Clausal.Proofs.NegatedGoals
import Clausal.Proofs.ProofAncestry
import Clausal.Proofs.Calls
import Clausal.Proofs.InternalFaults
import Clausal.Proofs.NameHygiene
import Clausal.Proofs.TermText
import Clausal.Proofs.NestingLimit
import Clausal.Proofs.Parentheses
import Clausal.Proofs.ErrorPositions
import Clausal.Proofs.NameClasses
import Clausal.Proofs.ClauseText
import Clausal.Proofs.Tautologies
import Clausal.Proofs.JsonText
import Clausal.Proofs.StoredLogs
import Clausal.Proofs.Respacing
import Clausal.Proofs.PipelineRuns
import Clausal.Proofs.BindingChains
import Clausal.Proofs.OneWayMatching
import Clausal.Proofs.RenamingApart
import Clausal.Proofs.MatchTrails
import Clausal.Proofs.TriangularUnification
