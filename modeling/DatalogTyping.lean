import DatalogTyping.Kind
import DatalogTyping.Fault
import DatalogTyping.Position
import DatalogTyping.Numeral
import DatalogTyping.Operator.Functor
import DatalogTyping.Operator.Variant
import DatalogTyping.Operator.Aggregate
import DatalogTyping.Operator.Comparison
import DatalogTyping.Node.Basic
import DatalogTyping.Node.Text
import DatalogTyping.Node.Build
import DatalogTyping.Forest
import DatalogTyping.Program
import DatalogTyping.Types.Names
import DatalogTyping.Types.TypeSet
import DatalogTyping.Types.Env
import DatalogTyping.Types.Lattice
import DatalogTyping.Types.Declared
import DatalogTyping.Solver.Assignment
import DatalogTyping.Solver.Constraint
import DatalogTyping.Solver.Problem
import DatalogTyping.Inference.Resolutions
import DatalogTyping.Inference.Clause
import DatalogTyping.Inference.Annotate
import DatalogTyping.Inference.Knowledge
import DatalogTyping.Inference.Refine
import DatalogTyping.Inference.Analysis
import DatalogTyping.Inference.Printer
import DatalogTyping.Report.Source
import DatalogTyping.Report.Issue
import DatalogTyping.Report.Basic
import DatalogTyping.Report.Check
import DatalogTyping.Options.Basic
import DatalogTyping.Options.Parse
import DatalogTyping.Session
import DatalogTyping.Proofs.Sequences
import DatalogTyping.Proofs.Members
import DatalogTyping.Proofs.Acyclic
import DatalogTyping.Proofs.Subtyping
import DatalogTyping.Proofs.CommonSubtypes
import DatalogTyping.Proofs.Updates
import DatalogTyping.Proofs.Rounds
import DatalogTyping.Proofs.Soundness
import DatalogTyping.Proofs.Walks
import DatalogTyping.Proofs.UnionFree
import DatalogTyping.Proofs.Completeness
import DatalogTyping.Proofs.Declared
import DatalogTyping.Proofs.LeastTypes
import DatalogTyping.Proofs.Effects
import DatalogTyping.Proofs.Narrowing
import DatalogTyping.Proofs.Stopping
import DatalogTyping.Proofs.ClauseProblems
import DatalogTyping.Proofs.BranchOwners
import DatalogTyping.Proofs.ClauseSolving
import DatalogTyping.Proofs.Passes
import DatalogTyping.Proofs.Faultless
import DatalogTyping.Proofs.Convergence
import DatalogTyping.Proofs.Runs
import DatalogTyping.Proofs.TypingRules
import DatalogTyping.Proofs.Locality
import DatalogTyping.Proofs.Independence
import DatalogTyping.Proofs.Kinds
import DatalogTyping.Proofs.RecordedOverloads
import DatalogTyping.Proofs.AcceptedClauses
import DatalogTyping.Proofs.ChosenOverloads
import DatalogTyping.Proofs.Committing
import DatalogTyping.Proofs.FunctorFree
import DatalogTyping.Proofs.Accounts
import DatalogTyping.Proofs.Questions
import DatalogTyping.Proofs.Safety
import DatalogTyping.Proofs.ExactMeets
import DatalogTyping.Proofs.SubtypingRules
import DatalogTyping.Proofs.Annotations
import DatalogTyping.Proofs.Diagnostics
import DatalogTyping.Proofs.NoReturn
import DatalogTyping.Proofs.LegalResolutions
import DatalogTyping.Proofs.FinalChoices
import DatalogTyping.Proofs.Renumbering
import DatalogTyping.Proofs.Copies
import DatalogTyping.Proofs.OverloadMemory
import DatalogTyping.Proofs.ComparedKinds
import DatalogTyping.Proofs.SharedBases
import DatalogTyping.Proofs.Complaints
import DatalogTyping.Proofs.Numerals
import DatalogTyping.Proofs.RecordConstructors
import DatalogTyping.Proofs.HonestUpdates
import DatalogTyping.Proofs.AnnotatedClauses
import DatalogTyping.Proofs.Isolation
