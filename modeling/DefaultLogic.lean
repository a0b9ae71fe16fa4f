import DefaultLogic.Formula.Basic
import DefaultLogic.Formula.Order
import DefaultLogic.Formula.Semantics
import DefaultLogic.Text.Blank
import DefaultLogic.Text.Alphanumeric
import DefaultLogic.Text.Quoted
import DefaultLogic.Rule
import DefaultLogic.Dialect.Basic
import DefaultLogic.Dialect.Render
import DefaultLogic.Dialect.Token
import DefaultLogic.Dialect.Parser
import DefaultLogic.Formula.NormalForm
import DefaultLogic.Formula.Clausal
import DefaultLogic.Formula.Flat
import DefaultLogic.Formula.Substitution
import DefaultLogic.Failure
import DefaultLogic.Sat.Clause
import DefaultLogic.Sat.Search
import DefaultLogic.Sat.Outcome
import DefaultLogic.Sat.Learner
import DefaultLogic.Sat.Learning
import DefaultLogic.Sat.Parity
import DefaultLogic.Sat.Pigeonhole
import DefaultLogic.Sat.Solver
import DefaultLogic.Sat.Session
import DefaultLogic.Sat.Numbering
import DefaultLogic.Default.Kind
import DefaultLogic.Query.Question
import DefaultLogic.Dataset.Action
import DefaultLogic.Log
import DefaultLogic.Theory.Ground
import DefaultLogic.Theory.Classical
import DefaultLogic.Theory.Paraconsistent
import DefaultLogic.Default.Selection
import DefaultLogic.Default.Subsets
import DefaultLogic.Default.Extension
import DefaultLogic.Default.Encoding
import DefaultLogic.Default.Paraconsistent
import DefaultLogic.Default.Theory
import DefaultLogic.Json.Basic
import DefaultLogic.Json.Reader
import DefaultLogic.Attempt
import DefaultLogic.Json.Fields
import DefaultLogic.Dataset.Spec
import DefaultLogic.Dataset.Basic
import DefaultLogic.Dataset.Json
import DefaultLogic.Dataset.Written
import DefaultLogic.Dataset.Regression
import DefaultLogic.Query.Reply
import DefaultLogic.CommandLine.Command
import DefaultLogic.CommandLine.Arguments
import DefaultLogic.CommandLine.Path
import DefaultLogic.CommandLine.Disk
import DefaultLogic.Main
import DefaultLogic.Sat.Semantics
import DefaultLogic.Default.Reiter
import DefaultLogic.Dialect.Grammar
import DefaultLogic.Proofs.Formula.Clausal
import DefaultLogic.Proofs.Sat.Clause
import DefaultLogic.Proofs.Sat.Numbering
import DefaultLogic.Proofs.Theory.Ground
import DefaultLogic.Proofs.Theory.Classical
import DefaultLogic.Proofs.Theory.Calls
import DefaultLogic.Proofs.Default.Grounded
import DefaultLogic.Proofs.Default.Saturation
import DefaultLogic.Proofs.Default.Reiter
import DefaultLogic.Proofs.Default.Subsets
import DefaultLogic.Proofs.Default.Statements
import DefaultLogic.Proofs.Default.Accepted
import DefaultLogic.Proofs.Default.Pruning
import DefaultLogic.Proofs.Formula.NormalForm
import DefaultLogic.Proofs.Theory.Paraconsistent
import DefaultLogic.Proofs.Default.Simulation
import DefaultLogic.Proofs.Default.Lockstep
import DefaultLogic.Proofs.Default.Renaming
import DefaultLogic.Proofs.Default.Agreement
import DefaultLogic.Proofs.Default.Enumeration
import DefaultLogic.Proofs.Default.Alternatives
import DefaultLogic.Proofs.Default.Beliefs
import DefaultLogic.Proofs.Dialect.Grammar
import DefaultLogic.Dialect.Readable
import DefaultLogic.Proofs.Dialect.Writing
import DefaultLogic.Proofs.Dialect.RoundTrip
import DefaultLogic.Theory.Sharing
import DefaultLogic.Proofs.Theory.Sharing
import DefaultLogic.Proofs.Theory.SharedCalls
import DefaultLogic.Proofs.Theory.SharedRuns
import DefaultLogic.Proofs.Theory.States
import DefaultLogic.Proofs.Default.Translation
import DefaultLogic.Proofs.Default.Conservative
import DefaultLogic.Proofs.Default.NormalRules
import DefaultLogic.Proofs.Default.Contradictions
import DefaultLogic.Proofs.Default.MinimalSets
import DefaultLogic.Default.Sharing
import DefaultLogic.Proofs.Default.Sharing
import DefaultLogic.Proofs.Default.Stopping
import DefaultLogic.Proofs.Default.Reordering
import DefaultLogic.Proofs.Default.Untracked
import DefaultLogic.Proofs.Default.Existence
import DefaultLogic.Proofs.Default.Answers
import DefaultLogic.Proofs.Json.RoundTrip
import DefaultLogic.Proofs.Dataset.Json
import DefaultLogic.Proofs.Dataset.Written
import DefaultLogic.Dataset.Forest
import DefaultLogic.Proofs.Dataset.Regression
import DefaultLogic.Proofs.CommandLine.Output
import DefaultLogic.Proofs.Formula.NegationNormal
import DefaultLogic.Proofs.Formula.Flat
import DefaultLogic.Proofs.Theory.Holding
import DefaultLogic.Proofs.Default.Weakening
import DefaultLogic.Proofs.Default.Testers
import DefaultLogic.Proofs.Theory.OperandOrder
import DefaultLogic.Proofs.Default.Selection
import DefaultLogic.Proofs.Dialect.Places
import DefaultLogic.Proofs.Theory.Models
import DefaultLogic.Proofs.Dialect.Errors
import DefaultLogic.Proofs.Formula.Substitution
import DefaultLogic.Proofs.Sat.Renumbering
