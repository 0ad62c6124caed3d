/-
  LogicNetwork — weighted first-order clauses, the ground networks they stand for, and
  inference over them.
-/
import LogicNetwork.Builtin
import LogicNetwork.Clause
import LogicNetwork.CommandLine.Arguments
import LogicNetwork.CommandLine.Commands
import LogicNetwork.CommandLine.Execution
import LogicNetwork.CommandLine.Help
import LogicNetwork.CommandLine.Invocation
import LogicNetwork.Document.JsonReader
import LogicNetwork.Document.JsonWriter
import LogicNetwork.Document.TomlReader
import LogicNetwork.Document.TomlScalar
import LogicNetwork.Document.TomlTable
import LogicNetwork.Document.Value
import LogicNetwork.Domain
import LogicNetwork.Evidence.FactTable
import LogicNetwork.Evidence.FunctionTable
import LogicNetwork.Evidence.Store
import LogicNetwork.Failure
import LogicNetwork.Failure.Wording
import LogicNetwork.GroundAtom
import LogicNetwork.Grounding.Enumeration
import LogicNetwork.Grounding.Resolve
import LogicNetwork.Grounding.Resolved
import LogicNetwork.Grounding.Tally
import LogicNetwork.Grounding.Typing
import LogicNetwork.Inference.Optimizer
import LogicNetwork.Inference.Sampler
import LogicNetwork.Inference.Stats
import LogicNetwork.Layout
import LogicNetwork.Main
import LogicNetwork.MixedRadix
import LogicNetwork.Network.Basic
import LogicNetwork.Network.Constraint
import LogicNetwork.Network.Ground
import LogicNetwork.Number.Binary64
import LogicNetwork.Number.Reading
import LogicNetwork.Number.Shortest
import LogicNetwork.Number.Style
import LogicNetwork.Problem.Basic
import LogicNetwork.Problem.Reader
import LogicNetwork.Problem.Writer
import LogicNetwork.Proofs.Comparisons
import LogicNetwork.Proofs.Document.Nesting
import LogicNetwork.Proofs.Document.Tokens
import LogicNetwork.Proofs.Document.Trees
import LogicNetwork.Proofs.Evidence.Calls
import LogicNetwork.Proofs.Evidence.Counts
import LogicNetwork.Proofs.Evidence.Functions
import LogicNetwork.Proofs.Evidence.History
import LogicNetwork.Proofs.Evidence.Names
import LogicNetwork.Proofs.Evidence.Views
import LogicNetwork.Proofs.Evidence.Writes
import LogicNetwork.Proofs.ExactWeight
import LogicNetwork.Proofs.Fallible
import LogicNetwork.Proofs.Grounding.Agreement
import LogicNetwork.Proofs.Grounding.Chunking
import LogicNetwork.Proofs.Grounding.Denotations
import LogicNetwork.Proofs.Grounding.Faults
import LogicNetwork.Proofs.Grounding.Frequencies
import LogicNetwork.Proofs.Grounding.FunctionFree
import LogicNetwork.Proofs.Grounding.LiteralSets
import LogicNetwork.Proofs.Grounding.Pools
import LogicNetwork.Proofs.Grounding.Positions
import LogicNetwork.Proofs.Grounding.Rebinding
import LogicNetwork.Proofs.Grounding.Results
import LogicNetwork.Proofs.Grounding.Run
import LogicNetwork.Proofs.Grounding.SameLiterals
import LogicNetwork.Proofs.Grounding.Substitutions
import LogicNetwork.Proofs.Grounding.Symbols
import LogicNetwork.Proofs.Grounding.Tallies
import LogicNetwork.Proofs.Grounding.Truth
import LogicNetwork.Proofs.Grounding.Variants
import LogicNetwork.Proofs.Grounding.Workers
import LogicNetwork.Proofs.Layout.Blocks
import LogicNetwork.Proofs.Layout.Capacity
import LogicNetwork.Proofs.Layout.Declarations
import LogicNetwork.Proofs.Layout.Numbering
import LogicNetwork.Proofs.Lists
import LogicNetwork.Proofs.Network.Canonical
import LogicNetwork.Proofs.Network.Chunks
import LogicNetwork.Proofs.Network.ClauseSets
import LogicNetwork.Proofs.Network.Conservation
import LogicNetwork.Proofs.Network.Constraints
import LogicNetwork.Proofs.Network.Feasibility
import LogicNetwork.Proofs.Network.Graph
import LogicNetwork.Proofs.Network.Grounded
import LogicNetwork.Proofs.Network.HardSources
import LogicNetwork.Proofs.Network.Objective
import LogicNetwork.Proofs.Network.Openness
import LogicNetwork.Proofs.Network.Reweighing
import LogicNetwork.Proofs.Network.Schedules
import LogicNetwork.Proofs.Network.States
import LogicNetwork.Proofs.Network.TrueCount
import LogicNetwork.Proofs.Network.Versions
import LogicNetwork.Proofs.Problem.Decoding
import LogicNetwork.Proofs.Problem.Encoding
import LogicNetwork.Proofs.Problem.Reading
import LogicNetwork.Proofs.Problem.RoundTrip
import LogicNetwork.Proofs.Reports.Coverage
import LogicNetwork.Proofs.Sampling.Accounts
import LogicNetwork.Proofs.Sampling.Chains
import LogicNetwork.Proofs.Sampling.Conflicts
import LogicNetwork.Proofs.Sampling.Progress
import LogicNetwork.Proofs.Sampling.Rounds
import LogicNetwork.Proofs.Sampling.Walks
import LogicNetwork.Proofs.Scoring.Names
import LogicNetwork.Proofs.Scoring.QueryLists
import LogicNetwork.Proofs.Scoring.Tallies
import LogicNetwork.Proofs.Search.Activation
import LogicNetwork.Proofs.Search.BadList
import LogicNetwork.Proofs.Search.Candidates
import LogicNetwork.Proofs.Search.Costs
import LogicNetwork.Proofs.Search.Deltas
import LogicNetwork.Proofs.Search.DistinctAtoms
import LogicNetwork.Proofs.Search.Endings
import LogicNetwork.Proofs.Search.Flips
import LogicNetwork.Proofs.Search.Occurrences
import LogicNetwork.Proofs.Search.Penalties
import LogicNetwork.Proofs.Search.Pins
import LogicNetwork.Proofs.Search.Propagation
import LogicNetwork.Proofs.Search.Reachable
import LogicNetwork.Proofs.Search.Representation
import LogicNetwork.Proofs.Search.Tries
import LogicNetwork.Proofs.Storage.Files
import LogicNetwork.Random.ChaCha
import LogicNetwork.Random.Source
import LogicNetwork.Report
import LogicNetwork.Schema
import LogicNetwork.Scoring
import LogicNetwork.Search.Graph
import LogicNetwork.Search.Moves
import LogicNetwork.Search.Propagate
import LogicNetwork.Search.State
import LogicNetwork.Session
import LogicNetwork.Settings.Basic
import LogicNetwork.Settings.Reader
import LogicNetwork.Settings.Solvers
import LogicNetwork.Signature
import LogicNetwork.Storage.Access
import LogicNetwork.Storage.Load
import LogicNetwork.Storage.Memory
import LogicNetwork.Storage.Path
import LogicNetwork.Weight
