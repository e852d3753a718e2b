import Subplans.Assoc
import Subplans.Backend.Basic
import Subplans.Backend.Script
import Subplans.Calendar
import Subplans.Client.Backend
import Subplans.Client.Request
import Subplans.Client.Script
import Subplans.Condition.Grammar
import Subplans.Condition.Names
import Subplans.Condition.Resolve
import Subplans.Condition.Token
import Subplans.DataType
import Subplans.Estimate.Basic
import Subplans.Estimate.Fixed
import Subplans.Estimate.Memory
import Subplans.Estimate.Source
import Subplans.Execution.Report
import Subplans.Execution.RowCounts
import Subplans.Experiment.Options
import Subplans.Experiment.Program
import Subplans.Experiment.QueryFile
import Subplans.Experiment.Trial
import Subplans.Files.Basic
import Subplans.Files.Tree
import Subplans.Host.Request
import Subplans.Injection.Correction
import Subplans.Injection.Handover
import Subplans.Injection.Log
import Subplans.Injection.LoggedQuery
import Subplans.Json.Basic
import Subplans.Json.Reader
import Subplans.Json.Record
import Subplans.Json.Writer
import Subplans.Main
import Subplans.Number.Binary
import Subplans.Number.Layout
import Subplans.Number.Reader
import Subplans.Number.Shortest
import Subplans.Plan.Basic
import Subplans.Plan.Operator
import Subplans.Predicate.Basic
import Subplans.Proofs.Closure
import Subplans.Proofs.Equalities.Classes
import Subplans.Proofs.Equalities.Complete
import Subplans.Proofs.Equalities.Lookups
import Subplans.Proofs.Equalities.Printed
import Subplans.Proofs.Equalities.Run
import Subplans.Proofs.Equalities.Steps
import Subplans.Proofs.Graph.Forces
import Subplans.Proofs.Graph.Views
import Subplans.Proofs.Graph.Visits
import Subplans.Proofs.Graph.WellFormed
import Subplans.Proofs.Graph.Wired
import Subplans.Proofs.Merge.Aliases
import Subplans.Proofs.Merge.Collapse
import Subplans.Proofs.Merge.Connect
import Subplans.Proofs.Merge.Copy
import Subplans.Proofs.Merge.Dedupe
import Subplans.Proofs.Merge.Exact
import Subplans.Proofs.Merge.Folding
import Subplans.Proofs.Merge.Meaning
import Subplans.Proofs.Merge.Parallel
import Subplans.Proofs.Merge.Redundancy
import Subplans.Proofs.Merge.Roles
import Subplans.Proofs.Outcome
import Subplans.Proofs.Predicate.Meaning
import Subplans.Proofs.Predicate.Truth
import Subplans.Proofs.Recovery.Accounts
import Subplans.Proofs.Recovery.Contents
import Subplans.Proofs.Recovery.Faithful
import Subplans.Proofs.Recovery.Place
import Subplans.Proofs.Recovery.Scans
import Subplans.Proofs.Recovery.Steps
import Subplans.Proofs.Schema.Description
import Subplans.Proofs.Schema.Equivalence
import Subplans.Proofs.Schema.Keys
import Subplans.Proofs.Schema.Links
import Subplans.Proofs.Schema.Lookups
import Subplans.Proofs.Schema.Walk
import Subplans.Query.Equalities
import Subplans.Query.Graph
import Subplans.Query.Merge
import Subplans.Query.Sql
import Subplans.Query.Subquery
import Subplans.Query.Traversal
import Subplans.Recovery.Basic
import Subplans.Recovery.Join
import Subplans.Recovery.Plan
import Subplans.Recovery.Scan
import Subplans.Repository.Basic
import Subplans.Repository.Estimates
import Subplans.Repository.Record
import Subplans.Schema.Basic
import Subplans.Schema.Description
import Subplans.Schema.Links
import Subplans.Schema.Movies
import Subplans.Settings.Connection
import Subplans.Settings.Execution
import Subplans.Settings.Injection
import Subplans.Settings.Record
import Subplans.Sql.Alteration
import Subplans.Sql.Call
import Subplans.Sql.Change
import Subplans.Sql.Column
import Subplans.Sql.Creation
import Subplans.Sql.Expr
import Subplans.Sql.Form
import Subplans.Sql.Graph
import Subplans.Sql.Interval
import Subplans.Sql.Keyword
import Subplans.Sql.Level
import Subplans.Sql.Literal
import Subplans.Sql.Maintenance
import Subplans.Sql.Operand
import Subplans.Sql.Operator
import Subplans.Sql.Query
import Subplans.Sql.Reader
import Subplans.Sql.Select
import Subplans.Sql.Session
import Subplans.Sql.Statement
import Subplans.Sql.Strength
import Subplans.Sql.Table
import Subplans.Sql.Token
import Subplans.Sql.TypeName
import Subplans.Text.Alphabet
import Subplans.Text.Blank
import Subplans.Text.Casing
import Subplans.Text.Lower
import Subplans.Text.Order
import Subplans.Text.Scan
import Subplans.Text.Table
import Subplans.Text.Tree
import Subplans.Value
import Subplans.Proofs.Condition.Grammar
import Subplans.Proofs.Condition.Meaning
import Subplans.Proofs.Condition.RoundTrip
import Subplans.Proofs.Effects
import Subplans.Proofs.Files
import Subplans.Proofs.Injection.Correction
import Subplans.Proofs.Sql.Classes
import Subplans.Proofs.Sql.Graph
import Subplans.Proofs.Injection.Handover
import Subplans.Proofs.Graph.Changes
import Subplans.Proofs.Injection.Complete
import Subplans.Proofs.Graph.Components
import Subplans.Proofs.Graph.Subquery
import Subplans.Proofs.Graph.Factors
import Subplans.Proofs.Graph.CrossProduct
import Subplans.Proofs.Estimate.Connected
import Subplans.Proofs.Execution.RowCounts
import Subplans.Proofs.Execution.Parameterized
import Subplans.Proofs.Recovery.Unknown
import Subplans.Proofs.Repository.RoundTrip
import Subplans.Proofs.Recovery.Refusals
import Subplans.Proofs.Recovery.Justified
import Subplans.Proofs.Graph.Induced
import Subplans.Proofs.Graph.Nested
import Subplans.Proofs.Injection.Consistent
import Subplans.Proofs.Condition.Membership
import Subplans.Proofs.Injection.Faults
import Subplans.Proofs.Injection.Untouched
import Subplans.Proofs.Predicate.Canonical
import Subplans.Proofs.Graph.DepthFirst
import Subplans.Proofs.Merge.Orientation
import Subplans.Proofs.Sql.Conjuncts
import Subplans.Proofs.Answers
import Subplans.Proofs.Sql.Parentheses
import Subplans.Proofs.Estimate.Simulation
import Subplans.Proofs.Estimate.Parallel
import Subplans.Proofs.Estimate.Remembering
import Subplans.Proofs.Repository.FixedPoint
import Subplans.Proofs.Text.Balanced
import Subplans.Proofs.Condition.Conjuncts
import Subplans.Proofs.Condition.Pieces
import Subplans.Proofs.Json
import Subplans.Proofs.Injection.OrderLog
import Subplans.Proofs.Condition.Requalified
import Subplans.Proofs.Condition.Timestamps
import Subplans.Proofs.Number.Ranges
import Subplans.Proofs.Text.Split
import Subplans.Proofs.Merge.Rounds
import Subplans.Proofs.Text.Bytewise
import Subplans.Proofs.Condition.Bytewise
