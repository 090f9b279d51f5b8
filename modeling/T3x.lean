import T3x.Js.Str
import T3x.Js.Date
import T3x.Js.Number
import T3x.Js.NumberText
import T3x.Js.Value
import T3x.Js.Equal
import T3x.Js.Agree
import T3x.Js.Filter
import T3x.Js.Json
import T3x.Js.Token
import T3x.Js.Integers
import T3x.Js.Order
import T3x.Js.Shape
import T3x.Js.Grammar
import T3x.Js.Utf8
import T3x.Js.StreamDecoder
import T3x.Js.Location
import T3x.ThreeWay
import T3x.Walks
import T3x.Transition.Canonical
import T3x.Transition.Json
import T3x.Transition.Scan
import T3x.Transition.Accept
import T3x.Transition.RoundTrip
import T3x.Transition.Parse
import T3x.Transition.Schemas
import T3x.Transition.Identity
import T3x.Transition.Resolver
import T3x.Transition.Integrity
import T3x.Transition.Independent
import T3x.Transition.Verifiers
import T3x.Transition.Kinds
import T3x.Transition.Sets
import T3x.Js.Ascii
import T3x.Transition.Descriptors
import T3x.Transition.Commits
import T3x.Transition.ExternalStatements
import T3x.Proposals.GenerationDraft
import T3x.Proposals.Generation
import T3x.Decision.Policy
import T3x.Decision.Profiles
import T3x.Decision.Evaluation
import T3x.Decision.Trust
import T3x.Decision.Evidence
import T3x.Decision.Noninterference
import T3x.Decision.Adverse
import T3x.Decision.Strengthening
import T3x.Decision.ApplicablePolicy
import T3x.Decision.Recording
import T3x.Decision.Discipline
import T3x.Reconciliation.Reconcile
import T3x.Reconciliation.Laws
import T3x.Reconciliation.Pointers
import T3x.Reconciliation.Resolution
import T3x.Reconciliation.Exact
import T3x.Semantic.Tree
import T3x.Semantic.Forest
import T3x.Semantic.Placements
import T3x.Semantic.Slots
import T3x.Semantic.Merge
import T3x.Semantic.Frames
import T3x.Semantic.Paths
import T3x.Semantic.Diff
import T3x.Semantic.TakenFor
import T3x.Semantic.DiffExact
import T3x.Semantic.Execute
import T3x.Semantic.RelationKeys
import T3x.Semantic.Symmetry
import T3x.Semantic.MergeLaws
import T3x.Semantic.MergeIdentity
import T3x.Run
import T3x.Interleave
import T3x.Table
import T3x.Yops.Path
import T3x.Yops.Canonical
import T3x.Yops.Document
import T3x.Yops.Handlers
import T3x.Yops.Lens
import T3x.Yops.InPlace
import T3x.Yops.Comparison
import T3x.Yops.Printing
import T3x.Yops.Quoting
import T3x.Yops.Moves
import T3x.Yops.Regroup
import T3x.Yops.Combine
import T3x.Yops.Recipes
import T3x.Yops.Filling
import T3x.Yops.Replay
import T3x.Yops.Replacements
import T3x.Yops.Refinement
import T3x.Yops.Spec
import T3x.Yops.Engine
import T3x.Yops.Sequential
import T3x.Yops.Validator
import T3x.Yops.Preflight
import T3x.Yops.Alignment
import T3x.Yops.FalseAlarms
import T3x.Yops.Frame
import T3x.Yschema.Schema
import T3x.Yschema.Normalize
import T3x.Yschema.Validate
import T3x.Yschema.ValidateTree
import T3x.Yschema.Places
import T3x.Yschema.Object
import T3x.Yschema.Authoring
import T3x.SchemaMerge.Merge
import T3x.SchemaMerge.Own
import T3x.SchemaMerge.Laws
import T3x.SchemaMerge.Definitions
import T3x.Drafts.Lineage
import T3x.Drafts.Addressing
import T3x.Drafts.Ledger
import T3x.Drafts.History
import T3x.Drafts.Import
import T3x.Migration.SemanticResult
import T3x.Migration.Content
import T3x.Identity.Authorization
import T3x.Identity.Lifecycle
import T3x.Identity.Collaboration
import T3x.Identity.Commands
import T3x.Identity.LastOwner
import T3x.Identity.Invitations
import T3x.Repository.Authorization
import T3x.Repository.Transactions
import T3x.Transition.Requests
import T3x.Repository.LogEntries
import T3x.Repository.Evolution
import T3x.Repository.History
import T3x.Repository.Advances
import T3x.Repository.Promises
import T3x.Storage.Objects
import T3x.Storage.Memberships
import T3x.Storage.ExactlyOnce
import T3x.Storage.Turns
import T3x.Storage.TurnChain
import T3x.Semantic.Convert
import T3x.Semantic.ContentOps
import T3x.Semantic.Integrity
import T3x.Semantic.CycleCheck
import T3x.Yschema.Reached
import T3x.Yschema.Reports
import T3x.Yschema.Normalized
import T3x.Yschema.Cycles
import T3x.Yschema.Described
import T3x.Yschema.Agreement
import T3x.Yschema.EditCommands
import T3x.Yschema.EditBase
import T3x.Yschema.EditExact
import T3x.Yschema.EditOutcome
import T3x.Yschema.EditPaths
import T3x.Yschema.EditReading
import T3x.Yschema.Encoding
import T3x.Yschema.Reread
import T3x.Js.Search
import T3x.Sources.Quotes
import T3x.Sources.Projection
import T3x.Sources.Repair
import T3x.Sources.Evidence
import T3x.Yops.Forms
import T3x.Yops.Roots
import T3x.Yops.Profile
import T3x.Transition.Replay
import T3x.Transition.YopsDriver
import T3x.Transition.YopsStates
import T3x.Transition.Replacement
import T3x.Transition.ReplacementEffect
import T3x.Realtime.Rooms
import T3x.Realtime.InStep
import T3x.Realtime.Runs
import T3x.Storage.RateLimits
import T3x.Storage.RateLimitRuns
import T3x.Documents.Paragraphs
import T3x.Documents.Splitting
import T3x.Documents.Csv
import T3x.Network.Addresses
import T3x.Network.Ssrf
import T3x.Network.Prefixes
import T3x.Network.Guard
import T3x.Network.Exactness
import T3x.Network.Resolution
import T3x.Storage.JsonParse
import T3x.Backup.Manifest
import T3x.Backup.Records
import T3x.Backup.Verification
import T3x.Js.Buffer
import T3x.Js.DateText
import T3x.Keyset
import T3x.Storage.Pagination
import T3x.Storage.Listings
import T3x.Esphome.SourceInputs
import T3x.Esphome.Checks
import T3x.Esphome.Issues
import T3x.Esphome.IncludeWalk
import T3x.Esphome.Binding
