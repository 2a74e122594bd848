import ClusterFilter.Files.Store
import ClusterFilter.Main
import ClusterFilter.Proofs.Predicate.Disjunctive
import ClusterFilter.Proofs.Lowering
import ClusterFilter.Proofs.Expression.Derivation
import ClusterFilter.Proofs.Expression.Reading
import ClusterFilter.Proofs.Time.Instant
import ClusterFilter.Proofs.Literal
import ClusterFilter.Proofs.Predicate.Flattening
import ClusterFilter.Proofs.Predicate.Expansion
import ClusterFilter.Proofs.Predicate.Distribution
import ClusterFilter.Proofs.Canonical
import ClusterFilter.Proofs.Construction
import ClusterFilter.Proofs.Refusal
import ClusterFilter.Proofs.Expression.Continuation
import ClusterFilter.Proofs.Document.Json
import ClusterFilter.Proofs.Expression.Completion
import ClusterFilter.Proofs.Wire
import ClusterFilter.Proofs.Composition
import ClusterFilter.Proofs.Expression.Position
import ClusterFilter.Proofs.CommandLine.Action
import ClusterFilter.Proofs.Settings.Storage
import ClusterFilter.Proofs.CommandLine.Run
import ClusterFilter.Proofs.Toml.Reader
import ClusterFilter.Proofs.CommandLine.History
import ClusterFilter.Proofs.Time.Range
import ClusterFilter.Proofs.Expression.Span
import ClusterFilter.Proofs.Expression.Nesting
import ClusterFilter.Proofs.Expression.Expectation
import ClusterFilter.Proofs.Predicate.Complement
import ClusterFilter.Proofs.Time.Representation
import ClusterFilter.Proofs.Time.Calendar
import ClusterFilter.Proofs.Time.Offset
import ClusterFilter.Proofs.Expression.Context
import ClusterFilter.Proofs.Generation
