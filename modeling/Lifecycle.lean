import Lifecycle.Main
import Lifecycle.Service.Route
import Lifecycle.Settings.Logging
import Lifecycle.Space.SingleFlight
import Lifecycle.Proofs.Change
import Lifecycle.Proofs.Probing
import Lifecycle.Proofs.Filters
import Lifecycle.Proofs.Runs
import Lifecycle.Proofs.Reading
import Lifecycle.Proofs.Bodies
import Lifecycle.Proofs.Resolution
import Lifecycle.Proofs.ScopedSearches
import Lifecycle.Proofs.Labels
import Lifecycle.Proofs.Lookups
import Lifecycle.Proofs.Listing
import Lifecycle.Proofs.Committing
import Lifecycle.Proofs.Policies
import Lifecycle.Proofs.Effect
import Lifecycle.Proofs.Checks
import Lifecycle.Proofs.Confirmation
import Lifecycle.Proofs.PolicyContent
import Lifecycle.Proofs.Comparing
import Lifecycle.Proofs.Planning
import Lifecycle.Proofs.Convergence
import Lifecycle.Proofs.Canonical
import Lifecycle.Proofs.Interruption
import Lifecycle.Proofs.Closure
import Lifecycle.Proofs.Reads
import Lifecycle.Proofs.Stages
import Lifecycle.Proofs.Courses
import Lifecycle.Proofs.Progress
import Lifecycle.Proofs.PromotedPolicies
import Lifecycle.Proofs.Removals
import Lifecycle.Proofs.Repetition
import Lifecycle.Proofs.Edits
import Lifecycle.Proofs.Isolation
import Lifecycle.Proofs.Requests
import Lifecycle.Proofs.Serving
import Lifecycle.Proofs.SharedProbes
import Lifecycle.Proofs.SharedCallers
import Lifecycle.Proofs.Shape
import Lifecycle.Proofs.Commands
import Lifecycle.Proofs.Counts
import Lifecycle.Proofs.Parts
import Lifecycle.Proofs.MergedOrder
import Lifecycle.Proofs.Interleaving
import Lifecycle.Proofs.Reordering
import Lifecycle.Proofs.EditRuns
import Lifecycle.Proofs.Contracts
import Lifecycle.Proofs.Operations
import Lifecycle.Proofs.TrueHashes
import Lifecycle.Proofs.Duplicates
import Lifecycle.Proofs.KeptFields
import Lifecycle.Proofs.UpstreamFaults
import Lifecycle.Proofs.Tags
import Lifecycle.Proofs.Agreement
import Lifecycle.Proofs.Sharing
import Lifecycle.Proofs.Interference
import Lifecycle.Proofs.Classification
import Lifecycle.Proofs.KeyOrder
import Lifecycle.Proofs.PageSizes
import Lifecycle.Proofs.Names
import Lifecycle.Proofs.Reports
import Lifecycle.Proofs.RootDecoders
import Lifecycle.Proofs.StorageIds
import Lifecycle.Proofs.ErrorAnswers
import Lifecycle.Proofs.ToldChanges
import Lifecycle.Proofs.References
import Lifecycle.Proofs.PercentEncoding
import Lifecycle.Proofs.DocumentUrls
import Lifecycle.Proofs.LowerCasing
import Lifecycle.Proofs.Projections
import Lifecycle.Proofs.Candidates
import Lifecycle.Proofs.AttachedIntegrations
import Lifecycle.Proofs.CommandLines
import Lifecycle.Proofs.ConsolePromotions
import Lifecycle.Proofs.Relabelling
import Lifecycle.Proofs.ResolvedFields
