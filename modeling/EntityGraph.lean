import EntityGraph.Definition.Builder
import EntityGraph.Workspace
import EntityGraph.CommandLine
import EntityGraph.Main
import EntityGraph.Proofs.Typing
import EntityGraph.Proofs.Validity
import EntityGraph.Proofs.Coherence
import EntityGraph.Proofs.Acceptance
import EntityGraph.Proofs.Integrity
import EntityGraph.Proofs.Pending
import EntityGraph.Proofs.Collisions
import EntityGraph.Proofs.RoundTrips
import EntityGraph.Proofs.RowHistories
import EntityGraph.Proofs.Atomicity
import EntityGraph.Proofs.Cancellation
import EntityGraph.Proofs.Queries
import EntityGraph.Proofs.Placement
import EntityGraph.Proofs.Navigation
import EntityGraph.Proofs.Overlays
import EntityGraph.Proofs.Sharing
import EntityGraph.Proofs.InternalErrors
import EntityGraph.Proofs.Grammar
import EntityGraph.Proofs.Refinement
import EntityGraph.Proofs.Numerals
import EntityGraph.Proofs.Texts
import EntityGraph.Proofs.CatalogFiles
import EntityGraph.Proofs.Refusals
import EntityGraph.Proofs.WrittenReferences
