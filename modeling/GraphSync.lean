import GraphSync.Ontology.Sync
import GraphSync.Schema.Registry
import GraphSync.Main
import GraphSync.Job.Command
import GraphSync.Proofs.Graph.WellFormed
import GraphSync.Proofs.Load.Chunking
import GraphSync.Proofs.Load.Again
import GraphSync.Proofs.Load.Marked
import GraphSync.Proofs.Cycle
import GraphSync.Proofs.Cleanup.PageSize
import GraphSync.Proofs.Cleanup.Pages
import GraphSync.Proofs.Unreported
import GraphSync.Proofs.Load.Atomic
import GraphSync.Proofs.Cleanup.Completion
import GraphSync.Proofs.Cleanup.Fixpoint
import GraphSync.Proofs.Sync.Commute
import GraphSync.Proofs.Graph.Calls
import GraphSync.Proofs.Graph.History
import GraphSync.Proofs.Graph.Identity
import GraphSync.Proofs.Statement.Reading
import GraphSync.Proofs.Statement.Dependence
import GraphSync.Proofs.Statement.LoadProbe
import GraphSync.Proofs.Statement.SweepProbe
import GraphSync.Proofs.Statement.Parameters
import GraphSync.Proofs.Statement.Revealing
import GraphSync.Proofs.Statement.Bare
import GraphSync.Proofs.Statement.Clauses
import GraphSync.Proofs.Statement.Openings
import GraphSync.Proofs.Statement.Readback
import GraphSync.Proofs.Load.Links
import GraphSync.Proofs.Load.Joined
import GraphSync.Proofs.Load.Numbered
import GraphSync.Proofs.Load.Picked
import GraphSync.Proofs.Load.Ownership
import GraphSync.Proofs.LinkCycle
import GraphSync.Proofs.Ontology.Concepts
import GraphSync.Proofs.Ontology.Again
import GraphSync.Proofs.Ontology.Outdated
import GraphSync.Proofs.Ontology.Checks
import GraphSync.Proofs.Ontology.Groups
import GraphSync.Proofs.Ontology.Identities
import GraphSync.Proofs.Load.Order
import GraphSync.Proofs.Ontology.Incremental
import GraphSync.Proofs.Graph.Linking
import GraphSync.Proofs.Schema.Indexing
import GraphSync.Proofs.Schema.Validation
import GraphSync.Proofs.Schema.Registration
import GraphSync.Statement.Scan
import GraphSync.Proofs.Statement.Tokens
import GraphSync.Proofs.Ontology.Union
import GraphSync.Proofs.Ontology.Required
import GraphSync.Proofs.Job.Document
