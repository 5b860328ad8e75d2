import ResourcePruner.Main
import ResourcePruner.Proofs.Definition.Extents
import ResourcePruner.Proofs.Removal.Account
import ResourcePruner.Proofs.Run.Spared
import ResourcePruner.Proofs.Usage.Coverage
import ResourcePruner.Proofs.Config.Separation
import ResourcePruner.Proofs.CommandLine.Refusal
import ResourcePruner.Proofs.Run.Interruption
import ResourcePruner.Proofs.Removal.Erasure
import ResourcePruner.Proofs.Run.Report
import ResourcePruner.Proofs.Disk.Written
import ResourcePruner.Proofs.Prospect
import ResourcePruner.Proofs.Index.Prospect
import ResourcePruner.Proofs.Usage.Prospect
import ResourcePruner.Proofs.Removal.Settled
import ResourcePruner.Proofs.Run.Tables
import ResourcePruner.Proofs.Run.Forecast
import ResourcePruner.Proofs.Removal.Idle
import ResourcePruner.Proofs.Run.Fixpoint
import ResourcePruner.Proofs.Index.Agreement
import ResourcePruner.Proofs.Backup.Ownership
import ResourcePruner.Proofs.Disk.Below
import ResourcePruner.Proofs.Index.Holdings
import ResourcePruner.Proofs.Json.Strings
import ResourcePruner.Proofs.Json.Numbers
import ResourcePruner.Proofs.Json.Sorting
import ResourcePruner.Proofs.Json.RoundTrip
import ResourcePruner.Proofs.Disk.Readback
import ResourcePruner.Proofs.Text.Parts
import ResourcePruner.Proofs.Audit.Lines
import ResourcePruner.Proofs.Audit.Trail
import ResourcePruner.Proofs.Definition.Composition
import ResourcePruner.Proofs.Definition.Verdicts
import ResourcePruner.Proofs.Definition.WellFormed
import ResourcePruner.Proofs.Utf8.Inverse
import ResourcePruner.Proofs.Removal.Rewriting
import ResourcePruner.Proofs.Definition.Closing
import ResourcePruner.Proofs.Usage.Roots
import ResourcePruner.Proofs.Disk.Loops
import ResourcePruner.Proofs.Removal.Concluded
import ResourcePruner.Proofs.Removal.Mirrored
import ResourcePruner.Proofs.Reference.Names
import ResourcePruner.Proofs.Declarations.Occurrences
import ResourcePruner.Proofs.Index.Exploration
import ResourcePruner.Proofs.Catalog.Views
import ResourcePruner.Proofs.Audit.Timeline
import ResourcePruner.Proofs.Backup.Target
import ResourcePruner.Proofs.Config.WellFormed
