import ArrayLift.Main
import ArrayLift.CommandLine.Machine
import ArrayLift.Json.Printer
import ArrayLift.Proofs.Annotation.Differences
import ArrayLift.Proofs.Annotation.Edits
import ArrayLift.Proofs.Annotation.Strictness
import ArrayLift.Proofs.Assigning.Subscripted
import ArrayLift.Proofs.Assigning.Targets
import ArrayLift.Proofs.Delivery.Combined
import ArrayLift.Proofs.Execution.Jumps
import ArrayLift.Proofs.Format.RoundTrip
import ArrayLift.Proofs.Grouping.Terms
import ArrayLift.Proofs.Indexing.Ambiguous
import ArrayLift.Proofs.Interning.Queries
import ArrayLift.Proofs.Isolation.Independence
import ArrayLift.Proofs.Layout.Comments
import ArrayLift.Proofs.Layout.Options
import ArrayLift.Proofs.Layout.RoundTrip
import ArrayLift.Proofs.Looping.Settled
import ArrayLift.Proofs.Naming.Capture
import ArrayLift.Proofs.Naming.Equivariance
import ArrayLift.Proofs.Naming.Reserved
import ArrayLift.Proofs.Numbering.Identities
import ArrayLift.Proofs.Reaching.Declared
import ArrayLift.Proofs.Rendering.Bindings
import ArrayLift.Proofs.Rendering.Faults
import ArrayLift.Proofs.Rendering.Quotation
import ArrayLift.Proofs.Scopes.Contents
