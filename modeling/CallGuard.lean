import CallGuard.Command.Run
import CallGuard.Files.Interpreter
import CallGuard.Guard.Run
import CallGuard.Ir.Module.Parser
import CallGuard.Ir.Ty.Printer
import CallGuard.Main
import CallGuard.Pass.Registry
import CallGuard.Proofs.Guard.Check
import CallGuard.Proofs.Guard.Failures
import CallGuard.Proofs.Guard.InPlace
import CallGuard.Proofs.Guard.Lookup
import CallGuard.Proofs.Guard.Mediation
import CallGuard.Proofs.Guard.Policy
import CallGuard.Proofs.Guard.Ranges
import CallGuard.Proofs.Guard.Repeat
import CallGuard.Proofs.Ir.Blocks
import CallGuard.Proofs.Ir.CallForms
import CallGuard.Proofs.Ir.Direct.Safety
import CallGuard.Proofs.Ir.Escapes
import CallGuard.Proofs.Ir.Listing.Recovery
import CallGuard.Proofs.Ir.Places
import CallGuard.Proofs.Ir.Reads
import CallGuard.Proofs.Ir.Ty.RoundTrip
import CallGuard.Proofs.Json.Reading
import CallGuard.Proofs.Json.Spelling
import CallGuard.Proofs.Pass.Independence
import CallGuard.Proofs.Pass.Profiling
import CallGuard.Proofs.Report.RoundTrip
import CallGuard.Proofs.Table.Numbering
import CallGuard.Proofs.Table.Partition
import CallGuard.Proofs.Table.StableSort
import CallGuard.Proofs.Wat.Direct.Safety
import CallGuard.Proofs.Wat.Idle
import CallGuard.Proofs.Wat.Inverse
import CallGuard.Proofs.Wat.Lines
import CallGuard.Proofs.Wat.Machine
import CallGuard.Proofs.Wat.Nesting
import CallGuard.Proofs.Wat.Place
import CallGuard.Report.Writer
import CallGuard.Wat.Module
