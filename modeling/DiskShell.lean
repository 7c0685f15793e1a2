import DiskShell.Shell.Session
import DiskShell.Proofs.Json.Depth
import DiskShell.Proofs.Json.RoundTrip
import DiskShell.Proofs.Node.Directory
import DiskShell.Proofs.Node.Shape
import DiskShell.Proofs.Record
import DiskShell.Proofs.Document
import DiskShell.Proofs.Node.Height
import DiskShell.Proofs.Tree.Edit
import DiskShell.Proofs.Tree.WellFormed
import DiskShell.Proofs.Disk.Step
import DiskShell.Proofs.Disk.Change
import DiskShell.Proofs.Disk.Run
import DiskShell.Proofs.Store
import DiskShell.Proofs.Disk.Saving
import DiskShell.Proofs.Disk.Alike
import DiskShell.Proofs.Shell.Alike
import DiskShell.Proofs.Shell.Builtin
import DiskShell.Proofs.Shell.Quote
import DiskShell.Proofs.Tree.Growth
import DiskShell.Proofs.Tree.Face
import DiskShell.Proofs.Tree.Verdict
import DiskShell.Proofs.Tree.Effect
import DiskShell.Proofs.Shell.Changes
import DiskShell.Proofs.Shell.Session
import DiskShell.Proofs.Shell.Transport
import DiskShell.Proofs.Disk.Address
import DiskShell.Proofs.Disk.Effect
import DiskShell.Proofs.Disk.Transfer
import DiskShell.Proofs.Tree.Presence
import DiskShell.Proofs.Disk.Removal
import DiskShell.Proofs.Node.Level
import DiskShell.Proofs.Snapshot.Levels
import DiskShell.Proofs.Snapshot.Items
import DiskShell.Proofs.Snapshot.Lines
import DiskShell.Proofs.Snapshot.Order
import DiskShell.Proofs.Node.Total
import DiskShell.Proofs.Usage
import DiskShell.Proofs.Shell.Reach
import DiskShell.Proofs.Shell.Route
import DiskShell.Proofs.Json.Bytes
import DiskShell.Proofs.Json.Reading
import DiskShell.Proofs.Json.Limit
import DiskShell.Proofs.Json.Members
import DiskShell.Proofs.Record.Children
import DiskShell.Proofs.Record.Repair
import DiskShell.Proofs.Shell.Grammar
import DiskShell.Proofs.Shell.Spacing
import DiskShell.Proofs.Shell.History
import DiskShell.Proofs.Shell.Frame
import DiskShell.Proofs.Disk.Directories
import DiskShell.Proofs.Shell.Operands
import DiskShell.Proofs.Record.Normal
import DiskShell.Proofs.Tree.Lens
import DiskShell.Proofs.Config
import DiskShell.Proofs.Values
import DiskShell.Proofs.Node.Log
import DiskShell.Proofs.Node.Chain
import DiskShell.Proofs.Node.Search
import DiskShell.Proofs.Tree.Depth
import DiskShell.Proofs.Text.Trim
