import CaptureExport.Config.Basic
import CaptureExport.Event
import CaptureExport.Export.Schedule
import CaptureExport.FileSystem.Listing
import CaptureExport.FileSystem.Operations
import CaptureExport.Flush.Terminal
import CaptureExport.Gzip.Inflate
import CaptureExport.Json.Parser
import CaptureExport.Json.Stored
import CaptureExport.Log.Logger
import CaptureExport.Main
import CaptureExport.Memory.Relief
import CaptureExport.Program
import CaptureExport.Rotation.Dispatch
import CaptureExport.Segment.Name
import CaptureExport.Shutdown.Drain
import CaptureExport.Watch.Watcher
import CaptureExport.Proofs.Rotation.Pairing
import CaptureExport.Proofs.Rotation.Race
import CaptureExport.Proofs.FileSystem.Nodes
import CaptureExport.Proofs.FileSystem.Resolution
import CaptureExport.Proofs.FileSystem.Join
import CaptureExport.Proofs.Export.Concurrent
import CaptureExport.Proofs.Export.Stage
import CaptureExport.Proofs.Export.Batch
import CaptureExport.Proofs.Export.Schedule
import CaptureExport.Proofs.Flush.Scan
import CaptureExport.Proofs.Flush.Terminal
import CaptureExport.Proofs.Pipeline.Run
import CaptureExport.Proofs.Pipeline.Flushed
import CaptureExport.Proofs.Export.Refusal
import CaptureExport.Proofs.Rotation.Active
import CaptureExport.Proofs.Shutdown.Shared
import CaptureExport.Proofs.Sidecar.Lines
import CaptureExport.Proofs.Sidecar.Run
import CaptureExport.Proofs.Sidecar.Script
import CaptureExport.Proofs.Sidecar.Ending
import CaptureExport.Proofs.Export.Contest
import CaptureExport.Proofs.Flush.Names
import CaptureExport.Proofs.Segment.Naming
import CaptureExport.Proofs.Watch.Arrivals
import CaptureExport.Proofs.Log.Lines
import CaptureExport.Proofs.Flush.Again
import CaptureExport.Proofs.Export.Solo
import CaptureExport.Proofs.Export.Rollback
import CaptureExport.Proofs.Export.Retrying
import CaptureExport.Proofs.Export.Exact
import CaptureExport.Proofs.Export.Owners
import CaptureExport.Proofs.Flush.Budget
import CaptureExport.Proofs.Text.Reading
import CaptureExport.Segment.Expression
import CaptureExport.Proofs.Segment.Expression
import CaptureExport.Proofs.Segment.Grammar
import CaptureExport.Proofs.Segment.Doubles
import CaptureExport.Proofs.Flush.Targets
import CaptureExport.Proofs.Flush.Order
import CaptureExport.Proofs.Shutdown.Drain
import CaptureExport.Proofs.Config.Extensions
import CaptureExport.Proofs.Log.Integers
import CaptureExport.Proofs.FileSystem.Contents
import CaptureExport.Proofs.Memory.Difference
import CaptureExport.Proofs.Memory.Cycles
import CaptureExport.Proofs.Rotation.History
import CaptureExport.Proofs.Shutdown.Attempts
import CaptureExport.Proofs.Sidecar.Deadline
