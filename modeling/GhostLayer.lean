import GhostLayer.Checked
import GhostLayer.Axis
import GhostLayer.Direction
import GhostLayer.CubeRoot
import GhostLayer.Extents
import GhostLayer.Boundary
import GhostLayer.Grid
import GhostLayer.Neighbours
import GhostLayer.Round
import GhostLayer.HaloError
import GhostLayer.Admission
import GhostLayer.Scalar.LittleEndian
import GhostLayer.Scalar.Basic
import GhostLayer.Scalar.Binary
import GhostLayer.Wire
import GhostLayer.FieldView
import GhostLayer.Region
import GhostLayer.Packing
import GhostLayer.Mailbox
import GhostLayer.Notice
import GhostLayer.Program
import GhostLayer.Buffers
import GhostLayer.PendingReceives
import GhostLayer.Exchange.Basic
import GhostLayer.Exchange.Posting
import GhostLayer.Exchange.Sending
import GhostLayer.Exchange.Combining
import GhostLayer.Exchange.Rounds
import GhostLayer.Call
import GhostLayer.World
import GhostLayer.World.Interleaving
import GhostLayer.Network
import GhostLayer.Datum
import GhostLayer.Hex
import GhostLayer.Proofs.Bricks
import GhostLayer.Proofs.Cube
import GhostLayer.Proofs.Duality
import GhostLayer.Proofs.BufferRegions
import GhostLayer.Proofs.Courses
import GhostLayer.Proofs.Elements
import GhostLayer.Proofs.Merging
import GhostLayer.Proofs.Schedules
import GhostLayer.Proofs.Collecting
import GhostLayer.Proofs.Independence
import GhostLayer.Proofs.Joining
import GhostLayer.Proofs.Holders
import GhostLayer.Proofs.OneCall
import GhostLayer.Proofs.NodalSum
import GhostLayer.Proofs.Overwriting
import GhostLayer.Proofs.Walks
import GhostLayer.Proofs.Arrivals
import GhostLayer.Proofs.Refusals
import GhostLayer.Proofs.Lifecycle
import GhostLayer.Proofs.Reachability
import GhostLayer.Proofs.Acceptance
import GhostLayer.Proofs.Copying
import GhostLayer.Proofs.Descent
import GhostLayer.Proofs.Settling
import GhostLayer.Proofs.Appending
import GhostLayer.Proofs.GhostFilling
import GhostLayer.Proofs.Traffic
import GhostLayer.Proofs.Passages
import GhostLayer.Proofs.Ledgers
import GhostLayer.Proofs.SingleUse
import GhostLayer.Proofs.RefusedRounds
import GhostLayer.Proofs.Deliveries
import GhostLayer.Proofs.Isolation
import GhostLayer.Proofs.Overflows
import GhostLayer.Proofs.Faults
import GhostLayer.Proofs.Compartments
import GhostLayer.Proofs.Emissions
import GhostLayer.Proofs.Verdicts
import GhostLayer.Proofs.Repacking
import GhostLayer.Proofs.Forgetting
import GhostLayer.Proofs.Enumeration
import GhostLayer.Proofs.Placement
import GhostLayer.Proofs.Mirroring
import GhostLayer.Proofs.Accumulating
import GhostLayer.Proofs.AllOrNothing
import GhostLayer.Proofs.Components
import GhostLayer.Proofs.Extraction
import GhostLayer.Proofs.Successions
import GhostLayer.Proofs.WireForm
import GhostLayer.Proofs.Tabulation
import GhostLayer.Proofs.Queues
import GhostLayer.Proofs.Picking
import GhostLayer.Proofs.Batching
import GhostLayer.Proofs.Transcription
