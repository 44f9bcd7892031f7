import TileFlow.Main
import TileFlow.Proofs.Core.Unified
import TileFlow.Proofs.Routing.Circuit
import TileFlow.Proofs.Source.RoundTrip
import TileFlow.Proofs.Forest.Place
import TileFlow.Proofs.Program.Sound
import TileFlow.Proofs.Program.Evolution
import TileFlow.Proofs.Stage.Edits
import TileFlow.Proofs.Routing.FanOut
import TileFlow.Proofs.Routing.Packet
import TileFlow.Proofs.Fifo.Process
import TileFlow.Proofs.Fifo.OneCore
import TileFlow.Proofs.Fifo.InPlace
import TileFlow.Proofs.Memory.Locks
import TileFlow.Proofs.Memory.Layout
import TileFlow.Proofs.Stage.CanonicalShape
import TileFlow.Proofs.Fifo.Channel
import TileFlow.Proofs.Stage.Canonical
import TileFlow.Proofs.Memory.LockIds
import TileFlow.Proofs.Stage.Hidden
import TileFlow.Proofs.Fifo.Streams
import TileFlow.Proofs.Routing.Wires
import TileFlow.Proofs.Program.Arrangement
import TileFlow.Proofs.Stage.Orderly
import TileFlow.Proofs.Fifo.BoundedChannel
import TileFlow.Proofs.Stage.Idempotent
import TileFlow.Proofs.Emit.PackedFields
import TileFlow.Proofs.Emit.InstructionStream
import TileFlow.Proofs.Core.Units
import TileFlow.Proofs.Stage.Values
import TileFlow.Proofs.Core.Symbols
import TileFlow.Proofs.Emit.Sections
import TileFlow.Proofs.Emit.UniqueSymbols
import TileFlow.Proofs.Program.Order
import TileFlow.Proofs.Source.Written
import TileFlow.Proofs.Stage.Legible
import TileFlow.Proofs.Fifo.Legible
import TileFlow.Proofs.Emit.HostSources
import TileFlow.Proofs.Emit.EntryPoints
import TileFlow.Proofs.Forest.Expand
import TileFlow.Proofs.Program.Replace
import TileFlow.Proofs.Memory.Transfer
import TileFlow.Proofs.Stage.Kept
import TileFlow.Proofs.Fifo.Allocation
import TileFlow.Proofs.Fifo.Transfer
import TileFlow.Proofs.Package.Sizes
import TileFlow.Proofs.Routing.Path
import TileFlow.Proofs.Memory.Arguments
import TileFlow.Proofs.Stage.Confined
import TileFlow.Proofs.Stage.Frame
import TileFlow.Proofs.Program.Renumbering
import TileFlow.Proofs.Stage.InStep
import TileFlow.Proofs.Stage.Renumbered
import TileFlow.Proofs.Emit.Renumbered
import TileFlow.Proofs.Emit.Translatable
import TileFlow.Proofs.Stage.Tidy
import TileFlow.Proofs.Tool.Session
import TileFlow.Proofs.Tool.SearchPath
import TileFlow.Proofs.Compile.Plan
import TileFlow.Proofs.Files.Tree
import TileFlow.Proofs.Files.Output
import TileFlow.Proofs.Files.Alike
import TileFlow.Proofs.Compile.Outputs
import TileFlow.Proofs.Compile.DryRun
import TileFlow.Proofs.Files.Interleaving
import TileFlow.Proofs.Device.Placement
import TileFlow.Proofs.Memory.Packing
import TileFlow.Proofs.Memory.LockAssignment
import TileFlow.Proofs.Stage.LocksInReach
import TileFlow.Proofs.Routing.Legible
import TileFlow.Proofs.Stage.Reload
import TileFlow.Proofs.Stage.Description
import TileFlow.Proofs.Routing.Channels
import TileFlow.Proofs.Program.Graft
import TileFlow.Proofs.Routing.InPlace
import TileFlow.Proofs.Routing.PacketSteps
import TileFlow.Proofs.Routing.PacketRules
import TileFlow.Proofs.Emit.ControlFlow
import TileFlow.Proofs.Emit.Terminators
import TileFlow.Proofs.Emit.LocalNames
import TileFlow.Proofs.Emit.Accessors
import TileFlow.Proofs.Source.LongestMatch
import TileFlow.Proofs.Program.Built
import TileFlow.Proofs.Stage.Mirrored
