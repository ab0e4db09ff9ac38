import Joker.Model.Atomic
import Joker.Proofs.Header
import Joker.Proofs.Pipeline
import Joker.Proofs.Callback
import Joker.Proofs.BackupCandidates
import Joker.Proofs.RetainedFrames
import Joker.Proofs.AtomicRuns
import Joker.Proofs.DuplicateWindow
import Joker.Proofs.HopBound
import Joker.Lib.Descent
import Joker.Proofs.Chat
import Joker.Proofs.Delivery
import Joker.Proofs.Election
import Joker.Proofs.DeafNeighbours
import Joker.Lib.RecencyLog
import Joker.Proofs.DedupLog
import Joker.Model.Candidate
import Joker.Proofs.Candidate
import Joker.Proofs.CandidateHeader
import Joker.Lib.Trace
import Joker.Model.WheelRuns
import Joker.Proofs.WheelRuns
import Joker.Proofs.Interference
import Joker.Proofs.Conservation
import Joker.Model.CoordinatorRuns
import Joker.Proofs.CoordinatorRuns
import Joker.Model.Cli
import Joker.Proofs.Hosts
import Joker.Proofs.OwnPackets
import Joker.Lib.Lfsr
import Joker.Proofs.Crc32
import Joker.Proofs.PacketIds
import Joker.Lib.Ranking
import Joker.Proofs.Ranking
import Joker.Proofs.LinkOrder
import Joker.Proofs.DyingCopies
import Joker.Proofs.OgmOrder
import Joker.Lib.Base64
import Joker.Lib.Chunks
import Joker.Lib.Fields
import Joker.Model.Kotlin
import Joker.Model.MainActivity
import Joker.Proofs.Kotlin
import Joker.Proofs.Framing
import Joker.Proofs.FileTransfer
import Joker.Proofs.LossyTransfer
import Joker.Proofs.DelayOrder
import Joker.Proofs.HeaderLimits
import Joker.Lib.Sweep
import Joker.Model.AckCoordinator
import Joker.Proofs.AckRuns
import Joker.Proofs.AckPipeline
import Joker.Model.CheckedMetrics
import Joker.Proofs.MetricFaults
import Joker.Model.MacText
import Joker.Proofs.MacText
import Joker.Lib.Simulation
import Joker.Model.AfPacket
import Joker.Proofs.AfPacket
import Joker.Model.Udp
import Joker.Proofs.UdpPeers
import Joker.Proofs.UdpChat
import Joker.Model.AckNetwork
import Joker.Lib.ModifiedUtf8
import Joker.Model.Application
import Joker.Proofs.AckNetwork
import Joker.Proofs.HeapChoice
import Joker.Proofs.Application
import Joker.Model.Sessions
import Joker.Proofs.Latency
import Joker.Proofs.Renaming
import Joker.Proofs.Sessions
import Joker.Proofs.LoopFree
import Joker.Lib.Selection
import Joker.Proofs.EndToEnd
import Joker.Proofs.Memory
import Joker.Proofs.PacketLife
import Joker.Proofs.Isolation
import Joker.Proofs.UnderLoad
import Joker.Proofs.Deadline
import Joker.Model.Cmsi
import Joker.Proofs.Cmsi
