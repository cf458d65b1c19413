import AnpNetstack.Runs
import AnpNetstack.Checksum
import AnpNetstack.FixedBuffer
import AnpNetstack.TcpBlock
import AnpNetstack.Connection
import AnpNetstack.TcpReceive
import AnpNetstack.Sockets
import AnpNetstack.ReceiveStream
import AnpNetstack.Control
import AnpNetstack.StateMachine
import AnpNetstack.SendPart
import AnpNetstack.SendTiling
import AnpNetstack.FlowControl
import AnpNetstack.UnackedQueue
import AnpNetstack.WholeSegments
import AnpNetstack.Handshake
import AnpNetstack.SeqWindow
import AnpNetstack.SequenceShift
import AnpNetstack.ActiveClose
import AnpNetstack.RecvPart
import AnpNetstack.FinOrder
import AnpNetstack.FinAcked
import AnpNetstack.AfterFin
import AnpNetstack.Duplicates
import AnpNetstack.Route
import AnpNetstack.SocketTable
import AnpNetstack.Ports
import AnpNetstack.Descriptors
import AnpNetstack.LockPrograms
import AnpNetstack.LockBalance
import AnpNetstack.LockSystem
import AnpNetstack.CircularWait
import AnpNetstack.BlockingCalls
import AnpNetstack.FreedBlock
import AnpNetstack.WakeUps
import AnpNetstack.FailedConnect
import AnpNetstack.Packed
import AnpNetstack.Wire
import AnpNetstack.RoundTrip
import AnpNetstack.OnesComplement
import AnpNetstack.TcpChecksum
import AnpNetstack.Arp
import AnpNetstack.ArpAgreement
import AnpNetstack.History
import AnpNetstack.SocketCache
import AnpNetstack.Timers
import AnpNetstack.PartialAck
import AnpNetstack.Stack
import AnpNetstack.TimerContract
import AnpNetstack.Isolation
import AnpNetstack.BufferReads
import AnpNetstack.InsideBuffer
import AnpNetstack.ArpCache
import AnpNetstack.IcmpChecksum
import AnpNetstack.NextHop
import AnpNetstack.ClockWrap
import AnpNetstack.IcmpReply
import AnpNetstack.AckReplay
import AnpNetstack.SendResult
import AnpNetstack.RetryCount
import AnpNetstack.SameFrames
import AnpNetstack.QueueBytes
import AnpNetstack.InternetChecksum
import AnpNetstack.Allocation
import AnpNetstack.LinkRing
import AnpNetstack.LinkList
import AnpNetstack.ListWalk
import AnpNetstack.IntrusiveList
import AnpNetstack.QueueWalks
import AnpNetstack.TimerWalk
import AnpNetstack.QueueMemory
import AnpNetstack.Duplex
import AnpNetstack.PeerCalls
import AnpNetstack.PeerChecksum
import AnpNetstack.PeerProgress
import AnpNetstack.EtherRuns
import AnpNetstack.CallbackRuns
import AnpNetstack.CallbackTimes
import AnpNetstack.RetransmissionGaps
