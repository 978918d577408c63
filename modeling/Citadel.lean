import Citadel.Lib.Ring
import Citadel.Lib.RingSafety
import Citadel.Lib.RingLedger
import Citadel.Lib.SearchTree
import Citadel.Lib.Run
import Citadel.Lib.Loop
import Citadel.Lib.Reading
import Citadel.Lib.Calls
import Citadel.Lib.Bytes
import Citadel.Lib.Aead
import Citadel.Lib.Pke
import Citadel.Lib.Posix
import Citadel.Lib.Chain
import Citadel.Shared
import Citadel.Lsm.TicketCache
import Citadel.Lsm.TicketCacheTheorems
import Citadel.Lsm.TicketQueues
import Citadel.Lsm.TicketDelivery
import Citadel.Lsm.TicketRings
import Citadel.Lsm.Task
import Citadel.Lsm.TicketMemory
import Citadel.Lsm.HookFaults
import Citadel.Lsm.Inode
import Citadel.Lsm.HexCodec
import Citadel.Lsm.ShmTracking
import Citadel.Lsm.ShmTrackingTheorems
import Citadel.Lsm.Access
import Citadel.Lsm.AccessTheorems
import Citadel.Lsm.SystemRun
import Citadel.Lsm.LiveTickets
import Citadel.Lsm.Confinement
import Citadel.Lsm.Socket
import Citadel.Lsm.Ipc
import Citadel.Lsm.SegmentTaint
import Citadel.Lsm.ShmGate
import Citadel.Lsm.Credentials
import Citadel.Lsm.ProcessLifetime
import Citadel.Lsm.PayloadIo
import Citadel.Lsm.PayloadIoTheorems
import Citadel.Lsm.UpdateValidation
import Citadel.Lsm.RealmFlow
import Citadel.Lsm.RealmOrigin
import Citadel.Lsm.Registration
import Citadel.Lsm.FileIo
import Citadel.Lsm.InodeHooks
import Citadel.Lsm.UserXattrs
import Citadel.Lsm.Eviction
import Citadel.Lsm.Creation
import Citadel.Lsm.Installation
import Citadel.Lsm.Aes
import Citadel.Enclave.Aes
import Citadel.Enclave.Buffers
import Citadel.Enclave.LsmCommunication
import Citadel.Enclave.UserspaceIo
import Citadel.Enclave.RequestCalls
import Citadel.Enclave.TicketScope
import Citadel.Daemon.LsmIo
import Citadel.Daemon.IdentifierCache
import Citadel.Daemon.Socket
import Citadel.Daemon.Translation
import Citadel.Daemon.CacheAge
import Citadel.Daemon.ClientSocket
import Citadel.Libcitadel.Ipc
import Citadel.Libcitadel.Cache
import Citadel.Libcitadel.Init
import Citadel.Libcitadel.Fork
import Citadel.Libcitadel.FdList
import Citadel.Libcitadel.FdCalls
import Citadel.Libcitadel.Shm
import Citadel.Libcitadel.Shim
import Citadel.Protocol.Exchange
import Citadel.Protocol.Framing
import Citadel.Protocol.StreamWriters
import Citadel.Protocol.Lockstep
import Citadel.Protocol.Channels
import Citadel.Protocol.Requests
import Citadel.Protocol.HexCodecs
import Citadel.Protocol.LabelFormat
import Citadel.Protocol.TicketWindow
import Citadel.Protocol.RecentApprovals
import Citadel.Protocol.MessagePaths
import Citadel.Protocol.CacheCoherence
import Citadel.Protocol.HostLabels
import Citadel.Lsm.Provenance
import Citadel.Lib.Sealing
import Citadel.Lsm.Rsa
import Citadel.Protocol.Replay
import Citadel.Protocol.Deployment
import Citadel.Protocol.ApprovedOpen
import Citadel.Daemon.Server
import Citadel.Protocol.Startup
import Citadel.Libcitadel.ShimCalls
import Citadel.Protocol.ApprovedIo
import Citadel.Enclave.SealedKeys
import Citadel.Protocol.Provisioning
import Citadel.Protocol.RealmRequests
import Citadel.Lib.Origin
import Citadel.Lsm.Monitor
