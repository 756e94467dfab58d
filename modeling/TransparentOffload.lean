import TransparentOffload.Lib.Run
import TransparentOffload.Lib.TicketRing
import TransparentOffload.Lib.Chunks
import TransparentOffload.Clock
import TransparentOffload.Detector
import TransparentOffload.ErrQueue
import TransparentOffload.Kernel
import TransparentOffload.Mutex
import TransparentOffload.Runtime
import TransparentOffload.Yield
import TransparentOffload.Interpose
import TransparentOffload.Carrier
import TransparentOffload.Steps
import TransparentOffload.Table
import TransparentOffload.Conservation
import TransparentOffload.Moves
import TransparentOffload.Formed
import TransparentOffload.Servers
import TransparentOffload.HandlerLock
import TransparentOffload.Enforcement
import TransparentOffload.LostUpdates
import TransparentOffload.ErrorQueues
import TransparentOffload.MutexExclusion
import TransparentOffload.WakeRing
import TransparentOffload.Readiness
import TransparentOffload.Offloads
import TransparentOffload.Wakeups
import TransparentOffload.Deadlines
import TransparentOffload.TimedParks
import TransparentOffload.PollReadiness
import TransparentOffload.Device
import TransparentOffload.Stock
import TransparentOffload.Transparency
import TransparentOffload.LibAccel
import TransparentOffload.Accelerator
import TransparentOffload.DetectorModule
import TransparentOffload.RmwJobs
import TransparentOffload.Lib.Counters
import TransparentOffload.RmwGates
import TransparentOffload.RmwExactness
import TransparentOffload.ConflictDetector
import TransparentOffload.SpeculateOrSerialize
import TransparentOffload.Passthrough
import TransparentOffload.Preload
import TransparentOffload.Answers
import TransparentOffload.SocketMode
import TransparentOffload.Lib.History
import TransparentOffload.PageHistory
import TransparentOffload.PageTracking
import TransparentOffload.MissedUpdates
import TransparentOffload.FalseAlarms
import TransparentOffload.Undetected
import TransparentOffload.UserBuffers
import TransparentOffload.AdaptiveEnforcement
import TransparentOffload.ErrnoPrivacy
import TransparentOffload.Lib.WorkPool
import TransparentOffload.Spop
import TransparentOffload.SpopCodec
import TransparentOffload.SpopFrames
import TransparentOffload.SpoaAgent
import TransparentOffload.SpoaAcks
import TransparentOffload.SpoaLifetime
import TransparentOffload.RmwTurns
import TransparentOffload.RmwHistory
import TransparentOffload.Disconnects
import TransparentOffload.RmwReset
import TransparentOffload.Lib.Gf256
import TransparentOffload.Lib.Fips197
import TransparentOffload.Aes
import TransparentOffload.AesInPlace
import TransparentOffload.AesStandard
import TransparentOffload.AesPermutation
import TransparentOffload.BatchFusion
import TransparentOffload.LibAccelGpu
import TransparentOffload.GpuSlots
import TransparentOffload.AccelBackends
import TransparentOffload.ThreadKeys
import TransparentOffload.Resumptions
import TransparentOffload.Lib.Dialogue
import TransparentOffload.TcoServer
import TransparentOffload.TcoAnswers
import TransparentOffload.RemoteSigner
import TransparentOffload.RemoteAnswers
import TransparentOffload.OpenLoop
import TransparentOffload.OpenLoopTasks
import TransparentOffload.OpenLoopArrivals
import TransparentOffload.OpenLoopConservation
import TransparentOffload.Lib.ByteMemory
import TransparentOffload.Lib.Coroutines
import TransparentOffload.FwFiber
import TransparentOffload.FiberSwitches
import TransparentOffload.FwSwitchX86
import TransparentOffload.FwSwitchArm
import TransparentOffload.PageNumbers
import TransparentOffload.Lib.Threads
import TransparentOffload.CtrLaunch
import TransparentOffload.TcoRoom
import TransparentOffload.RmwCounters
import TransparentOffload.Lib.Allocator
import TransparentOffload.InferenceSkel
import TransparentOffload.InferenceBlocks
import TransparentOffload.Turns
import TransparentOffload.Lib.SharedLock
import TransparentOffload.RwLocks
import TransparentOffload.BarrierServer
import TransparentOffload.Lib.Streams
import TransparentOffload.GpuStreams
import TransparentOffload.GpuRuntime
import TransparentOffload.Lib.Clients
import TransparentOffload.ClientThreads
import TransparentOffload.TcoClients
import TransparentOffload.CarrierWaits
import TransparentOffload.ConnClients
import TransparentOffload.Lib.Parties
import TransparentOffload.TcoServerGpu
import TransparentOffload.TcoGpuAnswers
import TransparentOffload.CoopErr
import TransparentOffload.Lib.Refinement
import TransparentOffload.RemoteHsm
import TransparentOffload.RemoteSystem
import TransparentOffload.RemoteReplies
import TransparentOffload.Lib.Framing
import TransparentOffload.SpoaLocks
import TransparentOffload.SpoaWire
import TransparentOffload.SpoaStreams
import TransparentOffload.SpoaReplies
import TransparentOffload.Lib.WaitPool
import TransparentOffload.RedisAccel
