import SfcCapio.Foundation.Runs
import SfcCapio.Foundation.MarkedRing
import SfcCapio.Foundation.Credit
import SfcCapio.Foundation.RingSpan
import SfcCapio.Foundation.Lockstep
import SfcCapio.Foundation.Capability
import SfcCapio.Foundation.Fallible
import SfcCapio.Foundation.Extents
import SfcCapio.Foundation.Paging
import SfcCapio.Foundation.StructLayout
import SfcCapio.Foundation.Locking
import SfcCapio.Foundation.Loops
import SfcCapio.Hardware.Words
import SfcCapio.Hardware.Device
import SfcCapio.Hardware.EventRing
import SfcCapio.Hardware.TxEngine
import SfcCapio.Userlib.Interface
import SfcCapio.Userlib.EventQueue
import SfcCapio.Userlib.RxWindow
import SfcCapio.Userlib.RxRecv
import SfcCapio.Userlib.RxCookies
import SfcCapio.Kernel.RxIoctl
import SfcCapio.Kernel.ReceivedRanges
import SfcCapio.Kernel.RxCopyFaults
import SfcCapio.Kernel.TxIoctl
import SfcCapio.Kernel.TxRuns
import SfcCapio.Kernel.TxConfirmed
import SfcCapio.Kernel.SharedEvq
import SfcCapio.Handover.Sessions
import SfcCapio.Handover.Cursors
import SfcCapio.Pmd.Queues
import SfcCapio.Pmd.Reaping
import SfcCapio.Pmd.Receive
import SfcCapio.Pmd.MbufOwners
import SfcCapio.Pmd.LiveCookies
import SfcCapio.Pmd.RxOwnership
import SfcCapio.Pmd.RxAccounting
import SfcCapio.Pmd.RxAttribution
import SfcCapio.Pmd.AttributionWindow
import SfcCapio.Pmd.Transmit
import SfcCapio.Pmd.TxContent
import SfcCapio.Pmd.TxReturn
import SfcCapio.Pmd.TxCompletions
import SfcCapio.Pmd.TxLifetime
import SfcCapio.Pmd.TxDoorbells
import SfcCapio.Pmd.StatsReset
import SfcCapio.Capio.Softc
import SfcCapio.Capio.MmapFailure
import SfcCapio.Capio.RevocationErrors
import SfcCapio.Capio.Tokens
import SfcCapio.Capio.IoctlData
import SfcCapio.Capio.Mappings
import SfcCapio.Capio.Regions
import SfcCapio.Capio.RegionInvariant
import SfcCapio.Capio.Revocation
import SfcCapio.Capio.RemovedRanges
import SfcCapio.Capio.RemovalInvariant
import SfcCapio.Capio.Detach
import SfcCapio.Capio.OneObject
import SfcCapio.Capio.Lifecycle
import SfcCapio.Capio.AttachWindow
import SfcCapio.Capio.Reopen
import SfcCapio.Capio.Containment
import SfcCapio.Mcdi.Framing
import SfcCapio.Mcdi.Exec
import SfcCapio.Mcdi.Responses
import SfcCapio.Mcdi.Exchange
import SfcCapio.Mcdi.ResponseHandling
import SfcCapio.Mcdi.Filters
import SfcCapio.Mcdi.Commands
import SfcCapio.Bringup.Firmware
import SfcCapio.Bringup.FailedInit
import SfcCapio.Bringup.Teardown
import SfcCapio.Bringup.DmaResources
import SfcCapio.Kernel.Interrupt
import SfcCapio.Kernel.ControlCursor
import SfcCapio.Kernel.ControlEvents
import SfcCapio.Kernel.CriticalSections
import SfcCapio.Kernel.HostileInput
import SfcCapio.Echo.Frame
import SfcCapio.Echo.Loop
import SfcCapio.Echo.Reuse
import SfcCapio.Echo.Checksum
import SfcCapio.Echo.CksumLoops
import SfcCapio.Echo.Rewritten
import SfcCapio.Echo.Body
import SfcCapio.Foundation.OnesComplement
import SfcCapio.Foundation.TracedMemory
import SfcCapio.Fstack.Cksum
import SfcCapio.Fstack.CksumLoads
import SfcCapio.Foundation.ByteSums
import SfcCapio.Fstack.CksumChains
import SfcCapio.Fstack.EpollShim
import SfcCapio.Foundation.FifoLine
import SfcCapio.Bench.Port
import SfcCapio.Bench.Net
import SfcCapio.Bench.Throughput
import SfcCapio.Bench.WindowBound
