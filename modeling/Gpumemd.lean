import Gpumemd.Library.Decimal
import Gpumemd.Library.Fields
import Gpumemd.Library.Filling
import Gpumemd.Library.Framing
import Gpumemd.Library.Greedy
import Gpumemd.Library.Interval
import Gpumemd.Library.Isolation
import Gpumemd.Library.Keyed
import Gpumemd.Library.Ledger
import Gpumemd.Library.Machine
import Gpumemd.Library.Progress
import Gpumemd.Library.Simulation
import Gpumemd.Library.Selection
import Gpumemd.Library.Scheduling
import Gpumemd.Library.Signed
import Gpumemd.Library.Sorted
import Gpumemd.Library.Table
import Gpumemd.Library.Tokens
import Gpumemd.Basic
import Gpumemd.Metrics
import Gpumemd.Memory.Allocator
import Gpumemd.Memory.Pool
import Gpumemd.Memory.Canonical
import Gpumemd.Memory.Fragmentation
import Gpumemd.Memory.Direct
import Gpumemd.Device.Placement
import Gpumemd.Device.Charges
import Gpumemd.Device.Choice
import Gpumemd.Device.Balance
import Gpumemd.Node.Registry
import Gpumemd.Node.Usage
import Gpumemd.Resource.Manager
import Gpumemd.Resource.Pass
import Gpumemd.Resource.Settled
import Gpumemd.Resource.Accounting
import Gpumemd.Resource.Requests
import Gpumemd.Resource.Outcomes
import Gpumemd.Resource.Refusals
import Gpumemd.Resource.Margin
import Gpumemd.Resource.Greedy
import Gpumemd.Resource.Overtaking
import Gpumemd.Resource.WakeUps
import Gpumemd.Resource.Deadlines
import Gpumemd.Resource.Models
import Gpumemd.Resource.Replacement
import Gpumemd.Resource.Clock
import Gpumemd.Resource.Immediate
import Gpumemd.Resource.Status
import Gpumemd.Resource.Blocking
import Gpumemd.Resource.Policies
import Gpumemd.Protocol.Parse
import Gpumemd.Protocol.Grammar
import Gpumemd.Protocol.Numbers
import Gpumemd.Protocol.Classification
import Gpumemd.Protocol.Options
import Gpumemd.Protocol.Format
import Gpumemd.Protocol.Responses
import Gpumemd.Protocol.Decode
import Gpumemd.Residency.Registry
import Gpumemd.Residency.History
import Gpumemd.Residency.Backend
import Gpumemd.Residency.Manager
import Gpumemd.Residency.Effects
import Gpumemd.Residency.Consistency
import Gpumemd.Residency.Listings
import Gpumemd.Residency.Backing
import Gpumemd.Residency.Orphans
import Gpumemd.Residency.Retention
import Gpumemd.Residency.Capacity
import Gpumemd.Residency.Plan
import Gpumemd.Residency.Window
import Gpumemd.Residency.Atomicity
import Gpumemd.Residency.Alone
import Gpumemd.Residency.RoundTrip
import Gpumemd.Residency.Choice
import Gpumemd.Residency.Bookkeeping
import Gpumemd.Residency.Eviction
import Gpumemd.Residency.Pieces
import Gpumemd.Accelerator.Interface
import Gpumemd.Accelerator.Cuda
import Gpumemd.Accelerator.Threads
import Gpumemd.Accelerator.Metal
import Gpumemd.Accelerator.Hosted
import Gpumemd.Ipc.Session
import Gpumemd.Ipc.Server
import Gpumemd.Ipc.Steps
import Gpumemd.Ipc.Responses
import Gpumemd.Ipc.Errors
import Gpumemd.Ipc.Shutdown
import Gpumemd.Ipc.Balance
import Gpumemd.Ipc.Workers
import Gpumemd.Ipc.Wire
import Gpumemd.Ipc.Serving
import Gpumemd.Ipc.Locks
import Gpumemd.Ipc.Progress
import Gpumemd.Ipc.Sockets
import Gpumemd.Ipc.Descriptors
import Gpumemd.Ipc.Startup
import Gpumemd.Client.Acquire
import Gpumemd.Client.Names
import Gpumemd.Client.Share
import Gpumemd.Client.Request
import Gpumemd.Client.Ctl
import Gpumemd.Client.Framing
import Gpumemd.Client.Exchange
import Gpumemd.Client.Allocation
