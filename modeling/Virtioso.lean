import Virtioso.Fdt.Generation
import Virtioso.Fdt.Generators
import Virtioso.Fdt.GuestTree
import Virtioso.Fdt.Pools
import Virtioso.Fdt.Reference
import Virtioso.Fdt.Tree
import Virtioso.Fdt.Truncation
import Virtioso.Foundation.BitField
import Virtioso.Foundation.Loops
import Virtioso.Foundation.Places
import Virtioso.Foundation.Refinement
import Virtioso.Foundation.Simulation
import Virtioso.Irq.Gicv2m
import Virtioso.Irq.Injection
import Virtioso.Irq.Msi
import Virtioso.Irq.Pci
import Virtioso.Irq.Routing
import Virtioso.Irq.SharedLine
import Virtioso.Irq.WiredOr
import Virtioso.Proxy.Atomicity
import Virtioso.Proxy.Completion
import Virtioso.Proxy.Dispatch
import Virtioso.Proxy.Draining
import Virtioso.Proxy.Guests
import Virtioso.Proxy.Handling
import Virtioso.Proxy.Lifetime
import Virtioso.Proxy.Locality
import Virtioso.Proxy.NativeSlots
import Virtioso.Proxy.NativeValues
import Virtioso.Proxy.Notification
import Virtioso.Proxy.RemoteDevice
import Virtioso.Proxy.RoundTrip
import Virtioso.Proxy.Session
import Virtioso.Proxy.Slots
import Virtioso.Proxy.Stranded
import Virtioso.Ring.Delivery
import Virtioso.Ring.Fifo
import Virtioso.Ring.Finishing
import Virtioso.Ring.Growth
import Virtioso.Ring.Linearization
import Virtioso.Ring.Predicates
import Virtioso.Ring.Quiescence
import Virtioso.Ring.Recounting
import Virtioso.Ring.Refusal
import Virtioso.Ring.Solo
import Virtioso.Ring.Tracking
import Virtioso.Rpc.BitCalls
import Virtioso.Rpc.Bitmap
import Virtioso.Rpc.Cleanup
import Virtioso.Rpc.Conservation
import Virtioso.Rpc.Events
import Virtioso.Rpc.Lending
import Virtioso.Rpc.Pending
import Virtioso.Rpc.Recounting
import Virtioso.Rpc.Reinitialisation
import Virtioso.Rpc.Requests
import Virtioso.Rpc.System
import Virtioso.Vmm.Backends
import Virtioso.Vmm.ConfigAccess
import Virtioso.Vmm.ConfigSpace
import Virtioso.Vmm.Correspondence
import Virtioso.Vmm.DeviceCalls
import Virtioso.Vmm.EmulatedDevice
import Virtioso.Vmm.Exclusive
import Virtioso.Vmm.Initialisation
import Virtioso.Vmm.IrqReservations
import Virtioso.Vmm.Isolation
import Virtioso.Vmm.Lists
import Virtioso.Vmm.MmioReservations
import Virtioso.Vmm.MsiFrame
import Virtioso.Vmm.Platform
import Virtioso.Vmm.Reclaiming
import Virtioso.Vmm.RegionConfig
import Virtioso.Vmm.Rejection
import Virtioso.Vmm.Reporting
import Virtioso.Vmm.Service
import Virtioso.Vmm.Startup
import Virtioso.Vmm.TracePoints
