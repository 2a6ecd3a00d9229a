import Virtioso.Foundation.BitField
import Virtioso.Irq.Pci
import Virtioso.Rpc.Events
import Virtioso.Rpc.System

/-! The I/O proxy: requests of the guest and the dispatch of what the backend sends.

A request occupies a slot of the table of callbacks until its response has been
processed. The first word of a message packs its operation, the slot and the
shape of the access.
-/

set_option autoImplicit false

namespace Virtioso.Proxy

open Foundation Virtioso.Ring Rpc
open Irq (Rc)

def rpcMr0Op : BitField := ⟨6, 0⟩
def rpcMr0Common : BitField := ⟨rpcMr0Op.width + rpcMr0Op.shift, 0⟩
def rpcMr0MmioSlot : BitField := ⟨6, rpcMr0Common.width + rpcMr0Common.shift⟩
def rpcMr0MmioDirection : BitField := ⟨1, rpcMr0MmioSlot.width + rpcMr0MmioSlot.shift⟩
def rpcMr0MmioAddrSpace : BitField := ⟨8, rpcMr0MmioDirection.width + rpcMr0MmioDirection.shift⟩
def rpcMr0MmioLength : BitField := ⟨4, rpcMr0MmioAddrSpace.width + rpcMr0MmioAddrSpace.shift⟩

def qemuOpMmio : BitVec 32 := 0#32

/-- `SEL4_IO_DIR_READ` and `SEL4_IO_DIR_WRITE`. -/
def sel4IoDirRead : BitVec 32 := 0#32
def sel4IoDirWrite : BitVec 32 := 1#32

/-- `AS_GLOBAL`. -/
def asGlobal : BitVec 32 := mask 32 rpcMr0MmioAddrSpace.width

/-- `SEL4_MMIO_MAX_VCPU + SEL4_MMIO_MAX_NATIVE`. -/
abbrev ioacksSize : Nat := 16 + 16

/-- The functions installed as `ioack_fn_t`. -/
inductive IoackFn where
  | ioackNativeRead
  | ioackNativeWrite
  | ioackVcpuRead
  | ioackVcpuWrite
  deriving DecidableEq, Repr

abbrev Cookie := BitVec 64

/-- `ioack_t`, with `none` for NULL. -/
structure Ioack where
  callback : Option IoackFn
  cookie : Cookie
  deriving DecidableEq, Repr

structure IoackCall where
  callback : IoackFn
  data : BitVec 64
  cookie : Cookie
  deriving DecidableEq, Repr

/-- What a callback returns: each of them succeeds. -/
def IoackFn.returns : IoackFn → Int
  | .ioackNativeRead | .ioackNativeWrite | .ioackVcpuRead | .ioackVcpuWrite => 0

/-- `io_proxy_t` with the rpc it shares with the backend, the calls of callbacks,
oldest first, and what else the handlers of messages use. -/
structure IoProxy (W : Type) where
  ioacks : Fin ioacksSize → Ioack
  rpc : System
  deviceEvent : Queue EventStore
  /-- whether `rpc.doorbell` is set -/
  doorbell : Bool
  calls : List IoackCall
  outside : W

/-- The arguments of `ioreq_start`. -/
structure IoReq where
  slot : BitVec 32
  ioackRead : IoackFn
  ioackWrite : IoackFn
  cookie : Cookie
  addrSpace : BitVec 32
  direction : BitVec 32
  offset : BitVec 64
  size : BitVec 64
  val : BitVec 64
  deriving DecidableEq, Repr

variable {W : Type}

/-- `vso_doorbell`: what it returns. When the other side runs is left to the schedule. -/
def vsoDoorbell (doorbell : Bool) : Int := if doorbell then 0 else -1

/-- `driver_rpc_request`. -/
def driverRpcRequest (v : CasVariant) (proxy : IoProxy W) (op : BitVec 32)
    (mr0 mr1 mr2 mr3 : BitVec 64) : Except Fault (IoProxy W × Int) := do
  let mr0 := rpcMr0Op.set mr0 (op.setWidth 64)
  let (rpc, err) ← proxy.rpc.request v mr0 mr1 mr2 mr3
  let proxy := { proxy with rpc }
  if err < 0 then return (proxy, err) else return (proxy, vsoDoorbell proxy.doorbell)

/-- `driver_rpc_req_mmio_start`. -/
def driverRpcReqMmioStart (v : CasVariant) (proxy : IoProxy W) (direction addrSpace slot : BitVec 32)
    (addr len data : BitVec 64) : Except Fault (IoProxy W × Int) :=
  let mr0 := rpcMr0MmioDirection.set 0#64 (direction.setWidth 64)
  let mr0 := rpcMr0MmioAddrSpace.set mr0 (addrSpace.setWidth 64)
  let mr0 := rpcMr0MmioLength.set mr0 len
  let mr0 := rpcMr0MmioSlot.set mr0 (slot.setWidth 64)
  driverRpcRequest v proxy qemuOpMmio mr0 addr data 0#64

def IoReq.callback (req : IoReq) : IoackFn :=
  if req.direction = sel4IoDirRead then req.ioackRead else req.ioackWrite

def IoReq.ioack (req : IoReq) : Ioack := ⟨some req.callback, req.cookie⟩

/-- `ioreq_start`. -/
def ioreqStart (v : CasVariant) (proxy : IoProxy W) (req : IoReq) : Except Fault (IoProxy W × Int) :=
  if ¬req.size.toNat ≤ 8 then throw .assertion
  else if inside : req.slot.toNat < ioacksSize then
    let slot : Fin ioacksSize := ⟨req.slot.toNat, inside⟩
    if (proxy.ioacks slot).callback ≠ none then throw .assertion
    else
      let proxy := { proxy with ioacks := Function.update proxy.ioacks slot req.ioack }
      driverRpcReqMmioStart v proxy req.direction req.addrSpace req.slot req.offset req.size req.val
  else return (proxy, -1)

/-- `ioreq_finish`. Its assertion lets the slot behind the table pass. -/
def ioreqFinish (proxy : IoProxy W) (slot : BitVec 32) (data : BitVec 64) :
    Except Fault (IoProxy W × Int) :=
  if ¬slot.toNat ≤ ioacksSize then throw .assertion
  else if inside : slot.toNat < ioacksSize then
    let slot : Fin ioacksSize := ⟨slot.toNat, inside⟩
    let ioack := proxy.ioacks slot
    match ioack.callback with
    | none => throw .assertion
    | some callback => return ({ proxy with
        calls := proxy.calls ++ [⟨callback, data, ioack.cookie⟩]
        ioacks := Function.update proxy.ioacks slot { ioack with callback := none } }, callback.returns)
  else throw .outOfBounds

/-- `rpc_callback_fn_t`. -/
abbrev RpcCallback (W : Type) := IoProxy W → BitVec 32 → Msg → Except Fault (IoProxy W × Rc)

/-- `handle_mmio`. -/
def handleMmio : RpcCallback W := fun proxy op msg =>
  if op ≠ qemuOpMmio then return (proxy, .none)
  else do
    let slot := (rpcMr0MmioSlot.get msg.mr0).setWidth 32
    let (proxy, err) ← ioreqFinish proxy slot msg.mr2
    return (proxy, if err ≠ 0 then .error else .handled)

/-- The handlers are asked in turn until one does not pass the message on. -/
def askCallbacks (proxy : IoProxy W) (op : BitVec 32) (msg : Msg) :
    List (RpcCallback W) → Except Fault (IoProxy W × Rc)
  | [] => return (proxy, .none)
  | callback :: rest => do
      let (proxy, rc) ← callback proxy op msg
      if rc = .none then askCallbacks proxy op msg rest else return (proxy, rc)

/-- `rpc_process`. -/
def rpcProcess (callbacks : List (RpcCallback W)) (proxy : IoProxy W) (msg : Msg) :
    Except Fault (IoProxy W × Int) := do
  let (proxy, rc) ← askCallbacks proxy ((rpcMr0Op.get msg.mr0).setWidth 32) msg callbacks
  return (proxy, match rc with | .error | .none => -1 | .handled => 0)

/-- The first loop of `rpc_run`, with what is in `rc`. A failed response ends it
before its buffer is reclaimed. -/
def runResponses (v : CasVariant) (callbacks : List (RpcCallback W)) :
    Nat → IoProxy W → Int → Except Fault (IoProxy W × Int)
  | 0, _, _ => throw .stuck
  | fuel + 1, proxy, rc => do
      let (rpc, answer) ← proxy.rpc.receiveResponse v
      let proxy := { proxy with rpc }
      match answer with
      | none => return (proxy, rc)
      | some (resp, _) =>
          let (proxy, rc) ← rpcProcess callbacks proxy (proxy.rpc.buffer resp.1)
          if rc ≠ 0 then return (proxy, rc)
          else runResponses v callbacks fuel { proxy with rpc := proxy.rpc.reclaim resp } rc

/-- The second loop of `rpc_run`, with what is in `event` and `rc`. -/
def runEvents (v : CasVariant) (callbacks : List (RpcCallback W)) :
    Nat → IoProxy W → Msg → Int → Except Fault (IoProxy W × Int)
  | 0, _, _, _ => throw .stuck
  | fuel + 1, proxy, event, rc =>
      match rpcmsgEventRx v proxy.deviceEvent event with
      | none => throw .stuck
      | some (deviceEvent, code, event) => do
          let proxy := { proxy with deviceEvent }
          if code ≠ 0 then return (proxy, rc)
          else
            let (proxy, rc) ← rpcProcess callbacks proxy event
            if rc ≠ 0 then return (proxy, rc) else runEvents v callbacks fuel proxy event rc

/-- What is between the markers of a queue. A loop that empties the queue makes one
more pass. -/
def queued {M : Type} (q : Queue M) : Nat := (q.prod.head.pos - q.cons.head.pos).toNat

/-- `rpc_run`, with the handlers of `rpc_callbacks` after `handle_mmio` and what is on
the stack for `event`. -/
def rpcRun (v : CasVariant) (others : List (RpcCallback W)) (proxy : IoProxy W) (event : Msg) :
    Except Fault (IoProxy W × Int) := do
  let callbacks := handleMmio :: others
  let (proxy, rc) ← runResponses v callbacks (queued (proxy.rpc.queues .drvrpcResp) + 1) proxy 0
  runEvents v callbacks (queued proxy.deviceEvent + 1) proxy event rc

/-- `driver_rpc_reply`, of a peer with its own doorbell. -/
def driverRpcReply (v : CasVariant) (rpc : System) (doorbell : Bool) (peer : Peer) (held : Held) :
    Except Fault (System × Int) := do
  let (rpc, err) ← rpc.reply v peer held
  if err ≠ 0 then return (rpc, err) else return (rpc, vsoDoorbell doorbell)

/-- `driver_rpc_ack_mmio_finish`. -/
def driverRpcAckMmioFinish (v : CasVariant) (rpc : System) (doorbell : Bool) (peer : Peer) (held : Held)
    (data : BitVec 64) : Except Fault (System × Int) :=
  driverRpcReply v (rpc.write held { rpc.buffer held.1 with mr2 := data }) doorbell peer held

end Virtioso.Proxy
