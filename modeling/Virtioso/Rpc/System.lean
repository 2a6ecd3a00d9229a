import Virtioso.Foundation.Runs
import Virtioso.Rpc.Requests

/-! Driver, device kernel module and device on one `drvrpc` buffer table.

Each step is one complete operation of one party. Requests are numbered in the
order they are issued; the number travels with the message, in the queues as in
the hands of a party, and no operation looks at it.
-/

set_option autoImplicit false

namespace Virtioso.Rpc

open Foundation Virtioso.Ring

/-- The queues of the driver rpc among `rpcmsg_queue_id_t`. -/
inductive QueueId where
  | drvrpcReq
  | drvrpcReqDev
  | drvrpcResp
  deriving DecidableEq, Repr

inductive Peer where
  | deviceKm
  | device
  deriving DecidableEq, Repr

inductive Party where
  | driver
  | peer (peer : Peer)
  deriving DecidableEq, Repr

/-- The queue a peer receives requests from, by `vso_driver_rpc_init`. -/
def Peer.request : Peer → QueueId
  | .deviceKm => .drvrpcReq
  | .device => .drvrpcReqDev

/-- A received message, with the number of the request it carries. -/
abbrev Held := MsgPtr × Nat

/-- The shared buffer table and queues, the driver's buffer state, the messages in
the hands of the parties, and what the requests returned. -/
structure System where
  buffer : Buffer
  queues : QueueId → Queue RingIds
  bufferState : BufferState
  hands : Party → List Held
  /-- numbers of the requests in each queue, oldest first -/
  journey : QueueId → List Nat
  /-- return code of request number `n`, at index `n` -/
  issued : List Int

def System.initial : System where
  buffer _ := ⟨0#64, 0#64, 0#64, 0#64⟩
  queues _ := rpcmsgQueueInit fun _ => 0#16
  bufferState := rpcmsgBufferStateInit
  hands _ := []
  journey _ := []
  issued := []

inductive Operation where
  | request (mr0 mr1 mr2 mr3 : BitVec 64)
  | receive (peer : Peer)
  | forward (peer : Peer) (held : Held)
  | reply (peer : Peer) (held : Held)
  | write (party : Party) (held : Held) (words : Msg)
  | receiveResponse
  | reclaim (held : Held)

/-- What an operation returns. The number of an answered request is reported beside
what `rpcmsg_receive_response` returns. -/
inductive Outcome where
  | code (value : Int)
  | received (msg : Option MsgPtr)
  | response (answer : Option (MsgPtr × BitVec 16 × Nat))
  | done
  deriving DecidableEq, Repr

/-- The memory after `rpcmsg_request`. -/
def System.store (s : System) (r : Requested) : System :=
  { s with
    buffer := r.buffer
    queues := Function.update s.queues .drvrpcReq r.queue
    bufferState := r.state }

/-- A request that did not fail is on its way, with the next number. -/
def System.issue (s : System) (r : Requested) : System :=
  { s.store r with
    journey := Function.update s.journey .drvrpcReq (s.journey .drvrpcReq ++ [s.issued.length])
    issued := s.issued ++ [r.code] }

def System.take (s : System) (id : QueueId) (party : Party) (queue : Queue RingIds) (msg : MsgPtr) :
    System :=
  { s with
    queues := Function.update s.queues id queue
    journey := Function.update s.journey id (s.journey id).tail
    hands := Function.update s.hands party
      (s.hands party ++ [(msg, (s.journey id).headD 0)]) }

def System.give (s : System) (party : Party) (held : Held) (id : QueueId) (queue : Queue RingIds) :
    System :=
  { s with
    queues := Function.update s.queues id queue
    journey := Function.update s.journey id (s.journey id ++ [held.2])
    hands := Function.update s.hands party ((s.hands party).erase held) }

/-- A peer passes a message on with `rpcmsg_forward` or `rpcmsg_reply`. It keeps the
message if the queue refuses it. -/
def System.pass (s : System) (peer : Peer) (held : Held) (id : QueueId)
    (result : Except Fault (Queue RingIds × Int)) : Except Fault (System × Int) := do
  let (queue, code) ← result
  if code = 0 then return (s.give (.peer peer) held id queue, code)
  else return ({ s with queues := Function.update s.queues id queue }, code)

def System.request (v : CasVariant) (s : System) (mr0 mr1 mr2 mr3 : BitVec 64) :
    Except Fault (System × Int) := do
  let r ← rpcmsgRequest v (s.queues .drvrpcReq) s.buffer s.bufferState mr0 mr1 mr2 mr3
  if r.code < 0 then return (s.store r, r.code) else return (s.issue r, r.code)

def System.receive (v : CasVariant) (s : System) (id : QueueId) (party : Party) :
    Except Fault (System × Option Held) := do
  let (queue, msg) ← rpcmsgReceive v (s.queues id)
  match msg with
  | none => return ({ s with queues := Function.update s.queues id queue }, none)
  | some msg => return (s.take id party queue msg, some (msg, (s.journey id).headD 0))

def System.forward (v : CasVariant) (s : System) (peer : Peer) (held : Held) : Except Fault (System × Int) :=
  s.pass peer held .drvrpcReqDev (rpcmsgForward v (s.queues .drvrpcReqDev) held.1)

def System.reply (v : CasVariant) (s : System) (peer : Peer) (held : Held) : Except Fault (System × Int) :=
  s.pass peer held .drvrpcResp (rpcmsgReply v (s.queues .drvrpcResp) held.1)

def System.write (s : System) (held : Held) (words : Msg) : System :=
  { s with buffer := Function.update s.buffer held.1 words }

def System.receiveResponse (v : CasVariant) (s : System) :
    Except Fault (System × Option (Held × BitVec 16)) := do
  let (queue, answer) ← rpcmsgReceiveResponse v (s.queues .drvrpcResp)
  match answer with
  | none => return ({ s with queues := Function.update s.queues .drvrpcResp queue }, none)
  | some (msg, id) => return (s.take .drvrpcResp .driver queue msg,
      some ((msg, (s.journey .drvrpcResp).headD 0), id))

def System.reclaim (s : System) (held : Held) : System :=
  { s with
    bufferState := rpcmsgReclaimBuffer s.bufferState held.1
    hands := Function.update s.hands .driver ((s.hands .driver).erase held) }

def System.perform (v : CasVariant) (s : System) : Operation → Except Fault (System × Outcome)
  | .request mr0 mr1 mr2 mr3 => do
      let (s, code) ← s.request v mr0 mr1 mr2 mr3
      return (s, .code code)
  | .receive peer => do
      let (s, held) ← s.receive v peer.request (.peer peer)
      return (s, .received (held.map Prod.fst))
  | .forward peer held => do
      let (s, code) ← s.forward v peer held
      return (s, .code code)
  | .reply peer held => do
      let (s, code) ← s.reply v peer held
      return (s, .code code)
  | .write _ held words => return (s.write held words, .done)
  | .receiveResponse => do
      let (s, answer) ← s.receiveResponse v
      return (s, .response (answer.map fun (held, id) => (held.1, id, held.2)))
  | .reclaim held => return (s.reclaim held, .done)

/-- The driver requests only while a buffer is free; a message is passed on, written
or reclaimed only by a party that received it and still has it. -/
def Disciplined (s : System) : Operation → Prop
  | .request _ _ _ _ => ∃ msg, s.bufferState.lent msg = false
  | .receive _ | .receiveResponse => True
  | .forward peer held | .reply peer held => held ∈ s.hands (.peer peer)
  | .write party held _ => held ∈ s.hands party
  | .reclaim held => held ∈ s.hands .driver

instance (s : System) : (op : Operation) → Decidable (Disciplined s op)
  | .request _ _ _ _ => inferInstanceAs (Decidable (∃ _ : Fin bufferSize, _))
  | .receive _ | .receiveResponse => .isTrue trivial
  | .forward _ _ | .reply _ _ | .write _ _ _ | .reclaim _ => inferInstanceAs (Decidable (_ ∈ _))

def System.step (v : CasVariant) (s : System) (op : Operation) : Option System :=
  match s.perform v op with
  | .ok (t, _) => some t
  | .error _ => none

abbrev System.Reachable (v : CasVariant) : System → Prop :=
  Reach (System.step v) Disciplined System.initial

section
variable {v : CasVariant} {s : System} {mr0 mr1 mr2 mr3 : BitVec 64} {r : Requested}
variable (returns : rpcmsgRequest v (s.queues .drvrpcReq) s.buffer s.bufferState mr0 mr1 mr2 mr3 = .ok r)
include returns

theorem System.request_issued (code : ¬r.code < 0) :
    s.request v mr0 mr1 mr2 mr3 = .ok (s.issue r, r.code) := by
  rw [System.request, returns]
  exact if_neg code

theorem System.request_refused (code : r.code < 0) :
    s.request v mr0 mr1 mr2 mr3 = .ok (s.store r, r.code) := by
  rw [System.request, returns]
  exact if_pos code

end

end Virtioso.Rpc
