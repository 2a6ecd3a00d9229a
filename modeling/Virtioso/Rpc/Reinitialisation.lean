import Virtioso.Rpc.Events
import Virtioso.Rpc.Recounting

/-! The second life of an iobuf: `vso_driver_rpc_init` on memory that was in use.

The driver's init clears the message table and two of the three queues of its rpc.
The queue of forwarded requests and the private buffer state keep what an earlier
run left in them.
-/

set_option autoImplicit false

namespace Virtioso.Rpc

open Foundation Virtioso.Ring

/-- `rpcmsg_iobuf_id_t`. -/
inductive IobufId where
  | drvrpc
  | devevt
  deriving DecidableEq, Repr

/-- `rpcmsg_queue_id_t`: the queues of the driver rpc, and the one of device events. -/
inductive IobufQueueId where
  | drvrpc (id : QueueId)
  | devevt
  deriving DecidableEq, Repr

/-- `rpcmsg_iobuf_t`. -/
structure Iobuf where
  buffers : IobufId → Buffer
  queues : IobufQueueId → Queue RingIds

/-- `rpcmsg_rpc_queue_t`: its two pointers point into the iobuf. -/
structure RpcQueue where
  buffer : IobufId
  queue : IobufQueueId
  deriving DecidableEq, Repr

/-- `vso_driver_rpc_t`. -/
structure DriverRpc where
  request : RpcQueue
  response : RpcQueue
  bufferState : BufferState

/-- `vso_rpc_id_t`; C admits other values of the enumeration. -/
inductive RpcId where
  | driver
  | deviceKm
  | device
  | other (value : BitVec 32)
  deriving DecidableEq, Repr

/-- `rpcmsg_buffer_init` on a message table of the iobuf. -/
def Iobuf.bufferInit (io : Iobuf) (id : IobufId) : Iobuf :=
  { io with buffers := Function.update io.buffers id fun _ => Msg.zero }

/-- `rpcmsg_queue_init` on a queue of the iobuf. -/
def Iobuf.queueInit (io : Iobuf) (id : IobufQueueId) : Iobuf :=
  { io with queues := Function.update io.queues id (rpcmsgQueueInit fun _ => 0#16) }

def rpcmsgFInitBuffer : BitVec 32 := 1#32
def rpcmsgFInitQueue : BitVec 32 := 2#32
def rpcmsgFInitAll : BitVec 32 := ~~~0#32

/-- `_rpcmsg_queue_init`. -/
def rpcmsgQueueInitFlags (io : Iobuf) (ptr : RpcQueue) (flags : BitVec 32) : Iobuf :=
  let io := if flags &&& rpcmsgFInitBuffer ≠ 0#32 then io.bufferInit ptr.buffer else io
  if flags &&& rpcmsgFInitQueue ≠ 0#32 then io.queueInit ptr.queue else io

def rpcmsgCallQueueInit (io : Iobuf) (ptr : RpcQueue) : Iobuf :=
  rpcmsgQueueInitFlags io ptr rpcmsgFInitAll

def rpcmsgReplyQueueInit (io : Iobuf) (ptr : RpcQueue) : Iobuf :=
  rpcmsgQueueInitFlags io ptr rpcmsgFInitQueue

def driverDrvrpcReq : RpcQueue := ⟨.drvrpc, .drvrpc .drvrpcReq⟩
def driverDrvrpcResp : RpcQueue := ⟨.drvrpc, .drvrpc .drvrpcResp⟩
def deviceKmDrvrpcReq : RpcQueue := ⟨.drvrpc, .drvrpc .drvrpcReq⟩
def deviceKmDrvrpcResp : RpcQueue := ⟨.drvrpc, .drvrpc .drvrpcResp⟩
def deviceDrvrpcReq : RpcQueue := ⟨.drvrpc, .drvrpc .drvrpcReqDev⟩
def deviceDrvrpcResp : RpcQueue := ⟨.drvrpc, .drvrpc .drvrpcResp⟩

structure Initialised where
  iobuf : Iobuf
  rpc : DriverRpc
  code : Int

/-- `vso_driver_rpc_init`. -/
def vsoDriverRpcInit (id : RpcId) (iobuf : Iobuf) (drvrpc : DriverRpc) : Initialised :=
  match id with
  | .driver =>
      let drvrpc := { drvrpc with request := driverDrvrpcReq, response := driverDrvrpcResp }
      let iobuf := rpcmsgCallQueueInit iobuf drvrpc.request
      let iobuf := rpcmsgReplyQueueInit iobuf drvrpc.response
      ⟨iobuf.bufferInit drvrpc.request.buffer, drvrpc, 0⟩
  | .deviceKm => ⟨iobuf, { drvrpc with request := deviceKmDrvrpcReq, response := deviceKmDrvrpcResp }, 0⟩
  | .device => ⟨iobuf, { drvrpc with request := deviceDrvrpcReq, response := deviceDrvrpcResp }, 0⟩
  | .other _ => ⟨iobuf, drvrpc, -1⟩

/-- The parties' view of an rpc that nobody has used since its initialisation: no message
is in hand, and requests are numbered from here. -/
def Initialised.system (done : Initialised) : System where
  buffer := done.iobuf.buffers .drvrpc
  queues id := done.iobuf.queues (.drvrpc id)
  bufferState := done.rpc.bufferState
  hands _ := []
  journey _ := []
  issued := []

/-- The iobuf that a run works on; the device events take no part in it. -/
def System.iobuf (s : System) : Iobuf where
  buffers
    | .drvrpc => s.buffer
    | .devevt => fun _ => Msg.zero
  queues
    | .drvrpc id => s.queues id
    | .devevt => rpcmsgQueueInit fun _ => 0#16

def System.drvrpc (s : System) : DriverRpc := ⟨driverDrvrpcReq, driverDrvrpcResp, s.bufferState⟩

def Operation.ask (words : Msg) : Operation := .request words.mr0 words.mr1 words.mr2 words.mr3

/-- Every message is free, or lent and in one place; what is lent has been requested, and
the queues hold nothing else. -/
structure AllRequested (s : System) : Prop where
  once : ∀ msg, InOnePlace s msg
  requested : ∀ msg, s.bufferState.lent msg = true → (msg.val : Int) ∈ s.issued
  messages : ∀ id, ∀ x ∈ queuedIds (s.queues id), ∃ msg, x = rpcmsgMsgToId msg

/-- No message is met that was not requested, and every operation returns what it should. -/
def Serves (v : CasVariant) (s : System) : Prop :=
  AllRequested s ∧ ∀ op, Disciplined s op → ∃ t out, s.perform v op = .ok (t, out) ∧ Answers s op out

/-- The initial state of the protocol, and what it is good for. -/
structure Restored (v : CasVariant) (done : Initialised) : Prop where
  free : ∀ msg, done.rpc.bufferState.lent msg = false
  empty : ∀ id, queuedIds (done.iobuf.queues (.drvrpc id)) = []
  /-- 32 requests succeed one after the other, and then all buffers are lent -/
  capacity : ∀ requests : List Msg, requests.length = bufferSize →
    ∃ s, execute (System.step v) done.system (requests.map .ask) = some s ∧
      s.issued.length = bufferSize ∧ ∀ msg, s.bufferState.lent msg = true
  /-- and so it goes on, whatever the parties do: only messages of this run are met -/
  serves : ∀ s, Reach (System.step v) Disciplined done.system s → Serves v s

/-- The earlier run has its buffers back, no forwarded request is left, and no operation on
the queue of forwarded requests was cut off. -/
structure Drained (iobuf : Iobuf) (drvrpc : DriverRpc) : Prop where
  free : ∀ msg, drvrpc.bufferState.lent msg = false
  empty : queuedIds (iobuf.queues (.drvrpc .drvrpcReqDev)) = []
  atRest : ∀ side, ((iobuf.queues (.drvrpc .drvrpcReqDev)).bound side).tail =
    ((iobuf.queues (.drvrpc .drvrpcReqDev)).bound side).head

variable {v : CasVariant} {iobuf : Iobuf} {drvrpc : DriverRpc} {s : System}

theorem init_queues (id : QueueId) :
    (vsoDriverRpcInit .driver iobuf drvrpc).iobuf.queues (.drvrpc id) =
      if id = .drvrpcReqDev then iobuf.queues (.drvrpc .drvrpcReqDev)
      else rpcmsgQueueInit fun _ => 0#16 := by
  cases id <;> rfl

theorem init_bufferState :
    (vsoDriverRpcInit .driver iobuf drvrpc).rpc.bufferState = drvrpc.bufferState := rfl

/-! ### Requests in a row -/

def BufferState.lentSet (state : BufferState) : Finset MsgPtr := {msg | state.lent msg = true}

theorem mem_lentSet {state : BufferState} {msg : MsgPtr} :
    msg ∈ state.lentSet ↔ state.lent msg = true := by
  simp [BufferState.lentSet]

theorem lentSet_setBit (state : BufferState) (msg : MsgPtr) :
    (state.setBit msg.val).lentSet = insert msg state.lentSet := by
  ext other
  rw [mem_lentSet, lent_setBit, Finset.mem_insert, mem_lentSet, Bool.or_eq_true, decide_eq_true_eq]

/-- One more request, while every lent buffer is in the request queue and one is free. -/
theorem ask_succeeds (v : CasVariant) {contents : List MsgPtr}
    (holding : Holding rpcElement (s.queues .drvrpcReq) contents)
    (lent : s.bufferState.lentSet.card = contents.length) (room : contents.length < bufferSize)
    (words : Msg) :
    ∃ t lending, s.step v (.ask words) = some t ∧
      Holding rpcElement (t.queues .drvrpcReq) (contents ++ [lending]) ∧
      t.bufferState.lentSet.card = (contents ++ [lending]).length ∧
      t.issued.length = s.issued.length + 1 := by
  -- fewer buffers are lent than there are
  obtain ⟨msg, free⟩ : ∃ msg, s.bufferState.lent msg = false := by
    by_contra none
    have all : s.bufferState.lentSet = Finset.univ := by
      ext msg
      simpa [mem_lentSet] using fun clear => none ⟨msg, clear⟩
    rw [all, Finset.card_univ, Fintype.card_fin] at lent
    omega
  obtain ⟨lending, next, clear, returns, keeps⟩ :=
    request_succeeds (v := v) holding room free s.buffer words.mr0 words.mr1 words.mr2 words.mr3
  have code : ¬(((rpcmsgMsgToId lending).toNat : Int) < 0) := by omega
  refine ⟨s.issue ⟨next, Function.update s.buffer lending words, s.bufferState.setBit lending.val,
    (rpcmsgMsgToId lending).toNat⟩, lending, ?_, ?_, ?_, ?_⟩
  · rw [System.step, Operation.ask, System.perform, System.request_issued returns code]
    rfl
  · simpa [System.issue, System.store] using keeps
  · have unlent : lending ∉ s.bufferState.lentSet := by simp [mem_lentSet, clear]
    simp only [System.issue, System.store, lentSet_setBit, Finset.card_insert_of_notMem unlent, lent,
      List.length_append, List.length_singleton]
  · simp [System.issue]

theorem ask_all (v : CasVariant) (requests : List Msg) {contents : List MsgPtr}
    (holding : Holding rpcElement (s.queues .drvrpcReq) contents)
    (lent : s.bufferState.lentSet.card = contents.length)
    (room : contents.length + requests.length ≤ bufferSize) :
    ∃ t, execute (System.step v) s (requests.map .ask) = some t ∧
      t.issued.length = s.issued.length + requests.length ∧
      t.bufferState.lentSet.card = contents.length + requests.length := by
  induction requests generalizing s contents with
  | nil => exact ⟨s, rfl, rfl, lent⟩
  | cons words rest ih =>
    rw [List.length_cons] at room
    obtain ⟨next, lending, edge, holds, more, issued⟩ := ask_succeeds v holding lent (by omega) words
    have length : (contents ++ [lending]).length = contents.length + 1 := by simp
    obtain ⟨t, ran, numbered, total⟩ := ih holds more (by omega)
    refine ⟨t, ?_, ?_, ?_⟩
    · simp only [List.map_cons, execute, edge, Option.bind_some]
      exact ran
    · rw [numbered, issued, List.length_cons]
      omega
    · rw [total, length, List.length_cons]
      omega

/-! ### Runs after the initialisation -/

theorem Inv.all_requested {at_ : MsgPtr → Option (Place × Nat)} {stock : Place → List Held}
    (inv : Inv (fun _ => False) s at_ stock) : AllRequested s where
  once := inv.in_one_place
  requested msg lent := by
    have located := (inv.lent msg).mp lent
    rw [or_false, Option.ne_none_iff_exists'] at located
    obtain ⟨⟨p, n⟩, here⟩ := located
    exact List.mem_of_getElem? (inv.issued msg p n here)
  messages id x queued := by
    rw [queuedIds_of_holding (inv.holding id)] at queued
    obtain ⟨msg, -, rfl⟩ := List.mem_map.mp queued
    exact ⟨msg, rfl⟩

/-- Empty queues at rest and no buffer lent are all that conservation needs to begin with. -/
theorem conserving_system {done : Initialised} (free : ∀ msg, done.rpc.bufferState.lent msg = false)
    (empty : ∀ id, queuedIds (done.iobuf.queues (.drvrpc id)) = [])
    (atRest : ∀ id side, ((done.iobuf.queues (.drvrpc id)).bound side).tail =
      ((done.iobuf.queues (.drvrpc id)).bound side).head) :
    Conserving (fun _ => False) (done.system.recount done.system.offset) :=
  ⟨fun _ => none, fun _ => [], occupied_empty, fun _ => rfl, fun id => holding_recount (empty id) (atRest id),
    fun _ => rfl, fun msg => by simp [Initialised.system, System.recount, free msg], fun _ no => no.elim,
    fun _ _ _ found => by cases found⟩

/-- From a state that conserves the messages but for its counts, every run does. -/
theorem serves_of_recount {start : System} {k : QueueId → Side → BitVec 32}
    (conserving : Conserving (fun _ => False) (start.recount k)) (reached : Reach (System.step v) Disciplined start s) :
    Serves v s := by
  have kept : Conserving (fun _ => False) (s.recount k) := by
    refine reached.invariant (P := fun s => Conserving (fun _ => False) (s.recount k)) conserving
      fun s op t conserves disciplined edge => ?_
    refine conserves.step (v := v) (disciplined_recount.mpr disciplined) ?_
    rw [step_recount, edge]
    rfl
  obtain ⟨at_, stock, inv⟩ := kept
  have all := inv.all_requested
  refine ⟨⟨all.once, all.requested, all.messages⟩, fun op disciplined => ?_⟩
  obtain ⟨next, out, returns, answers, -⟩ := inv.perform (v := v) (disciplined_recount.mpr disciplined)
  rw [perform_recount] at returns
  cases result : s.perform v op with
  | error fault =>
    rw [result] at returns
    cases returns
  | ok ended =>
    rw [result] at returns
    obtain ⟨t, value⟩ := ended
    cases returns
    exact ⟨t, out, rfl, answers_recount.mp answers⟩

theorem zeroed_holding : Holding rpcElement (rpcmsgQueueInit fun _ => 0#16) [] :=
  holding_init rpcElement _

theorem capacity_of_free (v : CasVariant) (free : ∀ msg, drvrpc.bufferState.lent msg = false)
    {requests : List Msg} (all : requests.length = bufferSize) :
    ∃ s, execute (System.step v) (vsoDriverRpcInit .driver iobuf drvrpc).system (requests.map .ask) = some s ∧
      s.issued.length = bufferSize ∧ ∀ msg, s.bufferState.lent msg = true := by
  have none : (vsoDriverRpcInit .driver iobuf drvrpc).system.bufferState.lentSet.card = 0 := by
    rw [Finset.card_eq_zero]
    ext msg
    simp [mem_lentSet, Initialised.system, init_bufferState, free msg]
  have start : Holding rpcElement ((vsoDriverRpcInit .driver iobuf drvrpc).system.queues .drvrpcReq) [] :=
    zeroed_holding
  obtain ⟨t, ran, issued, total⟩ := ask_all v requests start none (by simp [all])
  rw [List.length_nil, Nat.zero_add, all] at total
  refine ⟨t, ran, by simpa [Initialised.system, all] using issued, fun msg => ?_⟩
  have full : t.bufferState.lentSet = Finset.univ := by
    rw [← Finset.card_eq_iff_eq_univ, total, Fintype.card_fin]
  rw [← mem_lentSet, full]
  exact Finset.mem_univ msg

theorem Drained.queues_empty (drained : Drained iobuf drvrpc) (id : QueueId) :
    queuedIds ((vsoDriverRpcInit .driver iobuf drvrpc).iobuf.queues (.drvrpc id)) = [] := by
  rw [init_queues]
  split
  · exact drained.empty
  · exact queuedIds_of_holding zeroed_holding

theorem Drained.queues_at_rest (drained : Drained iobuf drvrpc) (id : QueueId) (side : Side) :
    (((vsoDriverRpcInit .driver iobuf drvrpc).iobuf.queues (.drvrpc id)).bound side).tail =
      (((vsoDriverRpcInit .driver iobuf drvrpc).iobuf.queues (.drvrpc id)).bound side).head := by
  rw [init_queues]
  split
  · exact drained.atRest side
  · cases side <;> rfl

theorem Drained.restored (v : CasVariant) (drained : Drained iobuf drvrpc) :
    Restored v (vsoDriverRpcInit .driver iobuf drvrpc) where
  free := drained.free
  empty := drained.queues_empty
  capacity _ all := capacity_of_free v drained.free all
  serves _ reached :=
    serves_of_recount (conserving_system drained.free drained.queues_empty drained.queues_at_rest) reached

/-! ### The one message of a probing run

After the initialisation the kernel module receives a request and forwards it, and the
device receives it. If all of this goes well the markers were at rest. -/

/-- The only message lent is `msg`, in the hands of `holder` or else in the queue of
forwarded requests. -/
structure Only (s : System) (msg : MsgPtr) (holder : Option Peer) : Prop where
  driver : s.hands .driver = []
  hands : ∀ peer, (s.hands (.peer peer)).map Prod.fst = if some peer = holder then [msg] else []
  request : queuedIds (s.queues .drvrpcReq) = []
  response : queuedIds (s.queues .drvrpcResp) = []
  lent : ∀ other, s.bufferState.lent other = true ↔ other = msg

section Probe
variable {msg : MsgPtr} {holder : Option Peer}

theorem length_queuedIds (rpc : Queue RingIds) :
    (queuedIds rpc).length = (rpc.prod.head.pos - rpc.cons.head.pos).toNat := by
  rw [queuedIds, List.length_map, List.length_range]

theorem Only.queued (only : Only s msg holder) (all : AllRequested s) :
    queuedIds (s.queues .drvrpcReqDev) = if holder = none then [rpcmsgMsgToId msg] else [] := by
  have mine (x : BitVec 16) (queued : x ∈ queuedIds (s.queues .drvrpcReqDev)) : x = rpcmsgMsgToId msg := by
    obtain ⟨other, rfl⟩ := all.messages _ x queued
    have occurs : occurrences s other ≠ 0 := by
      have counted := List.count_pos_iff.mpr queued
      unfold occurrences
      omega
    have lent := ((all.once other).resolve_left fun free => occurs free.2).1
    rw [(only.lent other).mp lent]
  have once : occurrences s msg = 1 := by
    refine ((all.once msg).resolve_left fun free => ?_).2
    rw [(only.lent msg).mpr rfl] at free
    cases free.1
  rw [occurrences, only.request, only.response, only.driver, only.hands, only.hands] at once
  rw [List.eq_replicate_of_mem mine] at once ⊢
  rw [List.count_replicate_self] at once
  rcases holder with _ | _ | _ <;> simp_all

theorem enqueue_appends {rpc next : Queue RingIds} (returns : rpcmsgRpcEnqueue v rpc msg = .ok (next, 0)) :
    next = rpc.append rpcElement msg := by
  unfold rpcmsgRpcEnqueue at returns
  split at returns
  · cases returns
  · cases returns
  · next accepted ended =>
    cases returns
    exact append_of_complete ended accepted

theorem receive_removes {rpc next : Queue RingIds} (returns : rpcmsgReceive v rpc = .ok (next, some msg)) :
    next = rpc.remove := by
  unfold rpcmsgReceive at returns
  split at returns
  · cases returns
  · next ended =>
    cases returns
    exact remove_of_complete ended
  · cases returns

theorem forward_gives {t : System} {peer : Peer} {held : Held}
    (returns : s.perform v (.forward peer held) = .ok (t, .code 0)) :
    t = s.give (.peer peer) held .drvrpcReqDev ((s.queues .drvrpcReqDev).append rpcElement held.1) := by
  rw [System.perform, System.forward, rpcmsgForward] at returns
  cases result : rpcmsgRpcEnqueue v (s.queues .drvrpcReqDev) held.1 with
  | error fault =>
    rw [result] at returns
    cases returns
  | ok ended =>
    obtain ⟨next, code⟩ := ended
    rw [result] at returns
    by_cases done : code = 0
    · subst done
      rw [enqueue_appends result] at returns
      cases returns
      rfl
    · simp only [System.pass, bind, Except.bind, pure, Except.pure, if_neg done] at returns
      cases returns
      exact absurd rfl done

theorem receive_takes {t : System} {peer : Peer} (returns : s.perform v (.receive peer) = .ok (t, .received (some msg))) :
    t = s.take peer.request (.peer peer) (s.queues peer.request).remove msg := by
  rw [System.perform, System.receive] at returns
  cases result : rpcmsgReceive v (s.queues peer.request) with
  | error fault =>
    rw [result] at returns
    cases returns
  | ok ended =>
    obtain ⟨next, found⟩ := ended
    rw [result] at returns
    cases found with
    | none => cases returns
    | some found =>
      cases returns
      rw [receive_removes result]

/-- The kernel module can receive a request that has just been made. -/
theorem first_received (v : CasVariant) (iobuf : Iobuf) (free : ∀ msg, drvrpc.bufferState.lent msg = false) :
    ∃ s msg, Reach (System.step v) Disciplined (vsoDriverRpcInit .driver iobuf drvrpc).system s ∧
      Only s msg (some .deviceKm) ∧ s.queues .drvrpcReqDev = iobuf.queues (.drvrpc .drvrpcReqDev) := by
  let start := (vsoDriverRpcInit .driver iobuf drvrpc).system
  have clear (msg : MsgPtr) : start.bufferState.lent msg = false := free msg
  obtain ⟨msg, asked, -, returns, keeps⟩ := request_succeeds (v := v) zeroed_holding (by decide) (clear 0)
    start.buffer 0#64 0#64 0#64 0#64
  obtain ⟨taken, takes, rest⟩ := rpc_receive (v := v) keeps
  let s₁ := start.issue ⟨asked, Function.update start.buffer msg ⟨0#64, 0#64, 0#64, 0#64⟩,
    start.bufferState.setBit msg.val, (rpcmsgMsgToId msg).toNat⟩
  have code : ¬(((rpcmsgMsgToId msg).toNat : Int) < 0) := by omega
  have requested : start.step v (.request 0#64 0#64 0#64 0#64) = some s₁ := by
    rw [System.step, System.perform, System.request_issued returns code]
    rfl
  have received : s₁.step v (.receive .deviceKm) =
      some (s₁.take .drvrpcReq (.peer .deviceKm) taken msg) := by
    have queue : s₁.queues .drvrpcReq = asked := by simp [s₁, System.issue, System.store]
    rw [System.step, System.perform, System.receive, Peer.request, queue, takes]
    rfl
  have mayRequest : Disciplined start (.request 0#64 0#64 0#64 0#64) := ⟨0, clear 0⟩
  have mayReceive : Disciplined s₁ (.receive .deviceKm) := trivial
  refine ⟨_, msg, .next (.next .start mayRequest requested) mayReceive received, ⟨?_, ?_, ?_, ?_, ?_⟩, ?_⟩
  · rfl
  · rintro (_ | _) <;> rfl
  · exact queuedIds_of_holding (by simpa [System.take] using rest)
  · exact queuedIds_of_holding zeroed_holding
  · intro other
    simp [System.take, s₁, System.issue, System.store, lent_setBit, clear]
  · rfl

theorem Only.forward (only : Only s msg (some .deviceKm)) (serves : Serves v s) :
    ∃ op t, Disciplined s op ∧ s.step v op = some t ∧ Only t msg none ∧
      t.queues .drvrpcReqDev = (s.queues .drvrpcReqDev).append rpcElement msg := by
  obtain ⟨held, here, rfl⟩ := List.map_eq_singleton_iff.mp (only.hands .deviceKm)
  have inHand : held ∈ s.hands (.peer .deviceKm) := by
    rw [here]
    exact List.mem_singleton_self held
  obtain ⟨t, out, returns, accepted⟩ := serves.2 (.forward .deviceKm held) inHand
  cases out with
  | received _ | response _ | done => exact accepted.elim
  | code value =>
    cases accepted
    refine ⟨.forward .deviceKm held, t, inHand, by rw [System.step, returns], ?_⟩
    cases forward_gives returns
    refine ⟨⟨only.driver, ?_, only.request, only.response, only.lent⟩, by simp [System.give]⟩
    rintro (_ | _)
    · simp [System.give, here]
    · simpa [System.give] using only.hands .device

theorem Only.receive (only : Only s msg none) (serves : Serves v s) :
    ∃ op t, Disciplined s op ∧ s.step v op = some t ∧ Only t msg (some .device) ∧
      t.queues .drvrpcReqDev = (s.queues .drvrpcReqDev).remove := by
  obtain ⟨t, out, returns, delivered⟩ := serves.2 (.receive .device) trivial
  cases out with
  | code _ | response _ | done => exact delivered.elim
  | received found =>
    simp only [Answers, Peer.request, only.queued serves.1, if_true, List.head?_cons,
      Option.map_eq_some_iff] at delivered
    obtain ⟨msg, rfl, same⟩ := delivered
    cases rpcmsgMsgToId_injective same
    refine ⟨.receive .device, t, trivial, by rw [System.step, returns], ?_⟩
    cases receive_takes returns
    refine ⟨⟨only.driver, ?_, only.request, only.response, only.lent⟩, by simp [System.take, Peer.request]⟩
    rintro (_ | _)
    · simpa [System.take] using only.hands .deviceKm
    · simpa [System.take] using only.hands .device

/-- What is appended is all there is: the tail was where the head is. -/
theorem rest_of_append {rpc : Queue RingIds} (empty : queuedIds rpc = [])
    (one : (queuedIds (rpc.append rpcElement msg)).length = 1) : rpc.prod.tail = rpc.prod.head := by
  have heads := congrArg List.length empty
  rw [length_queuedIds, List.length_nil] at heads
  rw [length_queuedIds] at one
  by_cases counts : rpc.prod.head.count = rpc.prod.tail.count
  · have head : (rpc.append rpcElement msg).prod.head.pos = rpc.prod.tail.pos + 1#32 := by
      simp [Queue.append, nextHead, nextTail, counts]
    have cons : (rpc.append rpcElement msg).cons = rpc.cons := rfl
    rw [head, cons] at one
    exact Marker.ext (by bv_omega) counts.symm
  · -- the head stays and the appended id is lost
    have head : (rpc.append rpcElement msg).prod.head.pos = rpc.prod.head.pos := by
      simp [Queue.append, nextHead, nextTail, counts]
    have cons : (rpc.append rpcElement msg).cons = rpc.cons := rfl
    rw [head, cons] at one
    omega

theorem rest_of_remove {rpc : Queue RingIds} (one : (queuedIds rpc).length = 1)
    (empty : queuedIds rpc.remove = []) : rpc.cons.tail = rpc.cons.head := by
  have heads := congrArg List.length empty
  rw [length_queuedIds, List.length_nil] at heads
  rw [length_queuedIds] at one
  have prod : rpc.remove.prod = rpc.prod := rfl
  by_cases counts : rpc.cons.head.count = rpc.cons.tail.count
  · have head : rpc.remove.cons.head.pos = rpc.cons.tail.pos + 1#32 := by
      simp [Queue.remove, nextHead, nextTail, counts]
    rw [head, prod] at heads
    exact Marker.ext (by bv_omega) counts.symm
  · -- the head stays and the removed id is still there
    have head : rpc.remove.cons.head.pos = rpc.cons.head.pos := by
      simp [Queue.remove, nextHead, nextTail, counts]
    rw [head, prod] at heads
    omega

/-- A message that passes through the queue of forwarded requests finds both bounds at rest. -/
theorem Restored.atRest (restored : Restored v (vsoDriverRpcInit .driver iobuf drvrpc)) (side : Side) :
    ((iobuf.queues (.drvrpc .drvrpcReqDev)).bound side).tail =
      ((iobuf.queues (.drvrpc .drvrpcReqDev)).bound side).head := by
  have free : ∀ msg, drvrpc.bufferState.lent msg = false := restored.free
  have empty : queuedIds (iobuf.queues (.drvrpc .drvrpcReqDev)) = [] := restored.empty .drvrpcReqDev
  obtain ⟨s, msg, reached, only, untouched⟩ := first_received v iobuf free
  obtain ⟨_, t, forward, edge, sent, appended⟩ := only.forward (restored.serves s reached)
  have forwarded := restored.serves t (reached.next forward edge)
  obtain ⟨_, u, receive, edge', got, removed⟩ := sent.receive forwarded
  have received := restored.serves u ((reached.next forward edge).next receive edge')
  have one := congrArg List.length (sent.queued forwarded.1)
  have none := got.queued received.1
  rw [if_pos rfl, appended, untouched] at one
  rw [if_neg (by simp), removed, appended, untouched] at none
  have cons (rpc : Queue RingIds) : (rpc.append rpcElement msg).cons = rpc.cons := rfl
  cases side with
  | prod => exact rest_of_append empty one
  | cons =>
    have rest := rest_of_remove one none
    rwa [cons] at rest

end Probe

/-- From whatever an earlier run left, the driver's initialisation restores the initial state
of the protocol if and only if no buffer was lent, no forwarded request was queued, and the
queue of forwarded requests was at rest. -/
theorem reinitialisation_restores_iff (v : CasVariant) (iobuf : Iobuf) (drvrpc : DriverRpc) :
    Restored v (vsoDriverRpcInit .driver iobuf drvrpc) ↔ Drained iobuf drvrpc := by
  constructor
  · intro restored
    exact ⟨restored.free, restored.empty .drvrpcReqDev, restored.atRest⟩
  · exact Drained.restored v

/-- A request on its way to the device when the driver's VM reboots. -/
def forwarded : List Operation :=
  [.request 1 2 3 4, .receive .deviceKm, .forward .deviceKm (0, 0)]

theorem forwarded_reached :
    (execute (guarded (System.step .user) Disciplined) .initial forwarded).map
        (fun s => (s.bufferState.lent 0, queuedIds (s.queues .drvrpcReqDev))) =
      some (true, [0#16]) := by decide +kernel

theorem reinitialisation_keeps_forwarded :
    ∃ s, execute (guarded (System.step .user) Disciplined) .initial forwarded = some s ∧
      queuedIds ((vsoDriverRpcInit .driver s.iobuf s.drvrpc).iobuf.queues (.drvrpc .drvrpcReqDev)) = [0#16] ∧
      ¬Restored .user (vsoDriverRpcInit .driver s.iobuf s.drvrpc) := by
  obtain ⟨s, ran, left⟩ := Option.map_eq_some_iff.mp forwarded_reached
  obtain ⟨lent, queued⟩ := Prod.mk.inj left
  refine ⟨s, ran, queued, fun restored => ?_⟩
  have free := restored.free 0
  rw [init_bufferState, System.drvrpc, lent] at free
  cases free

end Virtioso.Rpc
