import Virtioso.Ring.Recounting
import Virtioso.Rpc.Conservation

/-! A system whose queues count from other numbers.

The operations of the parties commute with a shift of the counts, bound by bound. So a
queue whose positions are at rest behaves as one that was initialised empty, whatever
its counts are.
-/

set_option autoImplicit false

namespace Virtioso.Rpc

open Foundation Virtioso.Ring

/-- The counts of every queue, off by a constant for each of its bounds. -/
def System.recount (s : System) (k : QueueId → Side → BitVec 32) : System :=
  { s with queues := fun id => (s.queues id).recount (k id) }

section Queues
variable (v : CasVariant) (rpc : Queue RingIds) (k : Side → BitVec 32) (msg : MsgPtr)

theorem enqueue_recount : rpcmsgRpcEnqueue v (rpc.recount k) msg =
    (rpcmsgRpcEnqueue v rpc msg).map fun (next, code) => (next.recount k, code) := by
  unfold rpcmsgRpcEnqueue
  rw [complete_recount]
  cases complete v rpcElement rpc (.enqueue msg) with
  | none => rfl
  | some ended => obtain ⟨next, _ | _ | _⟩ := ended <;> rfl

theorem receive_recount : rpcmsgReceive v (rpc.recount k) =
    (rpcmsgReceive v rpc).map fun (next, msg) => (next.recount k, msg) := by
  unfold rpcmsgReceive
  rw [complete_recount]
  cases complete v rpcElement rpc .dequeue with
  | none => rfl
  | some ended => obtain ⟨next, _ | _ | _⟩ := ended <;> rfl

theorem request_recount (buffer : Buffer) (state : BufferState) (mr0 mr1 mr2 mr3 : BitVec 64) :
    rpcmsgRequest v (rpc.recount k) buffer state mr0 mr1 mr2 mr3 =
      (rpcmsgRequest v rpc buffer state mr0 mr1 mr2 mr3).map fun r => { r with queue := r.queue.recount k } := by
  unfold rpcmsgRequest
  cases rpcmsgLendBuffer state with
  | none => rfl
  | some lent =>
    obtain ⟨state, msg⟩ := lent
    simp only [enqueue_recount]
    cases rpcmsgRpcEnqueue v rpc msg with
    | error fault => rfl
    | ok ended =>
      obtain ⟨next, full⟩ := ended
      by_cases done : full = 0
      · simp [Except.map, bind, Except.bind, pure, Except.pure, done]
      · simp [Except.map, bind, Except.bind, pure, Except.pure, done]

end Queues

section Operations
variable (v : CasVariant) (s : System) (k : QueueId → Side → BitVec 32)

theorem update_recount (id : QueueId) (queue : Queue RingIds) :
    Function.update (s.recount k).queues id (queue.recount (k id)) =
      fun other => (Function.update s.queues id queue other).recount (k other) :=
  funext fun other => (Function.apply_update (fun id q => Queue.recount q (k id)) s.queues id queue other).symm

theorem take_recount (id : QueueId) (party : Party) (queue : Queue RingIds) (msg : MsgPtr) :
    (s.recount k).take id party (queue.recount (k id)) msg = (s.take id party queue msg).recount k := by
  simp only [System.take, update_recount]
  rfl

theorem give_recount (party : Party) (held : Held) (id : QueueId) (queue : Queue RingIds) :
    (s.recount k).give party held id (queue.recount (k id)) = (s.give party held id queue).recount k := by
  simp only [System.give, update_recount]
  rfl

theorem store_recount (r : Requested) :
    (s.recount k).store { r with queue := r.queue.recount (k .drvrpcReq) } = (s.store r).recount k := by
  simp only [System.store, update_recount]
  rfl

theorem pass_recount (peer : Peer) (held : Held) (id : QueueId) :
    (s.recount k).pass peer held id (rpcmsgRpcEnqueue v ((s.recount k).queues id) held.1) =
      (s.pass peer held id (rpcmsgRpcEnqueue v (s.queues id) held.1)).map fun (t, code) => (t.recount k, code) := by
  have queue : (s.recount k).queues id = (s.queues id).recount (k id) := rfl
  rw [queue, enqueue_recount]
  cases rpcmsgRpcEnqueue v (s.queues id) held.1 with
  | error fault => rfl
  | ok ended =>
    obtain ⟨next, code⟩ := ended
    by_cases full : code = 0
    · simp [System.pass, Except.map, bind, Except.bind, pure, Except.pure, full, give_recount]
    · simp only [System.pass, Except.map, bind, Except.bind, pure, Except.pure, full, update_recount]
      rfl

theorem receive_recounted (id : QueueId) (party : Party) :
    (s.recount k).receive v id party = (s.receive v id party).map fun (t, held) => (t.recount k, held) := by
  have queue : (s.recount k).queues id = (s.queues id).recount (k id) := rfl
  rw [System.receive, queue, receive_recount, System.receive]
  cases rpcmsgReceive v (s.queues id) with
  | error fault => rfl
  | ok ended =>
    obtain ⟨next, msg⟩ := ended
    cases msg with
    | none =>
      simp only [Except.map, bind, Except.bind, pure, Except.pure, update_recount]
      rfl
    | some msg =>
      simp only [Except.map, bind, Except.bind, pure, Except.pure, take_recount]
      rfl

theorem receiveResponse_recounted : (s.recount k).receiveResponse v =
    (s.receiveResponse v).map fun (t, answer) => (t.recount k, answer) := by
  have queue : (s.recount k).queues .drvrpcResp = (s.queues .drvrpcResp).recount (k .drvrpcResp) := rfl
  rw [System.receiveResponse, rpcmsgReceiveResponse, queue, receive_recount, System.receiveResponse,
    rpcmsgReceiveResponse]
  cases rpcmsgReceive v (s.queues .drvrpcResp) with
  | error fault => rfl
  | ok ended =>
    obtain ⟨next, msg⟩ := ended
    cases msg with
    | none =>
      simp only [Except.map, bind, Except.bind, pure, Except.pure, Option.map_none, update_recount]
      rfl
    | some msg =>
      simp only [Except.map, bind, Except.bind, pure, Except.pure, Option.map_some, take_recount]
      rfl

theorem issue_recount (r : Requested) :
    (s.recount k).issue { r with queue := r.queue.recount (k .drvrpcReq) } = (s.issue r).recount k := by
  simp only [System.issue, store_recount]
  rfl

theorem request_recounted (mr0 mr1 mr2 mr3 : BitVec 64) : (s.recount k).request v mr0 mr1 mr2 mr3 =
    (s.request v mr0 mr1 mr2 mr3).map fun (t, code) => (t.recount k, code) := by
  have queue : (s.recount k).queues .drvrpcReq = (s.queues .drvrpcReq).recount (k .drvrpcReq) := rfl
  rw [System.request, queue, System.recount, request_recount, System.request]
  cases rpcmsgRequest v (s.queues .drvrpcReq) s.buffer s.bufferState mr0 mr1 mr2 mr3 with
  | error fault => rfl
  | ok r =>
    by_cases failed : r.code < 0
    · simp only [Except.map, bind, Except.bind, pure, Except.pure, if_pos failed]
      exact congrArg (fun t => Except.ok (t, r.code)) (store_recount s k r)
    · simp only [Except.map, bind, Except.bind, pure, Except.pure, if_neg failed]
      exact congrArg (fun t => Except.ok (t, r.code)) (issue_recount s k r)

/-- The operations do not look at the counts of other calls, and return the same. -/
theorem perform_recount (op : Operation) : (s.recount k).perform v op =
    (s.perform v op).map fun (t, out) => (t.recount k, out) := by
  cases op with
  | request mr0 mr1 mr2 mr3 =>
    rw [System.perform, request_recounted, System.perform]
    cases s.request v mr0 mr1 mr2 mr3 <;> rfl
  | receive peer =>
    rw [System.perform, receive_recounted, System.perform]
    cases s.receive v peer.request (.peer peer) <;> rfl
  | forward peer held =>
    rw [System.perform, System.forward, rpcmsgForward, pass_recount, System.perform, System.forward, rpcmsgForward]
    cases s.pass peer held .drvrpcReqDev _ <;> rfl
  | reply peer held =>
    rw [System.perform, System.reply, rpcmsgReply, pass_recount, System.perform, System.reply, rpcmsgReply]
    cases s.pass peer held .drvrpcResp _ <;> rfl
  | receiveResponse =>
    rw [System.perform, receiveResponse_recounted, System.perform]
    cases s.receiveResponse v <;> rfl
  | write party held words => rfl
  | reclaim held => rfl

theorem step_recount (op : Operation) : (s.recount k).step v op = (s.step v op).map fun t => t.recount k := by
  rw [System.step, perform_recount, System.step]
  cases s.perform v op <;> rfl

variable {s k}

theorem disciplined_recount {op : Operation} : Disciplined (s.recount k) op ↔ Disciplined s op := by
  cases op <;> rfl

theorem answers_recount {op : Operation} {out : Outcome} : Answers (s.recount k) op out ↔ Answers s op out := by
  cases op <;> cases out <;> rfl

end Operations

/-- What the counts of a bound are off by when they should agree with its positions. -/
def System.offset (s : System) (id : QueueId) (side : Side) : BitVec 32 :=
  ((s.queues id).bound side).head.pos - ((s.queues id).bound side).head.count

/-- An empty queue whose markers are at rest holds nothing, but for its counts. -/
theorem holding_recount {rpc : Queue RingIds} (empty : queuedIds rpc = [])
    (atRest : ∀ side, (rpc.bound side).tail = (rpc.bound side).head) :
    Holding rpcElement (rpc.recount fun side => (rpc.bound side).head.pos - (rpc.bound side).head.count) [] := by
  have heads : rpc.prod.head.pos = rpc.cons.head.pos := by
    rw [queuedIds, List.map_eq_nil_iff, List.range_eq_nil] at empty
    bv_omega
  have settled (side : Side) (same : (rpc.bound side).head.pos = rpc.cons.head.pos) :
      (rpc.bound side).recount ((rpc.bound side).head.pos - (rpc.bound side).head.count) =
        ⟨stored rpc.cons.head.pos.toNat rpc.cons.head.pos.toNat,
          stored rpc.cons.head.pos.toNat rpc.cons.head.pos.toNat⟩ := by
    have count : (rpc.bound side).head.count + (rpc.cons.head.pos - (rpc.bound side).head.count) =
        rpc.cons.head.pos := by bv_omega
    simp only [QueueBound.recount, Marker.recount, atRest side, same, stored, BitVec.ofNat_toNat,
      BitVec.setWidth_eq, count]
  refine ⟨rpc.cons.head.pos.toNat, ?_, ?_, Nat.zero_le _, by simp⟩
  · rw [recount_bound]
    exact settled .prod heads
  · rw [recount_bound]
    exact settled .cons rfl

end Virtioso.Rpc
