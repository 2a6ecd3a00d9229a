import Virtioso.Ring.Predicates
import Virtioso.Rpc.Events
import Virtioso.Rpc.Requests

/-! Polling the request queue with `driver_rpc_request_pending`.

The function returns what `rpcmsg_queue_empty` says, so that it is nonzero exactly when
nothing is pending.
-/

set_option autoImplicit false

namespace Virtioso.Rpc

open Foundation Virtioso.Ring

/-- `driver_rpc_request_pending`, for the request queue of the rpc. -/
def driverRpcRequestPending (request : Queue RingIds) : Int := if rpcmsgQueueEmpty request then 1 else 0

/-- A call on the request queue. Buffers and their state are those at the time of the call. -/
inductive RequestCall where
  | request (buffer : Buffer) (state : BufferState) (words : Msg)
  | receive

/-- The queue after a complete call of `rpcmsg_request` or `rpcmsg_receive`. -/
def requestStep (v : CasVariant) (rpc : Queue RingIds) : RequestCall → Option (Queue RingIds)
  | .request buffer state words =>
      (rpcmsgRequest v rpc buffer state words.mr0 words.mr1 words.mr2 words.mr3).toOption.map Requested.queue
  | .receive => (rpcmsgReceive v rpc).toOption.map Prod.fst

abbrev RequestQueue (v : CasVariant) : Queue RingIds → Prop :=
  Reach (requestStep v) anyStep (rpcmsgQueueInit fun _ => 0#16)

def Truthful (v : CasVariant) (rpc : Queue RingIds) : Prop :=
  driverRpcRequestPending rpc ≠ 0 ↔ ∃ next msg, rpcmsgReceive v rpc = .ok (next, some msg)

variable {v : CasVariant} {rpc next : Queue RingIds}

theorem enqueue_called {msg : MsgPtr} {code : Int} (returns : rpcmsgRpcEnqueue v rpc msg = .ok (next, code)) :
    callStep v rpcElement rpc (.enqueue msg) = some next := by
  unfold rpcmsgRpcEnqueue at returns
  unfold callStep
  split at returns
  · cases returns
  · next refused =>
    cases returns
    rw [refused]
    rfl
  · next enqueued =>
    cases returns
    rw [enqueued]
    rfl

theorem receive_called {msg : Option MsgPtr} (returns : rpcmsgReceive v rpc = .ok (next, msg)) :
    callStep v rpcElement rpc .dequeue = some next := by
  unfold rpcmsgReceive at returns
  unfold callStep
  split at returns
  · cases returns
  · next dequeued =>
    cases returns
    rw [dequeued]
    rfl
  · next refused =>
    cases returns
    rw [refused]
    rfl

theorem request_called {buffer : Buffer} {state : BufferState} {mr0 mr1 mr2 mr3 : BitVec 64} {done : Requested}
    (returns : rpcmsgRequest v rpc buffer state mr0 mr1 mr2 mr3 = .ok done) :
    ∃ msg, callStep v rpcElement rpc (.enqueue msg) = some done.queue := by
  unfold rpcmsgRequest at returns
  split at returns
  · cases returns
  · next msg _ =>
    refine ⟨msg, ?_⟩
    cases enqueued : rpcmsgRpcEnqueue v rpc msg with
    | error fault =>
      rw [enqueued] at returns
      cases returns
    | ok result =>
      obtain ⟨next, full⟩ := result
      rw [enqueued] at returns
      simp only [bind, Except.bind] at returns
      -- the buffer is reclaimed from a full queue, and the queue is the same
      split at returns
      · cases returns
        exact enqueue_called enqueued
      · cases returns
        exact enqueue_called enqueued

theorem requestStep_called {call : RequestCall} (edge : requestStep v rpc call = some next) :
    ∃ call, callStep v rpcElement rpc call = some next := by
  cases call with
  | request buffer state words =>
    obtain ⟨done, returns, rfl⟩ := of_toOption_map edge
    obtain ⟨msg, called⟩ := request_called returns
    exact ⟨.enqueue msg, called⟩
  | receive =>
    obtain ⟨⟨after, msg⟩, returns, rfl⟩ := of_toOption_map edge
    exact ⟨.dequeue, receive_called returns⟩

theorem requestQueue_holding (reached : RequestQueue v rpc) : ∃ contents, Holding rpcElement rpc contents := by
  induction reached with
  | start => exact ⟨[], holding_init rpcElement _⟩
  | next _ _ edge ih =>
    obtain ⟨contents, holding⟩ := ih
    obtain ⟨call, called⟩ := requestStep_called edge
    exact holding.call called

theorem untruthful {contents : List MsgPtr} (holding : Holding rpcElement rpc contents) : ¬Truthful v rpc := by
  intro truthful
  cases contents with
  | nil =>
    -- nothing is queued, and the function answers 1
    have empty : rpcmsgQueueEmpty rpc = true := holding.empty_iff.mpr rfl
    obtain ⟨next, msg, received⟩ := truthful.mp (by simp [driverRpcRequestPending, empty])
    rw [rpc_receive_empty holding] at received
    cases received
  | cons oldest rest =>
    -- a message is queued, and the function answers 0
    obtain ⟨next, received, _⟩ := rpc_receive (v := v) holding
    have some_ : ¬rpcmsgQueueEmpty rpc = true := by simp [holding.empty_iff]
    have pending := truthful.mpr ⟨next, oldest, received⟩
    simp [driverRpcRequestPending, some_] at pending

/-- The function tells the truth about no queue that requests and receptions lead to. -/
theorem request_pending_untruthful (v : CasVariant) (rpc : Queue RingIds) (reached : RequestQueue v rpc) :
    ¬Truthful v rpc := by
  obtain ⟨contents, holding⟩ := requestQueue_holding reached
  exact untruthful holding

def firstRequest : RequestCall := .request (fun _ => Msg.zero) rpcmsgBufferStateInit Msg.zero

theorem first_request_waits : ∃ rpc msg, requestStep .user (rpcmsgQueueInit fun _ => 0#16) firstRequest = some rpc ∧
    Holding rpcElement rpc [msg] := by
  have free : rpcmsgBufferStateInit.lent 0 = false := lent_init
  obtain ⟨msg, next, _, requested, holding⟩ := request_succeeds (v := .user)
    (holding_init rpcElement fun _ => 0#16) (by decide) free (fun _ => Msg.zero)
    Msg.zero.mr0 Msg.zero.mr1 Msg.zero.mr2 Msg.zero.mr3
  refine ⟨next, msg, ?_, holding⟩
  rw [firstRequest, requestStep, requested]
  rfl

theorem request_pending_untruthful_one :
    ∃ rpc msg, requestStep .user (rpcmsgQueueInit fun _ => 0#16) firstRequest = some rpc ∧
      Holding rpcElement rpc [msg] ∧ ¬Truthful .user rpc := by
  obtain ⟨rpc, msg, step, holding⟩ := first_request_waits
  exact ⟨rpc, msg, step, holding, request_pending_untruthful .user rpc (.next .start trivial step)⟩

/-- One request waits in the queue, and the function answers that none is pending. -/
theorem request_pending_skips : ¬∀ v rpc, RequestQueue v rpc → Truthful v rpc := by
  intro truthful
  obtain ⟨rpc, msg, step, holding⟩ := first_request_waits
  exact untruthful holding (truthful .user rpc (.next .start trivial step))

end Virtioso.Rpc
