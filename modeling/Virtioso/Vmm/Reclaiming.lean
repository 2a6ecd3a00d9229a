import Mathlib.Data.Finset.Card
import Virtioso.Rpc.Conservation
import Virtioso.Vmm.Reporting

/-! Which buffers `rpc_run` gives back.

A buffer is reclaimed where the loop over the responses takes its next one. The loop that a
failed response ends does not get there: that buffer stays lent.
-/

set_option autoImplicit false

namespace Virtioso.Vmm

open Foundation Virtioso.Ring Rpc Proxy

variable {W : Type}

/-- Every response that was dequeued had its bit cleared once, and no other bit was cleared. -/
structure Reclaims (proxy after : IoProxy W) (trace : List RunEvent) : Prop where
  once : ∀ msg, trace.count (.dequeued msg) = trace.count (.reclaimed msg)
  others : ∀ msg, after.rpc.bufferState.lent msg =
    (proxy.rpc.bufferState.lent msg && !decide (.dequeued msg ∈ trace))

def AnswersSucceed (callbacks : List (RpcCallback W)) (proxy : IoProxy W) : Prop :=
  ∀ responses, Holding rpcElement (proxy.rpc.queues .drvrpcResp) responses →
    ∀ next code, processUntil callbacks proxy (responses.map proxy.rpc.buffer) = .ok (next, code) → code = 0

/-! ### One call -/

section Calls
variable {v : CasVariant} {others : List (RpcCallback W)} (local_ : ∀ callback ∈ others, Local callback)
variable {proxy after : IoProxy W} {event : Msg} {rc : Int} {trace : List RunEvent}

include local_ in
theorem reclaims_iff_code {next : IoProxy W} {code : Int} {first second : List RunEvent}
    (responses : traceResponses v (handleMmio :: others) (queued (proxy.rpc.queues .drvrpcResp) + 1) proxy 0 =
      .ok (next, code, first))
    (events : traceEvents v (handleMmio :: others) (queued next.deviceEvent + 1) next event code =
      .ok (after, rc, second)) :
    Reclaims proxy after (first ++ second) ↔ code = 0 := by
  -- events are not in the rpc's buffers: the second loop dequeues and reclaims none of them
  have responded := (traceResponses_responds responses).leaves (callbacks_local local_)
  obtain ⟨kept, silent⟩ := (traceEvents_handles events).leaves (callbacks_local local_)
  have dequeued (msg : MsgPtr) : second.count (.dequeued msg) = 0 := List.count_eq_zero.mpr (silent msg).1
  have reclaimed (msg : MsgPtr) : second.count (.reclaimed msg) = 0 := List.count_eq_zero.mpr (silent msg).2
  rw [responded.balanced]
  constructor
  · intro reclaims msg
    have once := reclaims.once msg
    rwa [List.count_append, List.count_append, dequeued, reclaimed] at once
  · intro balanced
    refine ⟨fun msg => ?_, fun msg => ?_⟩
    · rw [List.count_append, List.count_append, dequeued, reclaimed, balanced]
    · have same : (.dequeued msg ∈ first ++ second) ↔ .reclaimed msg ∈ first := by
        rw [List.mem_append, or_iff_left (silent msg).1, ← List.count_pos_iff, ← List.count_pos_iff, balanced]
      rw [kept, responded.lent]
      simp only [same]

include local_ in
theorem answersSucceed_iff {next : IoProxy W} {code : Int} {first : List RunEvent} {responses : List MsgPtr}
    (queue : Holding rpcElement (proxy.rpc.queues .drvrpcResp) responses)
    (returns : traceResponses v (handleMmio :: others) (queued (proxy.rpc.queues .drvrpcResp) + 1) proxy 0 =
      .ok (next, code, first)) :
    code = 0 ↔ ∀ after last,
      processUntil (handleMmio :: others) proxy (responses.map proxy.rpc.buffer) = .ok (after, last) → last = 0 := by
  have processes := first_processes (v := v) local_ queue
  cases answered : processUntil (handleMmio :: others) proxy (responses.map proxy.rpc.buffer) with
  | error fault =>
    rw [processes.stops fault answered] at returns
    cases returns
  | ok result =>
    obtain ⟨rpc, deviceEvent, trace, ends, _⟩ := processes.returns result.1 result.2 answered
    rw [ends] at returns
    cases returns
    constructor
    · intro zero after last same
      cases same
      exact zero
    · exact fun zero => zero _ _ rfl

include local_ in
/-- A call that returns gives every response back exactly if none fails. -/
theorem reclaims_iff {responses : List MsgPtr} (queue : Holding rpcElement (proxy.rpc.queues .drvrpcResp) responses)
    (returns : traceRun v others proxy event = .ok (after, rc, trace)) :
    Reclaims proxy after trace ↔ AnswersSucceed (handleMmio :: others) proxy := by
  obtain ⟨next, code, first, second, responds, ends, rfl⟩ := traceRun_parts returns
  rw [reclaims_iff_code local_ responds ends]
  constructor
  · exact fun zero responses queue => (answersSucceed_iff local_ queue responds).mp zero
  · exact fun succeed => (answersSucceed_iff local_ queue responds).mpr (succeed responses queue)

end Calls

/-! ### Any number of calls -/

/-- What happens to an io_proxy: an operation of one side, a write of a peer to a message it
holds, an event that is posted, or anything outside of the proxy's own state. -/
inductive Traffic (W : Type) where
  | session (op : SessionOp)
  | write (peer : Peer) (held : Held) (words : Msg)
  | post (mr0 mr1 mr2 mr3 : BitVec 64)
  | elsewhere (outside : W)

def trafficStep (v : CasVariant) (others : List (RpcCallback W)) (s : Session W) : Traffic W → Option (Session W)
  | .session op => s.step v others op
  | .write _ held words => some (s.carry (s.proxy.rpc.write held words))
  | .post mr0 mr1 mr2 mr3 => (rpcmsgEventTx v s.proxy.deviceEvent mr0 mr1 mr2 mr3).map fun (deviceEvent, _) =>
      { s with proxy := { s.proxy with deviceEvent } }
  | .elsewhere outside => some { s with proxy := { s.proxy with outside } }

/-- A peer passes on, answers and writes only messages it holds, and no response fails. -/
def Answering (others : List (RpcCallback W)) (s : Session W) : Traffic W → Prop
  | .session (.forward peer held) | .session (.reply peer held _ _) | .write peer held _ =>
      held ∈ s.proxy.rpc.hands (.peer peer)
  | .session (.run _) => AnswersSucceed (handleMmio :: others) s.proxy
  | _ => True

/-- Requests that are in a queue or with a peer: their response is not dequeued yet. -/
def waiting (rpc : System) : List Nat :=
  rpc.journey .drvrpcReq ++ rpc.journey .drvrpcReqDev ++ rpc.journey .drvrpcResp ++
    (rpc.hands (.peer .deviceKm) ++ rpc.hands (.peer .device)).map Prod.snd

structure Accounted (rpc : System) : Prop where
  distinct : (waiting rpc).Nodup
  lent : (Finset.univ.filter fun msg => rpc.bufferState.lent msg = true).card = (waiting rpc).length

def Resting (rpc : System) : Prop := Conserving (fun _ => False) rpc ∧ rpc.hands .driver = []

section Accounting
variable {rpc : System} {at_ : MsgPtr → Option (Place × Nat)} {stock : Place → List Held}

def stations : List Place :=
  [.queue .drvrpcReq, .queue .drvrpcReqDev, .queue .drvrpcResp, .hand (.peer .deviceKm), .hand (.peer .device)]

theorem waiting_eq (inv : Inv (fun _ => False) rpc at_ stock) :
    waiting rpc = (stations.flatMap stock).map Prod.snd := by
  simp [waiting, stations, inv.journey, inv.hands]

/-- A message is at one of these places exactly if it is lent. -/
theorem count_stations (inv : Inv (fun _ => False) rpc at_ stock) (rest : rpc.hands .driver = []) (msg : MsgPtr) :
    ((stations.flatMap stock).map Prod.fst).count msg = if rpc.bufferState.lent msg = true then 1 else 0 := by
  have lent := inv.lent msg
  rw [or_false] at lent
  simp only [stations, List.flatMap_cons, List.flatMap_nil, List.append_nil, List.map_append, List.count_append,
    inv.occupied.count]
  cases location : at_ msg with
  | none =>
    have free : ¬rpc.bufferState.lent msg = true := fun set => lent.mp set location
    simp [free]
  | some found =>
    obtain ⟨p, n⟩ := found
    have set : rpc.bufferState.lent msg = true := lent.mpr (by simp [location])
    rw [if_pos set]
    cases p with
    | queue id => cases id <;> simp
    | hand party =>
      cases party with
      | driver =>
        -- between two calls the driver holds nothing
        have held := (inv.occupied.located _ _ _).mpr location
        rw [← inv.hands, rest] at held
        cases held
      | peer peer => cases peer <;> simp

theorem Resting.accounted (resting : Resting rpc) : Accounted rpc := by
  obtain ⟨⟨at_, stock, inv⟩, rest⟩ := resting
  have counts := count_stations inv rest
  have once : ((stations.flatMap stock).map Prod.fst).Nodup := by
    refine List.nodup_iff_count_le_one.mpr fun msg => ?_
    rw [counts]
    split <;> decide
  have lent : (Finset.univ.filter fun msg => rpc.bufferState.lent msg = true) =
      ((stations.flatMap stock).map Prod.fst).toFinset := by
    ext msg
    rw [Finset.mem_filter, List.mem_toFinset, ← List.count_pos_iff, counts]
    split
    · next set => simp [set]
    · next free => simp [free]
  constructor
  · rw [waiting_eq inv]
    refine once.of_map.map_on fun held here held' there same => ?_
    obtain ⟨p, _, inside⟩ := List.mem_flatMap.mp here
    obtain ⟨p', _, inside'⟩ := List.mem_flatMap.mp there
    -- a request number is that of one message only
    have first := inv.issued _ _ _ ((inv.occupied.located _ _ _).mp inside)
    have second := inv.issued _ _ _ ((inv.occupied.located _ _ _).mp inside')
    rw [same, second, Option.some.injEq] at first
    exact Prod.ext (Fin.ext (by omega)) same
  · rw [lent, waiting_eq inv, List.toFinset_card_of_nodup once, List.length_map, List.length_map]

end Accounting

section Steps
variable {v : CasVariant} {others : List (RpcCallback W)} {rpc t : System} {proxy after : IoProxy W}

theorem resting_initial : Resting .initial := ⟨conserving_initial, rfl⟩

theorem Resting.take (resting : Resting rpc) {peer : Peer} {held : Option Held}
    (received : rpc.receive v peer.request (.peer peer) = .ok (t, held)) : Resting t := by
  obtain ⟨⟨at_, stock, inv⟩, rest⟩ := resting
  rcases inv.receive v peer.request (.peer peer) with ⟨_, returns⟩ | ⟨oldest, _, queue, _, returns, located⟩
  · rw [returns] at received
    cases received
    exact ⟨⟨at_, stock, inv⟩, rest⟩
  · rw [returns] at received
    cases received
    exact ⟨⟨_, located⟩, by simpa [System.take] using rest⟩

theorem Resting.pass (resting : Resting rpc) {peer : Peer} {held : Held} (member : held ∈ rpc.hands (.peer peer))
    (id : QueueId) {code : Int}
    (passed : rpc.pass peer held id (rpcmsgRpcEnqueue v (rpc.queues id) held.1) = .ok (t, code)) : Resting t := by
  obtain ⟨⟨at_, stock, inv⟩, rest⟩ := resting
  obtain ⟨queue, returns, located⟩ := inv.pass (v := v) member id
  rw [returns] at passed
  cases passed
  exact ⟨⟨_, located⟩, by simpa [System.give] using rest⟩

theorem Resting.write (resting : Resting rpc) (held : Held) (words : Msg) : Resting (rpc.write held words) := by
  obtain ⟨⟨at_, stock, inv⟩, rest⟩ := resting
  exact ⟨⟨at_, stock, inv.write held words⟩, rest⟩

theorem Resting.request (resting : Resting rpc) {mr0 mr1 mr2 mr3 : BitVec 64} {code : Int}
    (requested : rpc.request v mr0 mr1 mr2 mr3 = .ok (t, code)) : Resting t := by
  obtain ⟨⟨at_, stock, inv⟩, rest⟩ := resting
  by_cases room : ∃ msg, rpc.bufferState.lent msg = false
  · obtain ⟨msg, free⟩ := room
    obtain ⟨lending, r, _, _, _, returns, located⟩ := inv.request (v := v) free mr0 mr1 mr2 mr3
    rw [returns] at requested
    cases requested
    exact ⟨⟨_, located⟩, rest⟩
  · have all (msg : MsgPtr) : rpc.bufferState.lent msg = true := by
      rw [← Bool.not_eq_false]
      exact fun free => room ⟨msg, free⟩
    rw [System.request, rpcmsgRequest, lend_none all] at requested
    cases requested

theorem Resting.driver_request (resting : Resting proxy.rpc) {op : BitVec 32} {mr0 mr1 mr2 mr3 : BitVec 64} {code : Int}
    (requested : driverRpcRequest v proxy op mr0 mr1 mr2 mr3 = .ok (after, code)) : Resting after.rpc := by
  unfold driverRpcRequest at requested
  simp only at requested
  cases issued : proxy.rpc.request v (rpcMr0Op.set mr0 (op.setWidth 64)) mr1 mr2 mr3 with
  | error fault =>
    rw [issued] at requested
    cases requested
  | ok result =>
    rw [issued] at requested
    simp only [bind, Except.bind] at requested
    split at requested
    · cases requested
      exact resting.request issued
    · cases requested
      exact resting.request issued

theorem Resting.start (resting : Resting proxy.rpc) {req : IoReq} {code : Int}
    (started : ioreqStart v proxy req = .ok (after, code)) : Resting after.rpc := by
  unfold ioreqStart at started
  split at started
  · cases started
  · split at started
    · simp only at started
      split at started
      · cases started
      · exact Resting.driver_request (by exact resting) started
    · cases started
      exact resting

variable (local_ : ∀ callback ∈ others, Local callback)

theorem Resting.reclaimed (resting : Resting rpc) {held : Held} {id : BitVec 16}
    (received : rpc.receiveResponse v = .ok (t, some (held, id))) : Resting (t.reclaim held) := by
  obtain ⟨⟨at_, stock, inv⟩, rest⟩ := resting
  rcases inv.receive_response v with ⟨_, returns⟩ | ⟨oldest, remaining, queue, first, returns, located⟩
  · rw [returns] at received
    cases received
  · rw [returns] at received
    cases received
    have hand : (rpc.take .drvrpcResp .driver queue held.1).hands .driver = [held] := by
      simp [System.take, rest, inv.journey, first]
    obtain ⟨_, inv'⟩ := located
    constructor
    · exact ⟨_, inv'.reclaim (by rw [hand]; exact List.mem_cons_self)⟩
    · simp [System.reclaim, hand]

theorem Resting.unanswered (resting : Resting rpc) (received : rpc.receiveResponse v = .ok (t, none)) : Resting t := by
  obtain ⟨⟨at_, stock, inv⟩, rest⟩ := resting
  rcases inv.receive_response v with ⟨_, returns⟩ | ⟨oldest, remaining, queue, first, returns, located⟩
  · rw [returns] at received
    cases received
    exact ⟨⟨at_, stock, inv⟩, rest⟩
  · rw [returns] at received
    cases received

include local_ in
/-- The loop over the responses, if none of them fails. -/
theorem Resting.responses {code : Int} {trace : List RunEvent} (resting : Resting proxy.rpc) (zero : code = 0)
    (responds : Responds v (handleMmio :: others) proxy after code trace) : Resting after.rpc := by
  induction responds with
  | empty received => exact resting.unanswered received
  | failed _ _ failed => exact absurd zero failed
  | next received processed _ ih =>
    refine ih ?_ zero
    rw [(process_keeps (callbacks_local local_) _ _ processed).1]
    exact resting.reclaimed received

include local_ in
theorem Resting.run (resting : Resting proxy.rpc) (succeed : AnswersSucceed (handleMmio :: others) proxy)
    {event : Msg} {rc : Int} (returns : rpcRun v others proxy event = .ok (after, rc)) : Resting after.rpc := by
  obtain ⟨trace, traced⟩ := traceRun_of_returns v returns
  obtain ⟨next, code, first, second, responds, ends, _⟩ := traceRun_parts traced
  obtain ⟨at_, stock, inv⟩ := resting.1
  have zero : code = 0 := (answersSucceed_iff local_ (inv.holding .drvrpcResp) responds).mpr
    (succeed _ (inv.holding .drvrpcResp))
  rw [((traceEvents_handles ends).leaves (callbacks_local local_)).1]
  exact resting.responses local_ zero (traceResponses_responds responds)

include local_ in
theorem Resting.perform {s t : Session W} (resting : Resting s.proxy.rpc) {op : SessionOp} {out : Outcome}
    (answering : Answering others s (.session op)) (performed : s.perform v others op = .ok (t, out)) :
    Resting t.proxy.rpc := by
  cases op with
  | start req =>
    rw [Session.perform] at performed
    obtain ⟨⟨proxy, code⟩, started, same⟩ := of_bind_ok performed
    cases same
    exact resting.start started
  | receive peer =>
    rw [Session.perform] at performed
    obtain ⟨⟨rpc, held⟩, received, same⟩ := of_bind_ok performed
    cases same
    exact resting.take received
  | forward peer held =>
    rw [Session.perform] at performed
    obtain ⟨⟨rpc, code⟩, passed, same⟩ := of_bind_ok performed
    cases same
    exact resting.pass answering .drvrpcReqDev passed
  | reply peer held data doorbell =>
    rw [Session.perform] at performed
    obtain ⟨⟨rpc, code⟩, finished, same⟩ := of_bind_ok performed
    cases same
    obtain ⟨⟨rpc', code'⟩, passed, same⟩ := of_bind_ok finished
    -- the data goes into a message that the peer holds, and the message into the queue
    have replied := (resting.write held { s.proxy.rpc.buffer held.1 with mr2 := data }).pass answering .drvrpcResp passed
    simp only at same
    split at same
    · cases same
      exact replied
    · cases same
      exact replied
  | run event =>
    rw [Session.perform] at performed
    obtain ⟨⟨proxy, code⟩, ran, same⟩ := of_bind_ok performed
    cases same
    exact resting.run local_ answering ran

include local_ in
/-- Every step keeps the messages in their places and the hands of the driver empty. -/
theorem Resting.step {s t : Session W} (resting : Resting s.proxy.rpc) {traffic : Traffic W}
    (answering : Answering others s traffic) (edge : trafficStep v others s traffic = some t) :
    Resting t.proxy.rpc := by
  cases traffic with
  | write peer held words =>
    cases edge
    exact resting.write held words
  | post mr0 mr1 mr2 mr3 =>
    obtain ⟨queue, _, same⟩ := Option.map_eq_some_iff.mp edge
    cases same
    exact resting
  | elsewhere outside =>
    cases edge
    exact resting
  | session op =>
    rw [trafficStep, Session.step] at edge
    cases performed : s.perform v others op with
    | error fault =>
      rw [performed] at edge
      cases edge
    | ok result =>
      rw [performed] at edge
      cases edge
      exact resting.perform local_ answering performed

end Steps

/-- A call of `rpc_run` that returns clears the bit of every response it dequeued once and no
other, if and only if none of the responses in the queue fails. In a run whose calls meet
this, as many buffers are lent as requests wait for their response to be dequeued. -/
theorem response_buffers_reclaimed_iff (v : CasVariant) (others : List (RpcCallback W))
    (local_ : ∀ callback ∈ others, Local callback) :
    (∀ proxy responses, Holding rpcElement (proxy.rpc.queues .drvrpcResp) responses →
      ∀ event after rc, rpcRun v others proxy event = .ok (after, rc) →
        ∃ trace, traceRun v others proxy event = .ok (after, rc, trace) ∧
          (Reclaims proxy after trace ↔ AnswersSucceed (handleMmio :: others) proxy)) ∧
    ∀ outside s, Reach (trafficStep v others) (Answering others) (Session.initial outside) s → Accounted s.proxy.rpc := by
  constructor
  · intro proxy responses queue event after rc returns
    obtain ⟨trace, traced⟩ := traceRun_of_returns v returns
    exact ⟨trace, traced, reclaims_iff local_ queue traced⟩
  · intro outside s reached
    refine Resting.accounted ?_
    refine reached.invariant (P := fun s => Resting s.proxy.rpc) resting_initial ?_
    intro s traffic t resting answering edge
    exact resting.step local_ answering edge

def reading : IoReq := ⟨3#32, .ioackVcpuRead, .ioackVcpuWrite, 100#64, 255#32, 0#32, 4096#64, 4#64, 0#64⟩

theorem response_buffers_accounted_reading :
    ∃ s, trafficStep .user (vmmCallbacks none calm true) (Session.initial ⟨quiet, true, 0⟩) (.session (.start reading)) =
        some s ∧ waiting s.proxy.rpc = [0] ∧ Accounted s.proxy.rpc := by
  have waits : (trafficStep .user (vmmCallbacks none calm true) (Session.initial ⟨quiet, true, 0⟩)
      (.session (.start reading))).map (fun s => waiting s.proxy.rpc) = some [0] := by decide +kernel
  obtain ⟨s, edge, same⟩ := Option.map_eq_some_iff.mp waits
  have started : Answering (vmmCallbacks none calm true) (Session.initial (⟨quiet, true, 0⟩ : Shared Bool Nat))
      (.session (.start reading)) := trivial
  refine ⟨s, edge, same, (response_buffers_reclaimed_iff .user (vmmCallbacks none calm true)
    (fun callback inside => rpcCallbacks_local none calm true callback (List.mem_cons_of_mem _ inside))).2
    ⟨quiet, true, 0⟩ s (.next .start started edge)⟩

/-- The response that fails stays lent. -/
theorem response_buffer_leaks : ∃ after trace,
    rpcRun .user (vmmCallbacks none calm true) (garbled rpcmsgEventTxqInit) Msg.zero = .ok (after, -1) ∧
      traceRun .user (vmmCallbacks none calm true) (garbled rpcmsgEventTxqInit) Msg.zero = .ok (after, -1, trace) ∧
      .dequeued 0 ∈ trace ∧ after.rpc.bufferState.lent 0 = true ∧
      ¬Reclaims (garbled rpcmsgEventTxqInit) after trace := by
  have run : (traceRun .user (vmmCallbacks none calm true) (garbled rpcmsgEventTxqInit) Msg.zero).map
      (fun result => (result.1.rpc.bufferState.lent 0, result.2)) =
      .ok (true, -1, [.dequeued 0, .processed ⟨99#64, 0#64, 0#64, 0#64⟩ (-1)]) := by
    decide +kernel
  rw [← traceRun_erase]
  cases traced : traceRun .user (vmmCallbacks none calm true) (garbled rpcmsgEventTxqInit) Msg.zero with
  | error fault =>
    rw [traced] at run
    cases run
  | ok result =>
    obtain ⟨after, rc, trace⟩ := result
    rw [traced] at run
    obtain ⟨lent, rest⟩ := Prod.mk.inj (Except.ok.inj run)
    obtain ⟨rfl, rfl⟩ := Prod.mk.inj rest
    refine ⟨after, _, rfl, rfl, List.mem_cons_self, lent, fun reclaims => ?_⟩
    have once := reclaims.once 0
    revert once
    decide

end Virtioso.Vmm
