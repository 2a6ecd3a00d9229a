import Virtioso.Proxy.Locality
import Virtioso.Vmm.Exclusive

/-! What the return code of `rpc_run` tells of the messages it processed.

The loop over the events starts with the code of the loop over the responses and overwrites
it: a failed response is reported only if no event succeeds after it.
-/

set_option autoImplicit false

namespace Virtioso.Vmm

open Virtioso.Ring Irq Rpc Proxy

section Handlers
variable {P Handle : Type} [DecidableEq P] [DecidableEq Handle]

omit [DecidableEq P] [DecidableEq Handle] in
theorem onShared_local (handler : Shared P Handle → BitVec 32 → Msg → Option (Shared P Handle × Rc)) :
    Local (onShared handler) := by
  intro proxy rpc deviceEvent op msg
  have outside : (proxy.plug rpc deviceEvent).outside = proxy.outside := rfl
  unfold onShared
  rw [outside]
  cases handler proxy.outside op msg <;> rfl

/-- The handlers of the VMM leave the rpc alone, whatever external functions do. -/
theorem rpcCallbacks_local (plat : Option Plat) (env : Environment P Handle) (self : P) :
    ∀ callback ∈ rpcCallbacks plat env self, Local callback := by
  intro callback inside
  simp only [rpcCallbacks, vmmCallbacks, List.mem_cons, List.not_mem_nil, or_false] at inside
  rcases inside with rfl | rfl | rfl | rfl | rfl
  · exact handleMmio_local
  · exact onShared_local _
  · exact onShared_local _
  · exact onShared_local _
  · exact onShared_local _

end Handlers

variable {W : Type}

/-- `rpc_process` stops the VMM at one of the messages. -/
def Stops (callbacks : List (RpcCallback W)) (proxy : IoProxy W) (responses events : List Msg) (fault : Fault) : Prop :=
  processUntil callbacks proxy responses = .error fault ∨
    ∃ next code, processUntil callbacks proxy responses = .ok (next, code) ∧
      processUntil callbacks next events = .error fault

def Unmasked (callbacks : List (RpcCallback W)) (proxy : IoProxy W) (responses events : List Msg) : Prop :=
  ∀ next code, processUntil callbacks proxy responses = .ok (next, code) →
    code = 0 ∨ events = [] ∨ ∀ after last, processUntil callbacks next events = .ok (after, last) → last ≠ 0

section Loops
variable {v : CasVariant} {others : List (RpcCallback W)} (local_ : ∀ callback ∈ others, Local callback)
variable {proxy : IoProxy W} {responses : List MsgPtr} {events : List Msg}
variable (queue : Holding rpcElement (proxy.rpc.queues .drvrpcResp) responses)
variable (posted : Holding eventElement proxy.deviceEvent events)

include local_ in
theorem callbacks_local : ∀ callback ∈ handleMmio :: others, Local callback := by
  intro callback inside
  rcases List.mem_cons.mp inside with rfl | other
  · exact handleMmio_local
  · exact local_ callback other

include local_ queue in
theorem first_processes : Processes id
    (processUntil (handleMmio :: others) proxy (responses.map proxy.rpc.buffer))
    (traceResponses v (handleMmio :: others) (queued (proxy.rpc.queues .drvrpcResp) + 1) proxy 0) :=
  traceResponses_processes (callbacks_local local_) queue
    (Nat.lt_succ_of_le (Nat.le_of_eq (queued_of_holding queue).symm))

include local_ posted in
theorem second_processes (next : IoProxy W) (rpc : System) (event : Msg) (code : Int) :
    Processes (fun last => if events = [] then code else last)
      (replug rpc proxy.deviceEvent (processUntil (handleMmio :: others) next events))
      (traceEvents v (handleMmio :: others) (queued (next.plug rpc proxy.deviceEvent).deviceEvent + 1)
        (next.plug rpc proxy.deviceEvent) event code) := by
  have plugged : Holding eventElement (next.plug rpc proxy.deviceEvent).deviceEvent events := posted
  rw [← processUntil_local (callbacks_local local_)]
  exact traceEvents_processes (callbacks_local local_) plugged
    (Nat.lt_succ_of_le (Nat.le_of_eq (queued_of_holding plugged).symm)) event code

include local_ queue posted in
/-- The two loops of `rpc_run` stop where `rpc_process` does. -/
theorem traceRun_stops (event : Msg) {fault : Fault}
    (stops : Stops (handleMmio :: others) proxy (responses.map proxy.rpc.buffer) events fault) :
    traceRun v others proxy event = .error fault := by
  have first := first_processes (v := v) local_ queue
  rcases stops with fails | ⟨next, code, answered, fails⟩
  · unfold traceRun
    simp only [first.stops fault fails]
    rfl
  · obtain ⟨rpc, deviceEvent, trace, run, _⟩ := first.returns next code answered
    have same : deviceEvent = proxy.deviceEvent := ((traceResponses_responds run).leaves (callbacks_local local_)).deviceEvent
    subst same
    have second := second_processes (v := v) local_ posted next rpc event code
    rw [fails] at second
    rw [traceRun_second event run, id, second.stops fault rfl]
    rfl

include local_ queue posted in
/-- Where they do not, they return the code of the last message of the second loop, or of the
first if there is no event. -/
theorem traceRun_returns (event : Msg) {next after : IoProxy W} {code last : Int}
    (answered : processUntil (handleMmio :: others) proxy (responses.map proxy.rpc.buffer) = .ok (next, code))
    (handled : processUntil (handleMmio :: others) next events = .ok (after, last)) :
    ∃ final trace, traceRun v others proxy event = .ok (final, if events = [] then code else last, trace) ∧
      (Succeeds trace ↔ code = 0 ∧ last = 0) := by
  have first := first_processes (v := v) local_ queue
  obtain ⟨rpc, deviceEvent, trace, run, codes⟩ := first.returns next code answered
  have same : deviceEvent = proxy.deviceEvent := ((traceResponses_responds run).leaves (callbacks_local local_)).deviceEvent
  subst same
  have second := second_processes (v := v) local_ posted next rpc event code
  rw [handled] at second
  obtain ⟨rpc', deviceEvent, later, ends, lasts⟩ := second.returns _ _ rfl
  refine ⟨(after.plug rpc proxy.deviceEvent).plug rpc' deviceEvent, trace ++ later, ?_, ?_⟩
  · rw [traceRun_second event run, id, ends]
    rfl
  · rw [succeeds_append, ← codes, ← lasts]

end Loops

/-- The code of the last loop that processed anything tells of both, unless it hides a failure. -/
theorem masked_iff {events : List Msg} {code last : Int} (silent : events = [] → last = 0) :
    ((if events = [] then code else last) = 0 ↔ code = 0 ∧ last = 0) ↔ code = 0 ∨ events = [] ∨ last ≠ 0 := by
  by_cases none_left : events = []
  · simp [none_left, silent none_left]
  · simp only [none_left, if_false, false_or]
    tauto

section Outcomes
variable {callbacks : List (RpcCallback W)} {proxy next after : IoProxy W} {responses events : List Msg}
variable {code last : Int}

theorem stops_or_returns (callbacks : List (RpcCallback W)) (proxy : IoProxy W) (responses events : List Msg) :
    (∃ fault, Stops callbacks proxy responses events fault) ∨
      ∃ next code after last, processUntil callbacks proxy responses = .ok (next, code) ∧
        processUntil callbacks next events = .ok (after, last) := by
  cases answered : processUntil callbacks proxy responses with
  | error fault => exact .inl ⟨fault, .inl answered⟩
  | ok result =>
    obtain ⟨next, code⟩ := result
    cases handled : processUntil callbacks next events with
    | error fault => exact .inl ⟨fault, .inr ⟨next, code, answered, handled⟩⟩
    | ok result => exact .inr ⟨next, code, result.1, result.2, rfl, handled⟩

theorem unmasked_iff (answered : processUntil callbacks proxy responses = .ok (next, code))
    (handled : processUntil callbacks next events = .ok (after, last)) :
    Unmasked callbacks proxy responses events ↔ code = 0 ∨ events = [] ∨ last ≠ 0 := by
  constructor
  · intro unmasked
    exact (unmasked next code answered).imp_right (Or.imp_right fun fails => fails after last handled)
  · intro unmasked next' code' answered'
    rw [answered] at answered'
    cases answered'
    refine unmasked.imp_right (Or.imp_right fun failed after' last' handled' => ?_)
    rw [handled] at handled'
    cases handled'
    exact failed

theorem last_of_none (handled : processUntil callbacks next events = .ok (after, last)) (none_left : events = []) :
    last = 0 := by
  subst none_left
  cases handled
  rfl

end Outcomes

section Reports
variable {v : CasVariant} {others : List (RpcCallback W)} (local_ : ∀ callback ∈ others, Local callback)
variable {proxy : IoProxy W} {responses : List MsgPtr} {events : List Msg}
variable (queue : Holding rpcElement (proxy.rpc.queues .drvrpcResp) responses)
variable (posted : Holding eventElement proxy.deviceEvent events)

include local_ queue posted in
theorem traceRun_stops_iff (event : Msg) (fault : Fault) : traceRun v others proxy event = .error fault ↔
    Stops (handleMmio :: others) proxy (responses.map proxy.rpc.buffer) events fault := by
  constructor
  · intro stopped
    rcases stops_or_returns (handleMmio :: others) proxy (responses.map proxy.rpc.buffer) events with
      ⟨other, stops⟩ | ⟨next, code, after, last, answered, handled⟩
    · -- both stop, at one fault
      have same := traceRun_stops (v := v) local_ queue posted event stops
      rw [stopped] at same
      cases same
      exact stops
    · obtain ⟨final, trace, run, _⟩ := traceRun_returns (v := v) local_ queue posted event answered handled
      rw [stopped] at run
      cases run
  · exact traceRun_stops local_ queue posted event

end Reports

/-- `rpc_run` stops only where `rpc_process` stops at a message. Where it returns, its code is 0
exactly if all messages were processed successfully, if and only if no failed response is
followed by events that all succeed. -/
theorem rpc_run_reports_iff (v : CasVariant) (others : List (RpcCallback W))
    (local_ : ∀ callback ∈ others, Local callback) (proxy : IoProxy W) (responses : List MsgPtr) (events : List Msg)
    (queue : Holding rpcElement (proxy.rpc.queues .drvrpcResp) responses)
    (posted : Holding eventElement proxy.deviceEvent events) (event : Msg) :
    (∀ fault, rpcRun v others proxy event = .error fault ↔
      Stops (handleMmio :: others) proxy (responses.map proxy.rpc.buffer) events fault) ∧
    ∀ after rc, rpcRun v others proxy event = .ok (after, rc) →
      ∃ trace, traceRun v others proxy event = .ok (after, rc, trace) ∧
        ((rc = 0 ↔ Succeeds trace) ↔
          Unmasked (handleMmio :: others) proxy (responses.map proxy.rpc.buffer) events) := by
  constructor
  · intro fault
    rw [traceRun_fault_iff]
    exact traceRun_stops_iff local_ queue posted event fault
  · intro after rc ends
    obtain ⟨trace, traced⟩ := traceRun_of_returns v ends
    rcases stops_or_returns (handleMmio :: others) proxy (responses.map proxy.rpc.buffer) events with
      ⟨fault, stops⟩ | ⟨next, code, final, last, answered, handled⟩
    -- a message at which processing stops contradicts the return
    · rw [traceRun_stops (v := v) local_ queue posted event stops] at traced
      cases traced
    · obtain ⟨left, steps, run, codes⟩ := traceRun_returns (v := v) local_ queue posted event answered handled
      have same := Except.ok.inj (traced.symm.trans run)
      cases same
      refine ⟨trace, traced, ?_⟩
      rw [codes, masked_iff (last_of_none handled)]
      exact (unmasked_iff answered handled).symm

/-- The queue of one event that asks for `op`. -/
def posting (op : BitVec 64) : Queue EventStore :=
  match rpcmsgEventTx .user rpcmsgEventTxqInit op 0#64 0#64 0#64 with
  | some (queue, _) => queue
  | none => rpcmsgEventTxqInit

def answering : Queue RingIds :=
  match rpcmsgRpcEnqueue .user (rpcmsgQueueInit fun _ => 0#16) 0 with
  | .ok (queue, _) => queue
  | .error _ => rpcmsgQueueInit fun _ => 0#16

theorem answering_holds : Holding rpcElement answering [0] := by
  obtain ⟨queue, enqueued, keeps⟩ := rpc_enqueue (v := .user) (holding_init rpcElement fun _ => 0#16) (by decide) 0
  have sent : answering = queue := by
    unfold answering
    rw [enqueued]
  rw [sent]
  exact keeps

/-- A backend has put an operation that nobody handles into its response. -/
def garbled (deviceEvent : Queue EventStore) : IoProxy (Shared Bool Nat) :=
  { (Session.initial ⟨quiet, true, 0⟩).proxy with
    rpc := { System.initial with
      buffer := fun _ => ⟨99#64, 0#64, 0#64, 0#64⟩
      queues := Function.update System.initial.queues .drvrpcResp answering
      bufferState := rpcmsgBufferStateInit.setBit 0 }
    deviceEvent }

/-- Without an event the failed response is reported. -/
theorem rpc_run_reports_garbled : ∃ after trace,
    rpcRun .user (vmmCallbacks none calm true) (garbled rpcmsgEventTxqInit) Msg.zero = .ok (after, -1) ∧
      traceRun .user (vmmCallbacks none calm true) (garbled rpcmsgEventTxqInit) Msg.zero = .ok (after, -1, trace) ∧
      ¬Succeeds trace := by
  have code : (rpcRun .user (vmmCallbacks none calm true) (garbled rpcmsgEventTxqInit) Msg.zero).map Prod.snd =
      .ok (-1) := by decide +kernel
  cases run : rpcRun .user (vmmCallbacks none calm true) (garbled rpcmsgEventTxqInit) Msg.zero with
  | error fault =>
    rw [run] at code
    cases code
  | ok result =>
    obtain ⟨after, rc⟩ := result
    rw [run] at code
    obtain rfl : rc = -1 := Except.ok.inj code
    obtain ⟨trace, traced, reports⟩ := (rpc_run_reports_iff .user (vmmCallbacks none calm true)
      (fun callback inside => rpcCallbacks_local none calm true callback (List.mem_cons_of_mem _ inside))
      (garbled rpcmsgEventTxqInit) [0] [] (by simpa [garbled] using answering_holds) (holding_init ..)
      Msg.zero).2 after (-1) run
    refine ⟨after, trace, rfl, traced, fun succeeds => ?_⟩
    have zero := (reports.mpr fun _ _ _ => .inr (.inl rfl)).mpr succeeds
    cases zero

/-- An event that succeeds hides the failed response. -/
theorem rpc_run_masks : ∃ after trace,
    rpcRun .user (vmmCallbacks none calm true) (garbled (posting 18#64)) Msg.zero = .ok (after, 0) ∧
      traceRun .user (vmmCallbacks none calm true) (garbled (posting 18#64)) Msg.zero = .ok (after, 0, trace) ∧
      ¬Succeeds trace := by
  have run : (traceRun .user (vmmCallbacks none calm true) (garbled (posting 18#64)) Msg.zero).map Prod.snd =
      .ok (0, [.dequeued 0, .processed ⟨99#64, 0#64, 0#64, 0#64⟩ (-1), .processed ⟨18#64, 0#64, 0#64, 0#64⟩ 0]) := by
    decide +kernel
  rw [← traceRun_erase]
  cases traced : traceRun .user (vmmCallbacks none calm true) (garbled (posting 18#64)) Msg.zero with
  | error fault =>
    rw [traced] at run
    cases run
  | ok result =>
    obtain ⟨after, rc, trace⟩ := result
    rw [traced] at run
    cases run
    exact ⟨after, _, rfl, rfl, by simp [succeeds_cons]⟩

end Virtioso.Vmm
