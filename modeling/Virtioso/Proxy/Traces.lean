import Mathlib.Data.List.Count
import Virtioso.Proxy.Chain

/-! Runs of `rpc_run`, with a trace of what is done with messages. A run that returns is also
told as a relation, message by message. -/

set_option autoImplicit false

namespace Virtioso.Proxy

open Virtioso.Ring Rpc

variable {W : Type}

/-! ### Traces -/

inductive RunEvent where
  | dequeued (msg : MsgPtr)
  | processed (msg : Msg) (code : Int)
  | reclaimed (msg : MsgPtr)
  deriving DecidableEq, Repr

/-- `runResponses` with its trace. -/
def traceResponses (v : CasVariant) (callbacks : List (RpcCallback W)) :
    Nat → IoProxy W → Int → Except Fault (IoProxy W × Int × List RunEvent)
  | 0, _, _ => throw .stuck
  | fuel + 1, proxy, rc => do
      let (rpc, answer) ← proxy.rpc.receiveResponse v
      let proxy := { proxy with rpc }
      match answer with
      | none => return (proxy, rc, [])
      | some (resp, _) =>
          let msg := proxy.rpc.buffer resp.1
          let (proxy, code) ← rpcProcess callbacks proxy msg
          if code ≠ 0 then return (proxy, code, [.dequeued resp.1, .processed msg code])
          else
            let (proxy, rc, later) ←
              traceResponses v callbacks fuel { proxy with rpc := proxy.rpc.reclaim resp } code
            return (proxy, rc, .dequeued resp.1 :: .processed msg code :: .reclaimed resp.1 :: later)

/-- `runEvents` with its trace. -/
def traceEvents (v : CasVariant) (callbacks : List (RpcCallback W)) :
    Nat → IoProxy W → Msg → Int → Except Fault (IoProxy W × Int × List RunEvent)
  | 0, _, _, _ => throw .stuck
  | fuel + 1, proxy, event, rc =>
      match rpcmsgEventRx v proxy.deviceEvent event with
      | none => throw .stuck
      | some (deviceEvent, received, event) => do
          let proxy := { proxy with deviceEvent }
          if received ≠ 0 then return (proxy, rc, [])
          else
            let (proxy, code) ← rpcProcess callbacks proxy event
            if code ≠ 0 then return (proxy, code, [.processed event code])
            else
              let (proxy, rc, later) ← traceEvents v callbacks fuel proxy event code
              return (proxy, rc, .processed event code :: later)

/-- `rpcRun` with its trace. -/
def traceRun (v : CasVariant) (others : List (RpcCallback W)) (proxy : IoProxy W) (event : Msg) :
    Except Fault (IoProxy W × Int × List RunEvent) := do
  let callbacks := handleMmio :: others
  let (proxy, rc, first) ← traceResponses v callbacks (queued (proxy.rpc.queues .drvrpcResp) + 1) proxy 0
  let (proxy, rc, second) ← traceEvents v callbacks (queued proxy.deviceEvent + 1) proxy event rc
  return (proxy, rc, first ++ second)

def erase (run : Except Fault (IoProxy W × Int × List RunEvent)) : Except Fault (IoProxy W × Int) :=
  run.map fun result => (result.1, result.2.1)

section Erasure
variable (v : CasVariant) (callbacks : List (RpcCallback W))

theorem traceResponses_erase (fuel : Nat) (proxy : IoProxy W) (rc : Int) :
    erase (traceResponses v callbacks fuel proxy rc) = runResponses v callbacks fuel proxy rc := by
  induction fuel generalizing proxy rc with
  | zero => rfl
  | succ fuel ih =>
    unfold traceResponses runResponses
    cases proxy.rpc.receiveResponse v with
    | error fault => rfl
    | ok received =>
      obtain ⟨rpc, answer⟩ := received
      cases answer with
      | none => rfl
      | some answer =>
        obtain ⟨resp, id⟩ := answer
        simp only [bind, Except.bind]
        cases rpcProcess callbacks { proxy with rpc } (rpc.buffer resp.1) with
        | error fault => rfl
        | ok result =>
          simp only
          split
          · rfl
          · rw [← ih]
            cases traceResponses v callbacks fuel { result.1 with rpc := result.1.rpc.reclaim resp } result.2 <;> rfl

theorem traceEvents_erase (fuel : Nat) (proxy : IoProxy W) (event : Msg) (rc : Int) :
    erase (traceEvents v callbacks fuel proxy event rc) = runEvents v callbacks fuel proxy event rc := by
  induction fuel generalizing proxy event rc with
  | zero => rfl
  | succ fuel ih =>
    unfold traceEvents runEvents
    cases rpcmsgEventRx v proxy.deviceEvent event with
    | none => rfl
    | some received =>
      obtain ⟨deviceEvent, code, event⟩ := received
      simp only [bind, Except.bind]
      split
      · rfl
      · cases rpcProcess callbacks { proxy with deviceEvent } event with
        | error fault => rfl
        | ok result =>
          simp only
          split
          · rfl
          · rw [← ih]
            cases traceEvents v callbacks fuel result.1 event result.2 <;> rfl

theorem traceRun_erase (others : List (RpcCallback W)) (proxy : IoProxy W) (event : Msg) :
    erase (traceRun v others proxy event) = rpcRun v others proxy event := by
  unfold traceRun rpcRun
  simp only
  rw [← traceResponses_erase]
  cases traceResponses v (handleMmio :: others) (queued (proxy.rpc.queues .drvrpcResp) + 1) proxy 0 with
  | error fault => rfl
  | ok first =>
    obtain ⟨proxy, rc, trace⟩ := first
    simp only [erase, bind, Except.bind, Except.map]
    rw [← traceEvents_erase]
    cases traceEvents v (handleMmio :: others) (queued proxy.deviceEvent + 1) proxy event rc <;> rfl

theorem traceRun_of_returns {others : List (RpcCallback W)} {proxy after : IoProxy W} {event : Msg} {rc : Int}
    (returns : rpcRun v others proxy event = .ok (after, rc)) :
    ∃ trace, traceRun v others proxy event = .ok (after, rc, trace) := by
  rw [← traceRun_erase] at returns
  cases run : traceRun v others proxy event with
  | error fault =>
    rw [run] at returns
    cases returns
  | ok result =>
    rw [run] at returns
    cases returns
    exact ⟨_, rfl⟩

theorem traceRun_fault_iff (others : List (RpcCallback W)) (proxy : IoProxy W) (event : Msg) (fault : Fault) :
    rpcRun v others proxy event = .error fault ↔ traceRun v others proxy event = .error fault := by
  rw [← traceRun_erase]
  cases traceRun v others proxy event with
  | error other => exact ⟨fun same => congrArg _ (Except.error.inj same), fun same => congrArg _ (Except.error.inj same)⟩
  | ok result => exact iff_of_false (fun wrong => by cases wrong) (fun wrong => by cases wrong)

end Erasure

theorem traceRun_parts {v : CasVariant} {others : List (RpcCallback W)} {proxy after : IoProxy W} {event : Msg}
    {rc : Int} {trace : List RunEvent} (returns : traceRun v others proxy event = .ok (after, rc, trace)) :
    ∃ next code first second,
      traceResponses v (handleMmio :: others) (queued (proxy.rpc.queues .drvrpcResp) + 1) proxy 0 =
        .ok (next, code, first) ∧
      traceEvents v (handleMmio :: others) (queued next.deviceEvent + 1) next event code = .ok (after, rc, second) ∧
      trace = first ++ second := by
  unfold traceRun at returns
  obtain ⟨⟨next, code, first⟩, responds, returns⟩ := of_bind_ok returns
  obtain ⟨⟨final, last, second⟩, handles, returns⟩ := of_bind_ok returns
  cases returns
  exact ⟨next, code, first, second, responds, handles, rfl⟩

theorem traceRun_second {v : CasVariant} {others : List (RpcCallback W)} {proxy next : IoProxy W} {code : Int}
    {trace : List RunEvent} (event : Msg)
    (first : traceResponses v (handleMmio :: others) (queued (proxy.rpc.queues .drvrpcResp) + 1) proxy 0 =
      .ok (next, code, trace)) :
    traceRun v others proxy event =
      (traceEvents v (handleMmio :: others) (queued next.deviceEvent + 1) next event code).map
        fun result => (result.1, result.2.1, trace ++ result.2.2) := by
  unfold traceRun
  simp only [first, bind, Except.bind]
  cases traceEvents v (handleMmio :: others) (queued next.deviceEvent + 1) next event code <;> rfl

/-! ### Loops that return -/

/-- The loop over the responses: none is left, or one fails, or one is processed and reclaimed. -/
inductive Responds (v : CasVariant) (callbacks : List (RpcCallback W)) :
    IoProxy W → IoProxy W → Int → List RunEvent → Prop where
  | empty {proxy : IoProxy W} {rpc : System} : proxy.rpc.receiveResponse v = .ok (rpc, none) →
      Responds v callbacks proxy { proxy with rpc } 0 []
  | failed {proxy next : IoProxy W} {rpc : System} {resp : Held} {id : BitVec 16} {code : Int} :
      proxy.rpc.receiveResponse v = .ok (rpc, some (resp, id)) →
      rpcProcess callbacks { proxy with rpc } (rpc.buffer resp.1) = .ok (next, code) → code ≠ 0 →
      Responds v callbacks proxy next code [.dequeued resp.1, .processed (rpc.buffer resp.1) code]
  | next {proxy next after : IoProxy W} {rpc : System} {resp : Held} {id : BitVec 16} {code : Int}
      {later : List RunEvent} : proxy.rpc.receiveResponse v = .ok (rpc, some (resp, id)) →
      rpcProcess callbacks { proxy with rpc } (rpc.buffer resp.1) = .ok (next, 0) →
      Responds v callbacks { next with rpc := next.rpc.reclaim resp } after code later →
      Responds v callbacks proxy after code
        (.dequeued resp.1 :: .processed (rpc.buffer resp.1) 0 :: .reclaimed resp.1 :: later)

/-- The loop over the events, which starts with a code of the loop before. -/
inductive Handles (v : CasVariant) (callbacks : List (RpcCallback W)) :
    IoProxy W → Msg → Int → IoProxy W → Int → List RunEvent → Prop where
  | empty {proxy : IoProxy W} {deviceEvent : Queue EventStore} {event last : Msg} {received rc : Int} :
      rpcmsgEventRx v proxy.deviceEvent event = some (deviceEvent, received, last) → received ≠ 0 →
      Handles v callbacks proxy event rc { proxy with deviceEvent } rc []
  | failed {proxy next : IoProxy W} {deviceEvent : Queue EventStore} {event last : Msg} {rc code : Int} :
      rpcmsgEventRx v proxy.deviceEvent event = some (deviceEvent, 0, last) →
      rpcProcess callbacks { proxy with deviceEvent } last = .ok (next, code) → code ≠ 0 →
      Handles v callbacks proxy event rc next code [.processed last code]
  | next {proxy next after : IoProxy W} {deviceEvent : Queue EventStore} {event last : Msg} {rc code : Int}
      {later : List RunEvent} : rpcmsgEventRx v proxy.deviceEvent event = some (deviceEvent, 0, last) →
      rpcProcess callbacks { proxy with deviceEvent } last = .ok (next, 0) →
      Handles v callbacks next last 0 after code later →
      Handles v callbacks proxy event rc after code (.processed last 0 :: later)

section Returns
variable {v : CasVariant} {callbacks : List (RpcCallback W)} {proxy after : IoProxy W} {fuel : Nat} {rc : Int}
variable {trace : List RunEvent}

theorem traceResponses_responds (returns : traceResponses v callbacks fuel proxy 0 = .ok (after, rc, trace)) :
    Responds v callbacks proxy after rc trace := by
  induction fuel generalizing proxy after rc trace with
  | zero => cases returns
  | succ fuel ih =>
    unfold traceResponses at returns
    obtain ⟨⟨rpc, answer⟩, received, returns⟩ := of_bind_ok returns
    cases answer with
    | none =>
      cases returns
      exact .empty received
    | some answer =>
      obtain ⟨resp, id⟩ := answer
      obtain ⟨⟨next, code⟩, processed, returns⟩ := of_bind_ok returns
      simp only at returns
      split at returns
      · next failed =>
        cases returns
        exact .failed received processed failed
      · next succeeds =>
        obtain rfl : code = 0 := not_not.mp succeeds
        obtain ⟨⟨final, last, rest⟩, later, returns⟩ := of_bind_ok returns
        cases returns
        exact .next received processed (ih later)

theorem traceEvents_handles {event : Msg} {start : Int}
    (returns : traceEvents v callbacks fuel proxy event start = .ok (after, rc, trace)) :
    Handles v callbacks proxy event start after rc trace := by
  -- the fuel is the recursion of the loop; running out of it is not a return
  induction fuel generalizing proxy after event start rc trace with
  | zero => cases returns
  | succ fuel ih =>
    unfold traceEvents at returns
    cases received : rpcmsgEventRx v proxy.deviceEvent event with
    | none =>
      rw [received] at returns
      cases returns
    | some result =>
      obtain ⟨deviceEvent, code, last⟩ := result
      rw [received] at returns
      simp only at returns
      split at returns
      · next ends =>
        cases returns
        exact .empty received ends
      · next delivered =>
        obtain rfl : code = 0 := not_not.mp delivered
        obtain ⟨⟨next, code⟩, processed, returns⟩ := of_bind_ok returns
        simp only at returns
        split at returns
        · next failed =>
          cases returns
          exact .failed received processed failed
        · next succeeds =>
          obtain rfl : code = 0 := not_not.mp succeeds
          obtain ⟨⟨final, ended, rest⟩, later, returns⟩ := of_bind_ok returns
          cases returns
          exact .next received processed (ih later)

end Returns

end Virtioso.Proxy
