import Virtioso.Proxy.Draining
import Virtioso.Vmm.DeviceCalls
import Virtioso.Vmm.Reporting

/-! The VMM as a service for its backends.

Each backend posts calls to a queue of its own, in a ring that also has requests of the guest
beside it; `rpc_run` of an io_proxy serves the calls of that backend on the state all of them
share. The service is stated on lists of calls, and the machine with its rings, words and
handlers is shown to do the same in every run.
-/

set_option autoImplicit false

namespace Virtioso.Vmm

open Foundation Irq Rpc Proxy
open Virtioso.Ring (CasVariant Msg MsgPtr Queue EventStore Holding eventElement)

section Events
variable {W : Type}

def dressProxy (proxy : IoProxy W) (deviceEvent : Queue EventStore) (outside : W) : IoProxy W :=
  { proxy with deviceEvent, outside }

def dress (s : Session W) (deviceEvent : Queue EventStore) (outside : W) : Session W :=
  { s with proxy := dressProxy s.proxy deviceEvent outside }

def hushed (s : Session W) : Session W := dress s rpcmsgEventTxqInit s.proxy.outside

def Asks : SessionOp → Prop
  | .run _ => False
  | _ => True

variable {v : CasVariant} {s : Session W} {at_ : MsgPtr → Option (Place × Nat)}

theorem sound_dress (sound : Sound s at_) {deviceEvent : Queue EventStore}
    (quiet : Holding eventElement deviceEvent []) (outside : W) : Sound (dress s deviceEvent outside) at_ :=
  ⟨sound.located, sound.rested, quiet, sound.armed, sound.started, sound.valid, sound.slots, sound.words, sound.answered,
    sound.older, sound.once⟩

theorem regular_dress (deviceEvent : Queue EventStore) (outside : W) (op : SessionOp) :
    Regular (dress s deviceEvent outside) op ↔ Regular s op := by
  cases op <;> exact Iff.rfl

theorem ioreqStart_dress (proxy : IoProxy W) (deviceEvent : Queue EventStore) (outside : W) (req : IoReq) :
    ioreqStart v (dressProxy proxy deviceEvent outside) req =
      (ioreqStart v proxy req).map fun returned => (dressProxy returned.1 deviceEvent outside, returned.2) := by
  unfold ioreqStart dressProxy
  by_cases small : req.size.toNat ≤ 8
  · rw [if_neg (not_not.mpr small), if_neg (not_not.mpr small)]
    by_cases inside : req.slot.toNat < ioacksSize
    · rw [dif_pos inside, dif_pos inside]
      by_cases idle : (proxy.ioacks ⟨req.slot.toNat, inside⟩).callback = none
      · simp only [idle, ne_eq, not_true_eq_false, if_false, driverRpcReqMmioStart, driverRpcRequest]
        cases proxy.rpc.request v _ req.offset req.val 0#64 with
        | error fault => rfl
        | ok result =>
          simp only [bind, Except.bind]
          by_cases negative : result.2 < 0
          · rw [if_pos negative, if_pos negative]
            rfl
          · rw [if_neg negative, if_neg negative]
            rfl
      · simp only [idle, ne_eq, not_false_eq_true, if_true]
        rfl
    · rw [dif_neg inside, dif_neg inside]
      rfl
  · rw [if_pos small, if_pos small]
    rfl

/-- Requests and what the peers do have nothing to do with events and the VMM. -/
theorem perform_dress (v : CasVariant) (others others' : List (RpcCallback W)) (s : Session W) {op : SessionOp}
    (asks : Asks op) (deviceEvent : Queue EventStore) (outside : W) : (dress s deviceEvent outside).perform v others op =
      (s.perform v others' op).map fun returned => (dress returned.1 deviceEvent outside, returned.2) := by
  cases op with
  | start req =>
    unfold Session.perform
    simp only [dress, ioreqStart_dress]
    cases ioreqStart v s.proxy req <;> rfl
  | receive peer =>
    unfold Session.perform
    simp only [dress, dressProxy]
    cases s.proxy.rpc.receive v peer.request (.peer peer) <;> rfl
  | forward peer held =>
    unfold Session.perform
    simp only [dress, dressProxy]
    cases s.proxy.rpc.forward v peer held <;> rfl
  | reply peer held data doorbell =>
    unfold Session.perform
    simp only [dress, dressProxy]
    cases driverRpcAckMmioFinish v s.proxy.rpc doorbell peer held data <;> rfl
  | run event => exact asks.elim

theorem runResponses_dress {callbacks : List (RpcCallback W)} (local_ : ∀ callback ∈ callbacks, Local callback)
    (deviceEvent : Queue EventStore) (fuel : Nat) (proxy : IoProxy W) (rc : Int) :
    runResponses v callbacks fuel (dressProxy proxy deviceEvent proxy.outside) rc =
      (runResponses v callbacks fuel proxy rc).map
        fun returned => (dressProxy returned.1 deviceEvent returned.1.outside, returned.2) := by
  induction fuel generalizing proxy rc with
  | zero => rfl
  | succ fuel ih =>
    unfold runResponses
    simp only [dressProxy]
    cases proxy.rpc.receiveResponse v with
    | error fault => rfl
    | ok received =>
      obtain ⟨rpc, answer⟩ := received
      cases answer with
      | none => rfl
      | some answer =>
        obtain ⟨resp, id⟩ := answer
        have plugged := process_local local_ { proxy with rpc } rpc deviceEvent (rpc.buffer resp.1)
        simp only [IoProxy.plug] at plugged
        simp only [bind, Except.bind, plugged]
        cases processed : rpcProcess callbacks { proxy with rpc } (rpc.buffer resp.1) with
        | error fault => rfl
        | ok result =>
          obtain ⟨next, code⟩ := result
          have keeps : next.rpc = rpc := (process_keeps local_ _ _ processed).1
          simp only [replug, Except.map, IoProxy.plug]
          by_cases failed : code ≠ 0
          · rw [if_pos failed, if_pos failed, ← keeps]
            rfl
          · rw [if_neg failed, if_neg failed, ← keeps]
            exact ih { next with rpc := next.rpc.reclaim resp } code

end Events

variable {P Handle : Type} [DecidableEq P] [DecidableEq Handle]

/-- Calls are served in their order until one fails. What the failed call has done stays, and
the calls behind it wait. -/
def serveCalls (plat : Option Plat) (env : Environment P Handle) (self : P) :
    Shared P Handle → List DeviceCall → Shared P Handle × List DeviceCall × Int
  | s, [] => (s, [], 0)
  | s, call :: rest =>
      let (s, code) := call.serve plat env self s
      if code ≠ 0 then (s, rest, code) else serveCalls plat env self s rest

section Runs
variable {v : CasVariant} {plat : Option Plat} {env : Environment P Handle} {self : P}
  {s : Session (Shared P Handle)} {at_ : MsgPtr → Option (Place × Nat)} {deviceEvent : Queue EventStore}

/-- The second loop of `rpc_run` serves the calls whose messages are queued. -/
theorem runEvents_serves (v : CasVariant) (plat : Option Plat) (env : Environment P Handle) (self : P) (event : Msg)
    (fuel : Nat) {proxy : IoProxy (Shared P Handle)} {pending : List DeviceCall}
    (posted : Holding eventElement proxy.deviceEvent (pending.map DeviceCall.words)) (enough : pending.length < fuel) :
    ∃ queue, runEvents v (rpcCallbacks plat env self) fuel proxy event 0 =
        .ok (dressProxy proxy queue (serveCalls plat env self proxy.outside pending).1,
          (serveCalls plat env self proxy.outside pending).2.2) ∧
      Holding eventElement queue ((serveCalls plat env self proxy.outside pending).2.1.map DeviceCall.words) := by
  induction pending generalizing proxy fuel event with
  | nil =>
    obtain ⟨fuel, rfl⟩ : ∃ more, fuel = more + 1 := ⟨fuel - 1, by omega⟩
    exact ⟨proxy.deviceEvent, no_events posted _ fuel event, posted⟩
  | cons call rest ih =>
    obtain ⟨fuel, rfl⟩ : ∃ more, fuel = more + 1 := ⟨fuel - 1, by omega⟩
    obtain ⟨queue, received, remaining⟩ := event_rx (v := v) posted event
    have process := process_call plat env self { proxy with deviceEvent := queue } call
    unfold runEvents serveCalls
    rw [received]
    simp only [ne_eq, not_true_eq_false, if_false, bind, Except.bind, process]
    by_cases failed : (call.serve plat env self proxy.outside).2 = 0
    · simp only [failed, not_true_eq_false, if_false]
      exact ih call.words fuel remaining (by simpa using enough)
    · simp only [failed, not_false_eq_true, if_true]
      exact ⟨queue, rfl, remaining⟩

theorem run_serves (v : CasVariant) (plat : Option Plat) (env : Environment P Handle) (self : P)
    (sound : Sound (hushed s) at_) {pending : List DeviceCall}
    (posted : Holding eventElement s.proxy.deviceEvent (pending.map DeviceCall.words)) (event : Msg) :
    ∃ t, s.perform v (vmmCallbacks plat env self) (.run event) =
        .ok (t, .code (serveCalls plat env self s.proxy.outside pending).2.2) ∧
      t.proxy.outside = (serveCalls plat env self s.proxy.outside pending).1 ∧
      Holding eventElement t.proxy.deviceEvent
        ((serveCalls plat env self s.proxy.outside pending).2.1.map DeviceCall.words) ∧
      ∃ at', Sound (hushed t) at' := by
  have local_ : ∀ callback ∈ rpcCallbacks plat env self, Local callback := rpcCallbacks_local plat env self
  have enough : (s.proxy.rpc.journey .drvrpcResp).length < queued (s.proxy.rpc.queues .drvrpcResp) + 1 := by
    obtain ⟨stock, inv⟩ := sound.located
    have length := queued_of_holding (inv.holding .drvrpcResp)
    rw [List.length_map] at length
    have journey : s.proxy.rpc.journey .drvrpcResp = (stock (.queue .drvrpcResp)).map Prod.snd := inv.journey _
    rw [journey, List.length_map, ← length]
    exact Nat.lt_succ_self _
  obtain ⟨proxy, loops, _, _, at', after⟩ := sound.run_responses v (vmmCallbacks plat env self) enough
  obtain ⟨_, alone, _, _⟩ := sound.responses_upstream loops
  have responses : runResponses v (rpcCallbacks plat env self) (queued (s.proxy.rpc.queues .drvrpcResp) + 1) s.proxy 0 =
      .ok (dressProxy proxy s.proxy.deviceEvent s.proxy.outside, 0) := by
    have dressed := runResponses_dress (v := v) local_ s.proxy.deviceEvent
      (queued (s.proxy.rpc.queues .drvrpcResp) + 1) (hushed s).proxy 0
    have same : runResponses v (rpcCallbacks plat env self) (queued (s.proxy.rpc.queues .drvrpcResp) + 1)
      (hushed s).proxy 0 = .ok (proxy, 0) := loops
    rw [same] at dressed
    have outside : proxy.outside = s.proxy.outside := alone
    rw [← outside]
    exact dressed
  obtain ⟨queue, events, remaining⟩ := runEvents_serves v plat env self event (queued s.proxy.deviceEvent + 1)
    (show Holding eventElement (dressProxy proxy s.proxy.deviceEvent s.proxy.outside).deviceEvent _ from posted)
    (by rw [queued_of_holding posted, List.length_map]; exact Nat.lt_succ_self _)
  refine ⟨dress { s with proxy } queue (serveCalls plat env self s.proxy.outside pending).1, ?_, rfl, remaining, at', ?_⟩
  · have run : rpcRun v (vmmCallbacks plat env self) s.proxy event =
        .ok (dressProxy proxy queue (serveCalls plat env self s.proxy.outside pending).1,
          (serveCalls plat env self s.proxy.outside pending).2.2) := by
      have first : runResponses v (handleMmio :: vmmCallbacks plat env self)
        (queued (s.proxy.rpc.queues .drvrpcResp) + 1) s.proxy 0 = .ok _ := responses
      unfold rpcRun
      dsimp only
      rw [first]
      exact events
    rw [Session.perform, run]
    rfl
  · exact sound_dress after (Ring.holding_init ..) _

end Runs

/-! ### The machine and the service -/

structure Host (P Handle : Type) where
  sessions : P → Session (Shared P Handle)
  vmm : VmmState P Handle

inductive HostOp (P Handle : Type) where
  /-- what happens to the requests of an io_proxy, and `rpc_run` of it -/
  | proxy (self : P) (env : Environment P Handle) (op : SessionOp)
  | call (self : P) (call : DeviceCall) (doorbell : Bool)

def Host.initial (vmm : VmmState P Handle) : Host P Handle where
  sessions _ := .initial ⟨vmm, false, 0⟩
  vmm

def Host.session (h : Host P Handle) (self : P) : Session (Shared P Handle) :=
  { h.sessions self with proxy := vmmOf (h.sessions self).proxy h.vmm }

def Host.perform (v : CasVariant) (plat : Option Plat) (h : Host P Handle) :
    HostOp P Handle → Except Fault (Host P Handle × Outcome)
  | .proxy self env op => do
      let (t, out) ← (h.session self).perform v (vmmCallbacks plat env self) op
      return (⟨Function.update h.sessions self t, t.proxy.outside.vmm⟩, out)
  | .call self call doorbell =>
      let s := h.sessions self
      match call.post v s.proxy.deviceEvent doorbell with
      | none => throw .stuck
      | some (deviceEvent, code) =>
          return ({ h with sessions := Function.update h.sessions self (dress s deviceEvent s.proxy.outside) }, .code code)

def Host.step (v : CasVariant) (plat : Option Plat) (h : Host P Handle) (op : HostOp P Handle) : Option (Host P Handle) :=
  match h.perform v plat op with
  | .ok (t, _) => some t
  | .error _ => none

/-- Requests are regular; any call may be posted at any time. -/
def Host.Admits (h : Host P Handle) : HostOp P Handle → Prop
  | .proxy self _ op => Regular (h.session self) op
  | .call _ _ _ => True

instance (h : Host P Handle) : (op : HostOp P Handle) → Decidable (h.Admits op)
  | .proxy self _ op => inferInstanceAs (Decidable (Regular (h.session self) op))
  | .call _ _ _ => .isTrue trivial

/-- What the backends know of the VMM: the calls that wait, whether the guest may run and how
often its start was signalled, and the state that all share. -/
structure Service (P Handle : Type) where
  pending : P → List DeviceCall
  okToRun : P → Bool
  started : P → Nat
  vmm : VmmState P Handle

def Service.initial (vmm : VmmState P Handle) : Service P Handle := ⟨fun _ => [], fun _ => false, fun _ => 0, vmm⟩

def Service.shared (s : Service P Handle) (self : P) : Shared P Handle := ⟨s.vmm, s.okToRun self, s.started self⟩

def Service.step (plat : Option Plat) (s : Service P Handle) : HostOp P Handle → Service P Handle × Option Int
  | .proxy self env (.run _) =>
      let (shared, rest, code) := serveCalls plat env self (s.shared self) (s.pending self)
      (⟨Function.update s.pending self rest, Function.update s.okToRun self shared.okToRun,
        Function.update s.started self shared.started, shared.vmm⟩, some code)
  | .proxy _ _ _ => (s, none)
  | .call self call doorbell =>
      if (s.pending self).length < 32 then
        ({ s with pending := Function.update s.pending self (s.pending self ++ [call]) }, some (vsoDoorbell doorbell))
      else (s, some (-1))

structure Backs (t : Session (Shared P Handle)) (pending : List DeviceCall) (okToRun : Bool) (started : Nat) : Prop where
  pending : Holding eventElement t.proxy.deviceEvent (pending.map DeviceCall.words)
  okToRun : t.proxy.outside.okToRun = okToRun
  started : t.proxy.outside.started = started
  requests : ∃ at_, Sound (hushed t) at_

structure Represents (h : Host P Handle) (s : Service P Handle) : Prop where
  vmm : h.vmm = s.vmm
  each : ∀ self, Backs (h.sessions self) (s.pending self) (s.okToRun self) (s.started self)

/-- The machine returns what the service does, where the service says something. -/
def Agrees (out : Outcome) (code : Option Int) : Prop := ∀ n, code = some n → out = .code n

section Machine
variable {v : CasVariant} {plat : Option Plat} {h : Host P Handle} {s : Service P Handle}

omit [DecidableEq P] [DecidableEq Handle] in
theorem represents_initial (vmm : VmmState P Handle) : Represents (Host.initial vmm) (Service.initial vmm) where
  vmm := rfl
  each _ := ⟨Ring.holding_init .., rfl, rfl, _, sound_initial _⟩

theorem Represents.call (represents : Represents h s) (v : CasVariant) (plat : Option Plat) (self : P) (call : DeviceCall)
    (doorbell : Bool) : ∃ next out, h.perform v plat (.call self call doorbell) = .ok (next, out) ∧
      Agrees out (s.step plat (.call self call doorbell)).2 ∧
      Represents next (s.step plat (.call self call doorbell)).1 := by
  obtain ⟨posted, okToRun, started, at_, sound⟩ := represents.each self
  rw [Host.perform, Service.step, post_eq]
  by_cases room : (s.pending self).length < 32
  · obtain ⟨queue, sent, holds⟩ := event_tx (v := v) posted (by rwa [List.length_map]) call.words.mr0 call.words.mr1
      call.words.mr2 call.words.mr3
    rw [sent, if_pos room]
    refine ⟨_, _, rfl, fun n same => by cases same; rfl, represents.vmm, fun other => ?_⟩
    dsimp only
    by_cases here : other = self
    · subst here
      rw [Function.update_self, Function.update_self]
      exact ⟨by rw [List.map_append]; exact holds, okToRun, started, at_, sound⟩
    · rw [Function.update_of_ne here, Function.update_of_ne here]
      exact represents.each other
  · have full : ((s.pending self).map DeviceCall.words).length = Ring.bufferSize :=
      Nat.le_antisymm posted.fits (by rw [List.length_map]; exact Nat.le_of_not_lt room)
    have unchanged : Function.update h.sessions self (dress (h.sessions self) (h.sessions self).proxy.deviceEvent
        (h.sessions self).proxy.outside) = h.sessions := Function.update_eq_self self h.sessions
    rw [event_tx_full posted full, if_neg room]
    refine ⟨_, _, rfl, fun n same => by cases same; rfl, ?_⟩
    dsimp only
    rw [unchanged]
    exact represents

theorem Represents.asks (represents : Represents h s) (v : CasVariant) (plat : Option Plat) (self : P)
    (env : Environment P Handle) (op : SessionOp) (asks : Asks op) (regular : Regular (h.session self) op) :
    ∃ next out, h.perform v plat (.proxy self env op) = .ok (next, out) ∧ Represents next s := by
  obtain ⟨posted, okToRun, started, at_, sound⟩ := represents.each self
  have quiet : Sound (dress (hushed (h.sessions self)) rpcmsgEventTxqInit (h.session self).proxy.outside) at_ :=
    sound_dress sound (Ring.holding_init ..) _
  obtain ⟨t, out, performed, at', after⟩ := quiet.perform v (vmmCallbacks plat env self)
    ((regular_dress rpcmsgEventTxqInit (h.session self).proxy.outside op).mpr regular)
  have dressed := perform_dress v (vmmCallbacks plat env self) (vmmCallbacks plat env self)
    (dress (hushed (h.sessions self)) rpcmsgEventTxqInit (h.session self).proxy.outside) asks
    (h.sessions self).proxy.deviceEvent (h.session self).proxy.outside
  rw [performed] at dressed
  have result : (h.session self).perform v (vmmCallbacks plat env self) op =
    .ok (dress t (h.sessions self).proxy.deviceEvent (h.session self).proxy.outside, out) := dressed
  refine ⟨⟨Function.update h.sessions self (dress t (h.sessions self).proxy.deviceEvent (h.session self).proxy.outside),
    h.vmm⟩, out, by rw [Host.perform, result]; rfl, represents.vmm, fun other => ?_⟩
  dsimp only
  by_cases here : other = self
  · subst here
    rw [Function.update_self]
    exact ⟨posted, okToRun, started, at', sound_dress after (Ring.holding_init ..) _⟩
  · rw [Function.update_of_ne here]
    exact represents.each other

theorem Represents.runs (represents : Represents h s) (v : CasVariant) (plat : Option Plat) (self : P)
    (env : Environment P Handle) (event : Msg) :
    ∃ next out, h.perform v plat (.proxy self env (.run event)) = .ok (next, out) ∧
      Agrees out (s.step plat (.proxy self env (.run event))).2 ∧
      Represents next (s.step plat (.proxy self env (.run event))).1 := by
  obtain ⟨posted, okToRun, started, at_, sound⟩ := represents.each self
  have shared : (h.session self).proxy.outside = s.shared self := by
    rw [Service.shared, ← represents.vmm, ← okToRun, ← started]
    rfl
  have hush : Sound (hushed (h.session self)) at_ := sound_dress sound (Ring.holding_init ..) _
  obtain ⟨t, performed, outside, waits, at', after⟩ := run_serves v plat env self hush posted event
  rw [shared] at performed outside waits
  refine ⟨⟨Function.update h.sessions self t, t.proxy.outside.vmm⟩, _, by rw [Host.perform, performed]; rfl,
    fun n same => by cases same; rfl, congrArg Shared.vmm outside, fun other => ?_⟩
  rw [Service.step]
  dsimp only
  by_cases here : other = self
  · subst here
    rw [Function.update_self, Function.update_self, Function.update_self, Function.update_self]
    exact ⟨waits, congrArg Shared.okToRun outside, congrArg Shared.started outside, at', after⟩
  · rw [Function.update_of_ne here, Function.update_of_ne here, Function.update_of_ne here, Function.update_of_ne here]
    exact represents.each other

theorem Represents.proxy (represents : Represents h s) (v : CasVariant) (plat : Option Plat) (self : P)
    (env : Environment P Handle) {op : SessionOp} (regular : Regular (h.session self) op) :
    ∃ next out, h.perform v plat (.proxy self env op) = .ok (next, out) ∧
      Agrees out (s.step plat (.proxy self env op)).2 ∧
      Represents next (s.step plat (.proxy self env op)).1 := by
  cases op with
  | run event => exact represents.runs v plat self env event
  | start req =>
    obtain ⟨next, out, performed, after⟩ := represents.asks v plat self env (.start req) trivial regular
    exact ⟨next, out, performed, nofun, after⟩
  | receive peer =>
    obtain ⟨next, out, performed, after⟩ := represents.asks v plat self env (.receive peer) trivial regular
    exact ⟨next, out, performed, nofun, after⟩
  | forward peer held =>
    obtain ⟨next, out, performed, after⟩ := represents.asks v plat self env (.forward peer held) trivial regular
    exact ⟨next, out, performed, nofun, after⟩
  | reply peer held data doorbell =>
    obtain ⟨next, out, performed, after⟩ :=
      represents.asks v plat self env (.reply peer held data doorbell) trivial regular
    exact ⟨next, out, performed, nofun, after⟩

theorem Represents.step (represents : Represents h s) (v : CasVariant) (plat : Option Plat) {op : HostOp P Handle}
    (admits : h.Admits op) : ∃ next out, h.perform v plat op = .ok (next, out) ∧ Agrees out (s.step plat op).2 ∧
      Represents next (s.step plat op).1 := by
  cases op with
  | proxy self env op => exact represents.proxy v plat self env admits
  | call self call doorbell => exact represents.call v plat self call doorbell

theorem Represents.run (represents : Represents h s) {ops : List (HostOp P Handle)} {host : Host P Handle}
    (ran : execute (guarded (Host.step v plat) Host.Admits) h ops = some host) :
    Represents host (ops.foldl (fun s op => (s.step plat op).1) s) := by
  induction ops generalizing h s with
  | nil =>
    cases ran
    exact represents
  | cons op rest ih =>
    obtain ⟨middle, edge, later⟩ := Option.bind_eq_some_iff.mp ran
    obtain ⟨admits, edge⟩ := Option.ite_none_right_eq_some.mp edge
    obtain ⟨next, out, performed, _, after⟩ := represents.step v plat admits
    rw [Host.step, performed] at edge
    cases edge
    exact ih after later

end Machine

/-- In every run, with the requests of the guest and the calls of all backends in any order,
the VMM does what the service does: calls of a backend are queued as long as fewer than 32
wait, none is lost, repeated or served out of order, each is served on the state the last one
left, and a failed one leaves those behind it for the next run. Every operation returns. -/
theorem device_calls_served (v : CasVariant) (plat : Option Plat) (vmm : VmmState P Handle)
    (ops : List (HostOp P Handle)) (host : Host P Handle)
    (ran : execute (guarded (Host.step v plat) Host.Admits) (Host.initial vmm) ops = some host) :
    Represents host (ops.foldl (fun s op => (s.step plat op).1) (Service.initial vmm)) ∧
    ∀ op, host.Admits op → ∃ next out, host.perform v plat op = .ok (next, out) ∧
      Agrees out ((ops.foldl (fun s op => (s.step plat op).1) (Service.initial vmm)).step plat op).2 := by
  have represents := (represents_initial vmm).run ran
  refine ⟨represents, fun op admits => ?_⟩
  obtain ⟨next, out, performed, agrees, _⟩ := represents.step v plat admits
  exact ⟨next, out, performed, agrees⟩

def roomy : Environment Bool Nat := fun _ =>
  ⟨true, 0, fun _ _ => true, ⟨some 0, true, 0, 0⟩, ⟨true, some (2#8, 0#8), fun _ => true⟩⟩

/-- Two backends post calls, a request of the guest is on its way, and the first backend is served once. -/
def twoBackends : List (HostOp Bool Nat) :=
  [.call true (.createVpciDevice 3#64) true, .call false (.pulseIrqline 150#64) true, .call true (.setIrqline 3#64) true,
    .proxy true roomy (.start ⟨3#32, .ioackVcpuRead, .ioackVcpuWrite, 100#64, 255#32, 0#32, 4096#64, 4#64, 0#64⟩),
    .proxy true roomy (.run Msg.zero), .call true .startVm true]

theorem twoBackends_run : (execute (guarded (Host.step .user (some .rpi4)) Host.Admits) (Host.initial quiet)
    twoBackends).map (fun host => (host.vmm.pci.driven, host.vmm.msi.driven)) = some ([(66#32, true)], []) := by
  decide +kernel

theorem device_calls_served_two : ∃ host, execute (guarded (Host.step .user (some .rpi4)) Host.Admits)
    (Host.initial quiet) twoBackends = some host ∧ host.vmm.pci.driven = [(66#32, true)] ∧
    Represents host (twoBackends.foldl (fun s op => (s.step (some .rpi4) op).1) (Service.initial quiet)) := by
  obtain ⟨host, ran, shape⟩ := Option.map_eq_some_iff.mp twoBackends_run
  exact ⟨host, ran, congrArg Prod.fst shape, (device_calls_served .user (some .rpi4) quiet twoBackends host ran).1⟩

end Virtioso.Vmm
