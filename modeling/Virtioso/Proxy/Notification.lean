import Virtioso.Proxy.Dispatch
import Virtioso.Ring.Threads

/-! Backend threads, the doorbell and the frontend's notification callback.

The response queue and the event queue are taken access by access; between the
accesses stand the doorbell, which sets one flag, and the callback, which registers
itself again and empties the two queues one after the other. The handlers of the
messages succeed, and touch neither queue.
-/

set_option autoImplicit false

namespace Virtioso.Proxy

open Foundation Virtioso.Ring Rpc

/-- The queues that `rpc_run` empties, in its order. -/
inductive Channel where
  | responses
  | events
  deriving DecidableEq, Repr

abbrev Channel.Store : Channel → Type
  | .responses => RingIds
  | .events => EventStore

abbrev Channel.Data : Channel → Type
  | .responses => MsgPtr
  | .events => Msg

def Channel.element : (c : Channel) → ElementFns c.Store c.Data c.Data
  | .responses => rpcElement
  | .events => eventElement

def Channel.zeroed : (c : Channel) → c.Store
  | .responses => fun _ => 0#16
  | .events => ⟨fun _ => 0#16, fun _ => Msg.zero⟩

inductive Agent (ι : Type) where
  | frontend
  | backend (i : ι)
  deriving DecidableEq

/-- A backend thread is outside, or in a send: in the enqueue or before its doorbell. -/
inductive BackPoint where
  | resting
  | sending (c : Channel)
  deriving DecidableEq, Repr

inductive FrontPoint where
  | idle
  | register
  | loop (c : Channel)
  deriving DecidableEq, Repr

structure Wakeup (ι : Type) where
  rings : (c : Channel) → State (Agent ι) c.Store c.Data c.Data
  backend : ι → BackPoint
  front : FrontPoint
  /-- the notification is set -/
  pending : Bool
  /-- a callback is registered -/
  registered : Bool

inductive WakeAction (ι : Type) where
  /-- `driver_rpc_reply` or `device_event_tx` is called -/
  | send (i : ι) (c : Channel) (data : c.Data)
  | backend (i : ι)
  /-- `io_proxy_run` is called -/
  | run
  | front

variable {ι : Type}

def driverRpcReplyCall (i : ι) (msg : MsgPtr) : WakeAction ι := .send i .responses msg

def deviceEventTxCall (i : ι) (op : BitVec 32) (mr0 mr1 mr2 mr3 : BitVec 64) : WakeAction ι :=
  .send i .events ⟨rpcMr0Op.set mr0 (op.setWidth 64), mr1, mr2, mr3⟩

def Wakeup.initial : Wakeup ι where
  rings c := .initial c.zeroed
  backend _ := .resting
  front := .idle
  pending := false
  registered := false

section Steps
variable [DecidableEq ι]

def Wakeup.setBackend (s : Wakeup ι) (i : ι) (p : BackPoint) : Wakeup ι :=
  { s with backend := Function.update s.backend i p }

def Wakeup.ringStep (v : CasVariant) (s : Wakeup ι) (c : Channel) (a : Action (Agent ι) c.Data) :
    Option (Wakeup ι) :=
  (Ring.step v c.element (s.rings c) a).map fun r => { s with rings := Function.update s.rings c r }

def Wakeup.enter (v : CasVariant) (s : Wakeup ι) (c : Channel) : Option (Wakeup ι) :=
  (s.ringStep v c (.invoke .frontend .dequeue)).map fun s => { s with front := .loop c }

/-- A backend thread returns the error of its enqueue, or rings the doorbell. -/
def Wakeup.stepBackend (v : CasVariant) (s : Wakeup ι) (i : ι) : Option (Wakeup ι) :=
  match s.backend i with
  | .resting => none
  | .sending c =>
      match (s.rings c).point (.backend i) with
      | .returned .refused => some (s.setBackend i .resting)
      | .returned _ => some { s.setBackend i .resting with pending := true }
      | _ => s.ringStep v c (.access (.backend i))

/-- A pending notification invokes a registered callback once. -/
def Wakeup.stepFront (v : CasVariant) (s : Wakeup ι) : Option (Wakeup ι) :=
  match s.front with
  | .idle =>
      if s.pending && s.registered then
        some { s with pending := false, registered := false, front := .register }
      else none
  | .register => { s with registered := true }.enter v .responses
  | .loop c =>
      match (s.rings c).point .frontend with
      | .returned .refused =>
          match c with
          | .responses => s.enter v .events
          | .events => some { s with front := .idle }
      | .returned _ => s.enter v c
      | _ => s.ringStep v c (.access .frontend)

def Wakeup.step (v : Agent ι → CasVariant) (s : Wakeup ι) : WakeAction ι → Option (Wakeup ι)
  | .send i c data =>
      if s.backend i = .resting then
        (s.ringStep (v (.backend i)) c (.invoke (.backend i) (.enqueue data))).map fun s =>
          s.setBackend i (.sending c)
      else none
  | .backend i => s.stepBackend (v (.backend i)) i
  | .run => if s.front = .idle then some { s with front := .register } else none
  | .front => s.stepFront (v .frontend)

end Steps

def Wakeup.queueOf (s : Wakeup ι) : WakeAction ι → Option (Channel × Agent ι)
  | .backend i =>
      match s.backend i with
      | .resting => none
      | .sending c => some (c, .backend i)
  | .front =>
      match s.front with
      | .idle | .register => none
      | .loop c => some (c, .frontend)
  | .send _ _ _ | .run => none

/-- No acquire meets a tail that was updated `2 ^ 32` times since it was loaded. -/
def WindowedWake [DecidableEq ι] (s : Wakeup ι) (a : WakeAction ι) : Prop :=
  ∀ c agent, s.queueOf a = some (c, agent) → Windowed (s.rings c) (.access agent)

def Wakeup.Unannounced (s : Wakeup ι) (i : ι) (c : Channel) : Prop :=
  s.backend i = .sending c ∧ ∃ value, (s.rings c).point (.backend i) = .returned value ∧ value ≠ .refused

/-- No notification is pending, no callback is in progress, and no backend thread is
between acquiring its entry and ringing its doorbell. -/
structure Wakeup.Calm (s : Wakeup ι) : Prop where
  pending : s.pending = false
  front : s.front = .idle
  flight : ∀ i c, ((s.rings c).point (.backend i)).inFlight = none
  announced : ∀ i c, ¬s.Unannounced i c

end Virtioso.Proxy
