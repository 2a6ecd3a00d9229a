import Virtioso.Foundation.Refinement
import Virtioso.Ring.Fifo

/-! The event queue: fire-and-forget messages of four words.

Calls of `rpcmsg_event_tx` and `rpcmsg_event_rx`, one complete call at a time, are
those of a list that holds at most as many messages as the ring has slots.
-/

set_option autoImplicit false

namespace Virtioso.Rpc

open Foundation Virtioso.Ring

def Msg.zero : Msg := ⟨0#64, 0#64, 0#64, 0#64⟩

/-- `rpcmsg_event_txq_init`: markers, ring and message table are zeroed. -/
def rpcmsgEventTxqInit : Queue EventStore :=
  rpcmsgQueueInit ⟨fun _ => 0#16, fun _ => Msg.zero⟩

/-- `rpcmsg_event_tx`: the queue after the call and the return code. -/
def rpcmsgEventTx (v : CasVariant) (eq : Queue EventStore) (mr0 mr1 mr2 mr3 : BitVec 64) :
    Option (Queue EventStore × Int) :=
  match complete v eventElement eq (.enqueue ⟨mr0, mr1, mr2, mr3⟩) with
  | some (eq, .refused) => some (eq, -1)
  | some (eq, _) => some (eq, 0)
  | none => none

/-- `rpcmsg_event_rx`: the queue after the call, the return code and the caller's message. -/
def rpcmsgEventRx (v : CasVariant) (eq : Queue EventStore) (msg : Msg) :
    Option (Queue EventStore × Int × Msg) :=
  match complete v eventElement eq .dequeue with
  | some (eq, .dequeued received) => some (eq, 0, received)
  | some (eq, _) => some (eq, -1, msg)
  | none => none

inductive EventCall where
  | tx (mr0 mr1 mr2 mr3 : BitVec 64)
  | rx (msg : Msg)
  deriving DecidableEq, Repr

/-- The return code, and for `rpcmsg_event_rx` the caller's message afterwards. -/
structure EventReturn where
  code : Int
  msg : Option Msg
  deriving DecidableEq, Repr

def eventStep (v : CasVariant) (eq : Queue EventStore) : EventCall → Option (Queue EventStore × EventReturn)
  | .tx mr0 mr1 mr2 mr3 => (rpcmsgEventTx v eq mr0 mr1 mr2 mr3).map fun (eq, code) => (eq, ⟨code, none⟩)
  | .rx msg => (rpcmsgEventRx v eq msg).map fun (eq, code, msg) => (eq, ⟨code, some msg⟩)

/-- The same call on a list of at most `capacity` messages. -/
def fifoStep (capacity : Nat) (contents : List Msg) : EventCall → List Msg × EventReturn
  | .tx mr0 mr1 mr2 mr3 =>
      if contents.length < capacity then (contents ++ [⟨mr0, mr1, mr2, mr3⟩], ⟨0, none⟩)
      else (contents, ⟨-1, none⟩)
  | .rx msg =>
      match contents with
      | [] => ([], ⟨-1, some msg⟩)
      | oldest :: rest => (rest, ⟨0, some oldest⟩)

variable {v : CasVariant} {eq : Queue EventStore} {contents : List Msg}

theorem event_tx (holding : Holding eventElement eq contents) (room : contents.length < bufferSize)
    (mr0 mr1 mr2 mr3 : BitVec 64) : ∃ next, rpcmsgEventTx v eq mr0 mr1 mr2 mr3 = some (next, 0) ∧
      Holding eventElement next (contents ++ [⟨mr0, mr1, mr2, mr3⟩]) := by
  obtain ⟨next, returns, keeps⟩ := holding.enqueue (v := v) room ⟨mr0, mr1, mr2, mr3⟩
  refine ⟨next, ?_, keeps⟩
  unfold rpcmsgEventTx
  rw [returns]

theorem event_tx_full (holding : Holding eventElement eq contents) (full : contents.length = bufferSize)
    (mr0 mr1 mr2 mr3 : BitVec 64) : rpcmsgEventTx v eq mr0 mr1 mr2 mr3 = some (eq, -1) := by
  unfold rpcmsgEventTx
  rw [holding.enqueue_full full]

theorem event_rx {oldest : Msg} (holding : Holding eventElement eq (oldest :: contents)) (msg : Msg) :
    ∃ next, rpcmsgEventRx v eq msg = some (next, 0, oldest) ∧ Holding eventElement next contents := by
  obtain ⟨next, returns, keeps⟩ := holding.dequeue (v := v)
  refine ⟨next, ?_, keeps⟩
  unfold rpcmsgEventRx
  rw [returns]
  rfl

theorem event_rx_empty (holding : Holding eventElement eq []) (msg : Msg) :
    rpcmsgEventRx v eq msg = some (eq, -1, msg) := by
  unfold rpcmsgEventRx
  rw [holding.dequeue_empty]

theorem tx_simulates (holding : Holding eventElement eq contents) (mr0 mr1 mr2 mr3 : BitVec 64) :
    ∃ next, eventStep v eq (.tx mr0 mr1 mr2 mr3) =
        some (next, (fifoStep bufferSize contents (.tx mr0 mr1 mr2 mr3)).2) ∧
      Holding eventElement next (fifoStep bufferSize contents (.tx mr0 mr1 mr2 mr3)).1 ∧
      (contents.length = bufferSize → next = eq) := by
  by_cases room : contents.length < bufferSize
  · obtain ⟨next, returns, keeps⟩ := event_tx (v := v) holding room mr0 mr1 mr2 mr3
    refine ⟨next, ?_, ?_, fun full => absurd full (Nat.ne_of_lt room)⟩
    · simp only [eventStep, returns, Option.map_some, fifoStep, if_pos room]
    · simp only [fifoStep, if_pos room]
      exact keeps
  · have full : contents.length = bufferSize := Nat.le_antisymm holding.fits (Nat.le_of_not_lt room)
    refine ⟨eq, ?_, ?_, fun _ => rfl⟩
    · simp only [eventStep, event_tx_full holding full, Option.map_some, fifoStep, if_neg room]
    · simp only [fifoStep, if_neg room]
      exact holding

theorem rx_simulates (holding : Holding eventElement eq contents) (msg : Msg) :
    ∃ next, eventStep v eq (.rx msg) = some (next, (fifoStep bufferSize contents (.rx msg)).2) ∧
      Holding eventElement next (fifoStep bufferSize contents (.rx msg)).1 ∧ (contents = [] → next = eq) := by
  cases contents with
  | nil =>
    refine ⟨eq, ?_, holding, fun _ => rfl⟩
    simp only [eventStep, event_rx_empty holding, Option.map_some, fifoStep]
  | cons oldest rest =>
    obtain ⟨next, returns, keeps⟩ := event_rx (v := v) holding msg
    refine ⟨next, ?_, keeps, fun empty => by cases empty⟩
    simp only [eventStep, returns, Option.map_some, fifoStep]

theorem event_simulates (v : CasVariant) : Simulates (eventStep v) (fifoStep bufferSize)
    (Holding eventElement) := by
  intro eq contents call holding
  cases call with
  | tx mr0 mr1 mr2 mr3 =>
    obtain ⟨next, returns, keeps, _⟩ := tx_simulates (v := v) holding mr0 mr1 mr2 mr3
    exact ⟨next, returns, keeps⟩
  | rx msg =>
    obtain ⟨next, returns, keeps, _⟩ := rx_simulates (v := v) holding msg
    exact ⟨next, returns, keeps⟩

/-- A call that returns -1 changes nothing: neither the queue nor the caller's message. -/
theorem event_refused (holding : Holding eventElement eq contents) {call : EventCall} {next : Queue EventStore}
    {out : EventReturn} (returns : eventStep v eq call = some (next, out)) (refused : out.code = -1) :
    next = eq ∧ ∀ msg, call = .rx msg → out.msg = some msg := by
  cases call with
  | tx mr0 mr1 mr2 mr3 =>
    obtain ⟨same, run, _, unchanged⟩ := tx_simulates (v := v) holding mr0 mr1 mr2 mr3
    obtain ⟨rfl, rfl⟩ := Prod.mk.inj (Option.some.inj (returns.symm.trans run))
    refine ⟨unchanged ?_, fun msg call => by cases call⟩
    by_contra room
    have below : contents.length < bufferSize := Nat.lt_of_le_of_ne holding.fits room
    simp [fifoStep, below] at refused
  | rx msg =>
    obtain ⟨same, run, _, unchanged⟩ := rx_simulates (v := v) holding msg
    obtain ⟨rfl, rfl⟩ := Prod.mk.inj (Option.some.inj (returns.symm.trans run))
    cases contents with
    | nil =>
      refine ⟨unchanged rfl, fun other call => ?_⟩
      cases call
      rfl
    | cons oldest rest => simp [fifoStep] at refused

/-- Every sequence of complete calls returns, with exactly the returns of a list of
capacity 32; and whatever call follows, a -1 leaves queue and message as they were. -/
theorem event_queue_refines_fifo (v : CasVariant) (calls : List EventCall) :
    ∃ eq, runCalls (eventStep v) rpcmsgEventTxqInit calls =
        some (eq, (runSpec (fifoStep 32) [] calls).2) ∧
      ∀ call next out, eventStep v eq call = some (next, out) → out.code = -1 →
        next = eq ∧ ∀ msg, call = .rx msg → out.msg = some msg := by
  obtain ⟨eq, returns, holding⟩ :=
    (event_simulates v).run (holding_init eventElement _) calls
  exact ⟨eq, returns, fun _ _ _ run refused => event_refused holding run refused⟩

end Virtioso.Rpc
