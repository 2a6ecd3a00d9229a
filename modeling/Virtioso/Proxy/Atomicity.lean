import Virtioso.Proxy.Session
import Virtioso.Rpc.Cleanup

/-! Requests that `ioreq_start` could not send.

The callback is installed before the message is sent. Each layer below reports its
failures and undoes what it did itself; the callback, and a message that was queued
before the doorbell failed, stay.
-/

set_option autoImplicit false

namespace Virtioso.Proxy

open Virtioso.Ring Rpc

variable {W : Type} {v : CasVariant} {proxy done : IoProxy W} {req : IoReq} {code : Int}

def Idle (proxy : IoProxy W) (req : IoReq) : Prop :=
  ∀ slot : Fin ioacksSize, slot.val = req.slot.toNat → (proxy.ioacks slot).callback = none

instance (proxy : IoProxy W) (req : IoReq) : Decidable (Idle proxy req) :=
  inferInstanceAs (Decidable (∀ _ : Fin ioacksSize, _))

instance (rpc : Queue RingIds) : Decidable (Full rpc) := inferInstanceAs (Decidable (_ = _))

/-- Nothing is left of a request that failed: neither callback, message nor buffer, so
that the slot can be used again and no response can arrive. -/
structure Unbegun (v : CasVariant) (proxy done : IoProxy W) (req : IoReq) : Prop where
  ioacks : done.ioacks = proxy.ioacks
  queue : done.rpc.queues .drvrpcReq = proxy.rpc.queues .drvrpcReq
  lent : ∀ msg, done.rpc.bufferState.lent msg = true → proxy.rpc.bufferState.lent msg = true
  again : ∀ later : IoReq, later.slot = req.slot → later.size.toNat ≤ 8 →
    ioreqStart v done later ≠ .error .assertion
  unsent : inFlight done.rpc = inFlight proxy.rpc

/-- What a call of `ioreq_start` that returns an error leaves behind. -/
def AtomicStart (v : CasVariant) (proxy : IoProxy W) (req : IoReq) : Prop :=
  ∀ done code, ioreqStart v proxy req = .ok (done, code) → code ≠ 0 → Unbegun v proxy done req

def IoProxy.install (proxy : IoProxy W) (slot : Fin ioacksSize) (req : IoReq) : IoProxy W :=
  { proxy with ioacks := Function.update proxy.ioacks slot req.ioack }

section Start
variable {rpc : System}

theorem start_outside (size : req.size.toNat ≤ 8) (outside : ¬req.slot.toNat < ioacksSize) :
    ioreqStart v proxy req = .ok (proxy, -1) := by
  rw [ioreqStart, if_neg (not_not.mpr size), dif_neg outside]
  rfl

/-- On a free slot the callback is installed, and what the rpc does decides. -/
theorem start_inside (size : req.size.toNat ≤ 8) (inside : req.slot.toNat < ioacksSize) (idle : Idle proxy req) :
    ioreqStart v proxy req =
      (proxy.rpc.request v req.words.mr0 req.offset req.val 0#64).bind fun (rpc, err) =>
        .ok ({ proxy.install ⟨req.slot.toNat, inside⟩ req with rpc },
          if err < 0 then err else vsoDoorbell proxy.doorbell) := by
  rw [ioreqStart, if_neg (not_not.mpr size), dif_pos inside, if_neg (not_not.mpr (idle _ rfl))]
  simp only [driverRpcReqMmioStart, driverRpcRequest, IoReq.words, bind]
  cases proxy.rpc.request v _ _ _ _ with
  | error fault => rfl
  | ok result =>
    obtain ⟨rpc, err⟩ := result
    by_cases failed : err < 0
    · simp only [Except.bind, if_pos failed]
      rfl
    · simp only [Except.bind, if_neg failed]
      rfl

theorem start_of_request (size : req.size.toNat ≤ 8) (inside : req.slot.toNat < ioacksSize) (idle : Idle proxy req)
    (requested : proxy.rpc.request v req.words.mr0 req.offset req.val 0#64 = .ok (rpc, code)) :
    ioreqStart v proxy req = .ok ({ proxy.install ⟨req.slot.toNat, inside⟩ req with rpc },
      if code < 0 then code else vsoDoorbell proxy.doorbell) := by
  rw [start_inside size inside idle, requested]
  rfl

theorem install_not_unbegun {slot : Fin ioacksSize} (idle : Idle proxy req) (here : slot.val = req.slot.toNat) :
    ¬Unbegun v proxy { proxy.install slot req with rpc } req := by
  intro unbegun
  have entry := congrFun unbegun.ioacks slot
  have installed : (proxy.install slot req).ioacks slot = req.ioack := Function.update_self ..
  have free := idle slot here
  rw [← entry] at free
  exact absurd ((congrArg Ioack.callback installed).symm.trans free) (by simp [IoReq.ioack])

end Start

section Request
variable {s : System} {mr0 mr1 mr2 mr3 : BitVec 64}

theorem system_waits (some_ : ¬Exhausted s.bufferState)
    (far : ¬Near (s.queues .drvrpcReq) .prod (s.queues .drvrpcReq).prod.tail) :
    s.request v mr0 mr1 mr2 mr3 = .error .stuck := by
  let words : Msg := ⟨mr0, mr1, mr2, mr3⟩
  have waits : rpcmsgRequest v (s.queues .drvrpcReq) s.buffer s.bufferState words.mr0 words.mr1 words.mr2 words.mr3 =
      .error .stuck := request_waits some_ far
  rw [System.request, waits]
  rfl

theorem system_refused (some_ : ¬Exhausted s.bufferState)
    (near : Near (s.queues .drvrpcReq) .prod (s.queues .drvrpcReq).prod.tail) (full : Full (s.queues .drvrpcReq)) :
    ∃ t code, s.request v mr0 mr1 mr2 mr3 = .ok (t, code) ∧ code < 0 := by
  obtain ⟨done, returns, refused⟩ := request_refused v s.buffer ⟨mr0, mr1, mr2, mr3⟩ some_ near full
  exact ⟨s.store done, done.code, System.request_refused returns refused.code, refused.code⟩

theorem system_accepted (some_ : ¬Exhausted s.bufferState)
    (near : Near (s.queues .drvrpcReq) .prod (s.queues .drvrpcReq).prod.tail) (room : ¬Full (s.queues .drvrpcReq)) :
    ∃ t code, s.request v mr0 mr1 mr2 mr3 = .ok (t, code) ∧ ¬code < 0 := by
  obtain ⟨done, msg, returns, accepted⟩ := request_accepted v s.buffer ⟨mr0, mr1, mr2, mr3⟩ some_ near room
  have positive : ¬done.code < 0 := by
    rw [accepted.code]
    omega
  exact ⟨s.issue done, done.code, System.request_issued returns positive, positive⟩

end Request

theorem AtomicStart.succeeds (atomic : AtomicStart v proxy req) (size : req.size.toNat ≤ 8)
    (inside : req.slot.toNat < ioacksSize) (idle : Idle proxy req) {rpc : System}
    (requested : proxy.rpc.request v req.words.mr0 req.offset req.val 0#64 = .ok (rpc, code)) :
    (if code < 0 then code else vsoDoorbell proxy.doorbell) = 0 := by
  by_contra failed
  exact install_not_unbegun idle rfl (atomic _ _ (start_of_request size inside idle requested) failed)

theorem AtomicStart.needs (atomic : AtomicStart v proxy req) (size : req.size.toNat ≤ 8)
    (inside : req.slot.toNat < ioacksSize) (idle : Idle proxy req) (some_ : ¬Exhausted proxy.rpc.bufferState)
    (near : Near (proxy.rpc.queues .drvrpcReq) .prod (proxy.rpc.queues .drvrpcReq).prod.tail) :
    ¬Full (proxy.rpc.queues .drvrpcReq) ∧ proxy.doorbell = true := by
  have room : ¬Full (proxy.rpc.queues .drvrpcReq) := by
    intro full
    obtain ⟨rpc, code, requested, failed⟩ := system_refused (v := v) some_ near full
    have returns := atomic.succeeds size inside idle requested
    rw [if_pos failed] at returns
    omega
  obtain ⟨rpc, code, requested, sent⟩ := system_accepted (v := v) some_ near room
  have returns := atomic.succeeds size inside idle requested
  rw [if_neg sent] at returns
  refine ⟨room, ?_⟩
  by_contra missing
  rw [vsoDoorbell, if_neg missing] at returns
  exact absurd returns (by decide)

theorem atomic_outside (size : req.size.toNat ≤ 8) (outside : ¬req.slot.toNat < ioacksSize) :
    AtomicStart v proxy req := by
  intro done code returns failed
  rw [start_outside size outside] at returns
  cases returns
  refine ⟨rfl, rfl, fun _ lent => lent, fun later same small => ?_, rfl⟩
  rw [start_outside small (same ▸ outside)]
  exact fun stops => by cases stops

/-- An error of `ioreq_start` leaves nothing behind if and only if it concerns a slot
outside the table; on the slots of the table the request must find room in its queue and
a doorbell, or wait for enqueues in flight. -/
theorem ioreq_start_atomic_iff (v : CasVariant) (proxy : IoProxy W) (req : IoReq) (size : req.size.toNat ≤ 8)
    (idle : Idle proxy req) (free : ∃ msg, proxy.rpc.bufferState.lent msg = false) :
    AtomicStart v proxy req ↔
      (req.slot.toNat < ioacksSize →
        Near (proxy.rpc.queues .drvrpcReq) .prod (proxy.rpc.queues .drvrpcReq).prod.tail →
        ¬Full (proxy.rpc.queues .drvrpcReq) ∧ proxy.doorbell = true) := by
  have some_ : ¬Exhausted proxy.rpc.bufferState := by
    obtain ⟨msg, free⟩ := free
    intro exhausted
    rw [exhausted msg] at free
    cases free
  constructor
  · intro atomic inside near
    exact atomic.needs size inside idle some_ near
  · intro ready
    by_cases inside : req.slot.toNat < ioacksSize
    · intro done code returns failed
      by_cases near : Near (proxy.rpc.queues .drvrpcReq) .prod (proxy.rpc.queues .drvrpcReq).prod.tail
      · -- the request is sent, and the call succeeds
        obtain ⟨room, doorbell⟩ := ready inside near
        obtain ⟨rpc, sent, requested, positive⟩ := system_accepted (v := v) some_ near room
        rw [start_of_request size inside idle requested, if_neg positive, vsoDoorbell, if_pos doorbell] at returns
        cases returns
        exact absurd rfl failed
      · rw [start_inside size inside idle, system_waits some_ near] at returns
        cases returns
    · exact atomic_outside size inside

def withoutDoorbell : IoProxy Unit := { (Session.initial ()).proxy with doorbell := false }

def firstRead : IoReq := ⟨0#32, .ioackVcpuRead, .ioackVcpuWrite, 0#64, asGlobal, sel4IoDirRead, 0x1000#64, 4#64, 0#64⟩

theorem ioreq_start_atomic_ready : AtomicStart .user (Session.initial ()).proxy firstRead :=
  (ioreq_start_atomic_iff .user (Session.initial ()).proxy firstRead (by decide) (by decide)
    ⟨0, lent_init⟩).mpr fun _ _ => ⟨by decide, rfl⟩

/-- The call returns -1 with its message queued and its callback installed. -/
theorem ioreq_start_not_atomic : ¬∀ (v : CasVariant) (proxy : IoProxy Unit) (req : IoReq), req.size.toNat ≤ 8 →
    Idle proxy req → (∃ msg, proxy.rpc.bufferState.lent msg = false) → AtomicStart v proxy req := by
  intro atomic
  have free : withoutDoorbell.rpc.bufferState.lent 0 = false := lent_init
  have some_ : ¬Exhausted withoutDoorbell.rpc.bufferState := fun exhausted => by simp [exhausted 0] at free
  have started := atomic .user withoutDoorbell firstRead (by decide) (by decide) ⟨0, free⟩
  have ready := started.needs (by decide) (by decide) (by decide) some_ (by decide)
  exact absurd ready.2 (by decide)

end Virtioso.Proxy
