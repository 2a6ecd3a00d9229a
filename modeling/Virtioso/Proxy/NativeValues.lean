import Virtioso.Proxy.Atomicity
import Virtioso.Proxy.Completion
import Virtioso.Proxy.NativeSlots
import Virtioso.Proxy.RoundTrip

/-! Values of native requests.

All requests of a thread share the record it keeps in thread-local storage. The callback
of a read writes the value of the record, that of a write does not; the wait hands the
value to the caller of either.
-/

set_option autoImplicit false

namespace Virtioso.Proxy

open Foundation
open Virtioso.Ring (CasVariant Msg)
open Rpc (Fault)

/-- `ioreq_native_t`, with the count of its semaphore. -/
structure IoreqNative where
  slot : Nat
  handoff : Nat
  value : BitVec 64
  deriving DecidableEq, Repr

def IoreqNative.initial : IoreqNative := ⟨0, 0, 0#64⟩

/-- `ioreq_native_slot`, with the return code of `sync_sem_new`: `free_native_slot`, the record
and the result. -/
def ioreqNativeSlot (semNew : Int) (freeNativeSlot : Nat) (native : IoreqNative) : Nat × IoreqNative × Int :=
  if native.slot ≠ 0 then (freeNativeSlot, native, native.slot)
  else if semNew ≠ 0 then (freeNativeSlot, native, -1)
  else
    let native := { native with handoff := 0 }
    if freeNativeSlot ≥ ioacksSize then (freeNativeSlot, native, -1)
    else (freeNativeSlot + 1, { native with slot := freeNativeSlot }, freeNativeSlot)

/-- `ioack_native_read`. -/
def ioackNativeRead (data : BitVec 64) (native : IoreqNative) : IoreqNative :=
  { native with value := data, handoff := native.handoff + 1 }

/-- `ioack_native_write`. -/
def ioackNativeWrite (native : IoreqNative) : IoreqNative :=
  { native with handoff := native.handoff + 1 }

def IoackCall.acknowledge (native : IoreqNative) (call : IoackCall) : IoreqNative :=
  match call.callback with
  | .ioackNativeRead => ioackNativeRead call.data native
  | .ioackNativeWrite => ioackNativeWrite native
  | .ioackVcpuRead | .ioackVcpuWrite => native

/-- `ioreq_native_wait`: the record, `*value` and the result, or `none` while the thread sleeps. -/
def ioreqNativeWait (native : IoreqNative) : Option (IoreqNative × BitVec 64 × Int) :=
  if native.handoff = 0 then none
  else some ({ native with handoff := native.handoff - 1 }, native.value, 0)

variable {W : Type}

/-- The arguments of `ioreq_native`, with the io_proxy and `*value` as the call finds them. -/
structure NativeReq (W : Type) where
  ioProxy : IoProxy W
  addrSpace : BitVec 32
  direction : BitVec 32
  addr : BitVec 64
  size : BitVec 64
  value : BitVec 64

/-- The request that `ioreq_native` starts on its slot. -/
def NativeReq.start (req : NativeReq W) (cookie : Cookie) (slot : Int) : IoReq :=
  ⟨BitVec.ofInt 32 slot, .ioackNativeRead, .ioackNativeWrite, cookie, req.addrSpace, req.direction, req.addr,
    req.size, req.value⟩

/-- What a call meets: the return code of `sync_sem_new`, `free_native_slot`, what the other
threads do to the io_proxy until the response, and the response. -/
structure Meanwhile (W : Type) where
  semNew : Int
  freeNativeSlot : Nat
  others : IoProxy W → IoProxy W
  response : Msg

structure NativeEnd (W : Type) where
  freeNativeSlot : Nat
  ioProxy : IoProxy W
  native : IoreqNative
  value : BitVec 64
  result : Int

/-- The record at the address `cookie`, after the calls of callbacks that `after` has more. -/
def IoreqNative.acknowledged (native : IoreqNative) (cookie : Cookie) (before after : IoProxy W) : IoreqNative :=
  ((after.calls.drop before.calls.length).filter (·.cookie = cookie)).foldl IoackCall.acknowledge native

/-- `ioreq_native` of the thread with this record at the address `cookie`. -/
def ioreqNative (v : CasVariant) (cookie : Cookie) (native : IoreqNative) (req : NativeReq W)
    (meanwhile : Meanwhile W) : Except Fault (NativeEnd W) := do
  let (freeNativeSlot, native, slot) := ioreqNativeSlot meanwhile.semNew meanwhile.freeNativeSlot native
  if slot < 0 then return ⟨freeNativeSlot, req.ioProxy, native, req.value, -1⟩
  else
    let (ioProxy, err) ← ioreqStart v req.ioProxy (req.start cookie slot)
    if err < 0 then return ⟨freeNativeSlot, ioProxy, native, req.value, -1⟩
    else
      match ioreqNativeWait native with
      | some (native, value, err) => return ⟨freeNativeSlot, ioProxy, native, value, if err ≠ 0 then -1 else 0⟩
      | none =>
          -- the thread sleeps until the response has been handled
          let ioProxy := meanwhile.others ioProxy
          let op := (rpcMr0Op.get meanwhile.response.mr0).setWidth 32
          let (answered, _) ← handleMmio ioProxy op meanwhile.response
          match ioreqNativeWait (native.acknowledged cookie ioProxy answered) with
          | some (native, value, err) => return ⟨freeNativeSlot, answered, native, value, if err ≠ 0 then -1 else 0⟩
          | none => throw .stuck

structure Exchange (W : Type) where
  req : NativeReq W
  meanwhile : Meanwhile W

section Exchanges
variable (v : CasVariant) (cookie : Cookie)

def Exchange.run (native : IoreqNative) (e : Exchange W) : Except Fault (NativeEnd W) :=
  ioreqNative v cookie native e.req e.meanwhile

def Exchange.reads (e : Exchange W) : Prop := e.req.direction = sel4IoDirRead

instance (e : Exchange W) : Decidable e.reads := inferInstanceAs (Decidable (_ = _))

def IoreqNative.after (native : IoreqNative) (e : Exchange W) : IoreqNative :=
  match e.run v cookie native with
  | .ok done => done.native
  | .error _ => native

def Exchange.slot (native : IoreqNative) (e : Exchange W) : Nat :=
  (ioreqNativeSlot e.meanwhile.semNew e.meanwhile.freeNativeSlot native).2.1.slot

/-- The call succeeds, on a slot that no other thread uses, and the response is its own. -/
structure Served (native : IoreqNative) (e : Exchange W) : Prop where
  succeeds : ∃ done, e.run v cookie native = .ok done ∧ done.result = 0
  alone : ∀ (proxy : IoProxy W) (slot : Fin ioacksSize), slot.val = e.slot native →
    (e.meanwhile.others proxy).ioacks slot = proxy.ioacks slot
  operation : (rpcMr0Op.get e.meanwhile.response.mr0).setWidth 32 = qemuOpMmio
  own : (mmioSlot e.meanwhile.response).toNat = e.slot native

/-- A read leaves the data of its reply in `*value`, a write leaves what the caller passed. -/
def RightValue (native : IoreqNative) (e : Exchange W) : Prop :=
  ∃ done, e.run v cookie native = .ok done ∧ done.value = if e.reads then e.meanwhile.response.mr2 else e.req.value

end Exchanges

def lastRead (last : BitVec 64) (e : Exchange W) : BitVec 64 := if e.reads then e.meanwhile.response.mr2 else last

def CarriesLast (last : BitVec 64) (e : Exchange W) : Prop := e.reads ∨ e.req.value = last

instance (last : BitVec 64) (e : Exchange W) : Decidable (CarriesLast last e) := inferInstanceAs (Decidable (_ ∨ _))

theorem ioreqNativeSlot_keeps (semNew : Int) (freeNativeSlot : Nat) {native : IoreqNative}
    (resting : native.handoff = 0) :
    ∃ free next slot, ioreqNativeSlot semNew freeNativeSlot native = (free, next, slot) ∧
      next.handoff = 0 ∧ next.value = native.value ∧ (0 ≤ slot → slot = next.slot) := by
  unfold ioreqNativeSlot
  split
  · exact ⟨_, _, _, rfl, resting, rfl, fun _ => rfl⟩
  · split
    · exact ⟨_, _, _, rfl, resting, rfl, fun positive => absurd positive (by decide)⟩
    · dsimp only
      split
      · exact ⟨_, _, _, rfl, rfl, rfl, fun positive => absurd positive (by decide)⟩
      · exact ⟨_, _, _, rfl, rfl, rfl, fun _ => rfl⟩

section Call
variable {v : CasVariant} {proxy next : IoProxy W}

theorem start_installs {req : IoReq} {err : Int} (started : ioreqStart v proxy req = .ok (next, err))
    (sent : ¬err < 0) : ∃ inside : req.slot.toNat < ioacksSize, next.ioacks ⟨_, inside⟩ = req.ioack := by
  by_cases size : req.size.toNat ≤ 8
  · by_cases inside : req.slot.toNat < ioacksSize
    · refine ⟨inside, ?_⟩
      by_cases idle : Idle proxy req
      · rw [start_inside size inside idle] at started
        cases requested : proxy.rpc.request v req.words.mr0 req.offset req.val 0#64 with
        | error fault =>
          rw [requested] at started
          cases started
        | ok result =>
          rw [requested] at started
          cases started
          exact Function.update_self ..
      · have busy : (proxy.ioacks ⟨_, inside⟩).callback ≠ none := by
          intro free
          exact idle fun slot same => by rwa [show slot = ⟨_, inside⟩ from Fin.ext same]
        rw [ioreqStart, if_neg (not_not.mpr size), dif_pos inside, if_pos busy] at started
        cases started
    · rw [start_outside size inside] at started
      cases started
      exact absurd (by decide) sent
  · rw [ioreqStart, if_pos size] at started
    cases started

theorem handleMmio_calls {msg : Msg} {slot : Fin ioacksSize} {req : IoReq}
    (operation : (rpcMr0Op.get msg.mr0).setWidth 32 = qemuOpMmio) (own : (mmioSlot msg).toNat = slot.val)
    (installed : proxy.ioacks slot = req.ioack) :
    ∃ done rc, handleMmio proxy ((rpcMr0Op.get msg.mr0).setWidth 32) msg = .ok (done, rc) ∧
      done.calls = proxy.calls ++ [⟨req.callback, msg.mr2, req.cookie⟩] := by
  obtain ⟨index, inside⟩ := slot
  obtain rfl : (mmioSlot msg).toNat = index := own
  rw [operation, handleMmio_finishes, finish_inside inside, installed]
  exact ⟨_, _, rfl, rfl⟩

/-- The one call of a callback with this cookie reaches the record. -/
theorem acknowledged_one {native : IoreqNative} {cookie : Cookie} {callback : IoackFn} {data : BitVec 64}
    (called : next.calls = proxy.calls ++ [⟨callback, data, cookie⟩]) :
    native.acknowledged cookie proxy next = IoackCall.acknowledge native ⟨callback, data, cookie⟩ := by
  rw [IoreqNative.acknowledged, called, List.drop_left]
  simp

end Call

section Exchanges
variable {v : CasVariant} {cookie : Cookie} {native : IoreqNative} {e : Exchange W}

/-- The callback of the request wakes the thread, and only that of a read writes the value. -/
theorem wait_acknowledged {before answered : IoProxy W} {slot : Int} (asleep : native.handoff = 0)
    (called : answered.calls = before.calls ++
      [⟨(e.req.start cookie slot).callback, e.meanwhile.response.mr2, cookie⟩]) :
    ioreqNativeWait (native.acknowledged cookie before answered) =
      some ({ native with value := lastRead native.value e }, lastRead native.value e, 0) := by
  rw [acknowledged_one called]
  by_cases reads : e.reads
  · have callback : (e.req.start cookie slot).callback = .ioackNativeRead := if_pos reads
    simp [callback, IoackCall.acknowledge, ioackNativeRead, ioreqNativeWait, lastRead, reads, asleep]
  · have callback : (e.req.start cookie slot).callback = .ioackNativeWrite := if_neg reads
    simp [callback, IoackCall.acknowledge, ioackNativeWrite, ioreqNativeWait, lastRead, reads, asleep]

/-- Once the request is sent the call returns with the value that the record holds at the end, whatever
the direction. -/
theorem run_of_start {started : IoProxy W} {err : Int} {free : Nat} {record : IoreqNative} {slot : Nat}
    (given : ioreqNativeSlot e.meanwhile.semNew e.meanwhile.freeNativeSlot native = (free, record, (slot : Int)))
    (asleep : record.handoff = 0) (begun : ioreqStart v e.req.ioProxy (e.req.start cookie slot) = .ok (started, err))
    (sent : ¬err < 0) (fits : slot < 2 ^ 32)
    (alone : ∀ (proxy : IoProxy W) (i : Fin ioacksSize), i.val = slot →
      (e.meanwhile.others proxy).ioacks i = proxy.ioacks i)
    (operation : (rpcMr0Op.get e.meanwhile.response.mr0).setWidth 32 = qemuOpMmio)
    (own : (mmioSlot e.meanwhile.response).toNat = slot) :
    ∃ done, e.run v cookie native = .ok done ∧ done.result = 0 ∧ done.native.handoff = 0 ∧
      done.native.value = lastRead record.value e ∧ done.value = lastRead record.value e := by
  have named : (e.req.start cookie slot).slot.toNat = slot := by
    rw [NativeReq.start, BitVec.ofInt_natCast, BitVec.toNat_ofNat]
    exact Nat.mod_eq_of_lt fits
  obtain ⟨inside, installed⟩ := start_installs begun sent
  have kept := alone started ⟨_, inside⟩ named
  obtain ⟨answered, rc, handled, called⟩ := handleMmio_calls operation (own.trans named.symm) (kept.trans installed)
  have woken := wait_acknowledged asleep called
  have sleeps : ioreqNativeWait record = none := if_pos asleep
  have positive : ¬(slot : Int) < 0 := Int.not_lt.mpr (Int.natCast_nonneg slot)
  refine ⟨⟨free, answered, { record with value := lastRead record.value e }, lastRead record.value e, 0⟩, ?_, rfl,
    asleep, rfl, rfl⟩
  rw [Exchange.run, ioreqNative, given]
  simp only [bind, Except.bind, if_neg positive, begun, if_neg sent, sleeps, handled, woken]
  rfl

theorem Served.returns (served : Served v cookie native e) (resting : native.handoff = 0) :
    ∃ done, e.run v cookie native = .ok done ∧ done.result = 0 ∧ done.native.handoff = 0 ∧
      done.native.value = lastRead native.value e ∧ done.value = lastRead native.value e := by
  obtain ⟨done, ran, succeeds⟩ := served.succeeds
  have own := served.own
  have alone := served.alone
  obtain ⟨free, record, slot, given, asleep, same, named⟩ :=
    ioreqNativeSlot_keeps e.meanwhile.semNew e.meanwhile.freeNativeSlot resting
  unfold Exchange.slot at own alone
  unfold Exchange.run ioreqNative at ran
  rw [given] at own alone ran
  simp only [bind, Except.bind] at ran
  split at ran
  · cases ran
    cases succeeds
  · next positive =>
    obtain rfl := named (Int.not_lt.mp positive)
    split at ran
    · cases ran
    · next started begun =>
      split at ran
      · cases ran
        cases succeeds
      · next sent =>
        have fits : record.slot < 2 ^ 32 := own ▸ (mmioSlot e.meanwhile.response).isLt
        rw [← same]
        exact run_of_start given asleep begun sent fits alone served.operation own

/-- One call: a read leaves the right value, and a write does if it passes the value of the record. -/
theorem Served.right_iff (served : Served v cookie native e) (resting : native.handoff = 0) :
    RightValue v cookie native e ↔ CarriesLast native.value e := by
  obtain ⟨done, ran, _, _, _, value⟩ := served.returns resting
  have unfolded : RightValue v cookie native e ↔
      lastRead native.value e = if e.reads then e.meanwhile.response.mr2 else e.req.value := by
    constructor
    · rintro ⟨other, ran', right⟩
      rw [ran] at ran'
      cases ran'
      rwa [value] at right
    · exact fun right => ⟨done, ran, value.trans right⟩
  rw [unfolded, lastRead, CarriesLast]
  by_cases reads : e.reads
  · simp [reads]
  · simp [reads, eq_comm]

theorem Served.after (served : Served v cookie native e) (resting : native.handoff = 0) :
    (native.after v cookie e).handoff = 0 ∧ (native.after v cookie e).value = lastRead native.value e := by
  obtain ⟨done, ran, _, asleep, value, _⟩ := served.returns resting
  rw [IoreqNative.after, ran]
  exact ⟨asleep, value⟩

end Exchanges

/-- In every sequence of calls of a thread that succeed and are answered once each, over any io_proxies,
every call leaves the right value if and only if each write passes the data of the thread's
last read, or 0 before the first. -/
theorem ioreq_native_right_iff (v : CasVariant) (cookie : Cookie) (exchanges : List (Exchange W))
    (served : Along (IoreqNative.after v cookie) (Served v cookie) .initial exchanges) :
    Along (IoreqNative.after v cookie) (RightValue v cookie) .initial exchanges ↔
      Along lastRead CarriesLast 0#64 exchanges := by
  refine along_related (fun native last e (holds : native.handoff = 0 ∧ native.value = last) served => ?_)
    (fun native last e holds served => ?_) ⟨rfl, rfl⟩ served
  · rw [← holds.2]
    exact served.right_iff holds.1
  · rw [← holds.2]
    exact served.after holds.1

/-! ### A backend that replies at once -/

/-- On an io_proxy as `io_proxy_init` leaves it, with the reply for slot 16. -/
def NativeReq.repliedAtOnce (req : NativeReq Unit) (reply : BitVec 64) : Exchange Unit where
  req := { req with ioProxy := (Session.initial ()).proxy }
  meanwhile := ⟨0, sel4MmioNativeBase, id, ⟨0x400#64, 0#64, reply, 0#64⟩⟩

theorem reply_names_slot : (rpcMr0Op.get 0x400#64).setWidth 32 = qemuOpMmio ∧
    ((rpcMr0MmioSlot.get 0x400#64).setWidth 32).toNat = sel4MmioNativeBase := by decide

theorem start_at_rest (v : CasVariant) {req : IoReq} (valid : req.Valid) :
    ∃ started, ioreqStart v (Session.initial ()).proxy req = .ok (started, 0) := by
  have free : ¬(Session.initial ()).Outstanding req.slot := by
    rintro ⟨n, flies, _⟩
    cases flies
  obtain ⟨t, performed, _⟩ := (sound_initial ()).start v [] valid free
  cases begun : ioreqStart v (Session.initial ()).proxy req with
  | error fault =>
    rw [Session.perform, begun] at performed
    cases performed
  | ok result =>
    obtain ⟨started, code⟩ := result
    rw [Session.perform, begun] at performed
    cases performed
    exact ⟨started, rfl⟩

theorem repliedAtOnce_served (v : CasVariant) (cookie : Cookie) {native : IoreqNative} {req : NativeReq Unit}
    (ready : native = .initial ∨ native.slot = sel4MmioNativeBase ∧ native.handoff = 0)
    (direction : req.direction = sel4IoDirRead ∨ req.direction = sel4IoDirWrite)
    (addrSpace : req.addrSpace.toNat ≤ asGlobal.toNat) (size : req.size.toNat ≤ 8) (reply : BitVec 64) :
    Served v cookie native (req.repliedAtOnce reply) := by
  obtain ⟨free, record, given, asleep, slot⟩ : ∃ free record,
      ioreqNativeSlot 0 sel4MmioNativeBase native = (free, record, (sel4MmioNativeBase : Int)) ∧
        record.handoff = 0 ∧ record.slot = sel4MmioNativeBase := by
    rcases ready with rfl | ⟨slot, asleep⟩
    · exact ⟨_, _, rfl, rfl, rfl⟩
    · refine ⟨sel4MmioNativeBase, native, ?_, asleep, slot⟩
      rw [ioreqNativeSlot, if_pos (by rw [slot]; decide), slot]
  have own : (req.repliedAtOnce reply).slot native = sel4MmioNativeBase := by
    have used : (ioreqNativeSlot 0 sel4MmioNativeBase native).2.1.slot = sel4MmioNativeBase := by rw [given, slot]
    exact used
  have inside : (BitVec.ofInt 32 (sel4MmioNativeBase : Int)).toNat < ioacksSize := by decide
  have valid : (req.start cookie sel4MmioNativeBase).Valid := ⟨inside, direction, addrSpace, size⟩
  obtain ⟨started, begun⟩ := start_at_rest v valid
  obtain ⟨done, ran, succeeds, _⟩ := run_of_start (e := req.repliedAtOnce reply) given asleep begun
    (by decide) (by decide) (fun _ _ _ => rfl) reply_names_slot.1 reply_names_slot.2
  exact ⟨⟨done, ran, succeeds⟩, fun _ _ _ => rfl, reply_names_slot.1, reply_names_slot.2.trans own.symm⟩

def readThenWrite (value : BitVec 64) : List (Exchange Unit) :=
  let req direction value : NativeReq Unit := ⟨(Session.initial ()).proxy, 1#32, direction, 0x10#64, 4#64, value⟩
  [(req sel4IoDirRead 0#64).repliedAtOnce 5#64, (req sel4IoDirWrite value).repliedAtOnce 0#64]

theorem readThenWrite_served (value : BitVec 64) :
    Along (IoreqNative.after .user 64#64) (Served .user 64#64) .initial (readThenWrite value) := by
  have addrSpace : (1#32).toNat ≤ asGlobal.toNat := by decide
  have size : (4#64).toNat ≤ 8 := by decide
  refine ⟨repliedAtOnce_served .user 64#64 (.inl rfl) (.inl rfl) addrSpace size 5#64, ?_, trivial⟩
  exact repliedAtOnce_served .user 64#64 (.inr (by decide +kernel)) (.inr rfl) addrSpace size 0#64

/-- The write passes what was read. -/
theorem ioreq_native_right_echo :
    Along (IoreqNative.after .user 64#64) (RightValue .user 64#64) .initial (readThenWrite 5#64) :=
  (ioreq_native_right_iff .user 64#64 (readThenWrite 5#64) (readThenWrite_served 5#64)).mpr (by decide)

/-- A write of 7 after a read of 5 leaves 5. -/
theorem ioreq_native_write_stale : ¬∀ exchanges : List (Exchange Unit),
    Along (IoreqNative.after .user 64#64) (Served .user 64#64) .initial exchanges →
      Along (IoreqNative.after .user 64#64) (RightValue .user 64#64) .initial exchanges := by
  intro right
  have served := readThenWrite_served 7#64
  have first := served.1.after rfl
  have second := (served.2.1.right_iff first.1).mp (right _ served).2.1
  rw [first.2] at second
  revert second
  decide

end Virtioso.Proxy
