import Virtioso.Proxy.Dispatch

/-! The guest's side and the backend's side of one I/O proxy, whole operations at a time.

The history records what was asked and what was answered: request number `n`, as
the system of the rpc numbers them, is `starts[n]`.
-/

set_option autoImplicit false

namespace Virtioso.Proxy

open Foundation Virtioso.Ring Rpc

structure Session (W : Type) where
  proxy : IoProxy W
  starts : List IoReq
  /-- numbers of the answered requests with the data of the answer, oldest first -/
  replies : List (Nat × BitVec 64)

inductive SessionOp where
  | start (req : IoReq)
  | receive (peer : Peer)
  | forward (peer : Peer) (held : Held)
  | reply (peer : Peer) (held : Held) (data : BitVec 64) (doorbell : Bool)
  | run (event : Msg)

variable {W : Type}

/-- After `io_proxy_init`; the template sets the doorbell. -/
def Session.initial (outside : W) : Session W where
  proxy :=
    { ioacks := fun _ => ⟨none, 0#64⟩
      rpc := .initial
      deviceEvent := rpcmsgEventTxqInit
      doorbell := true
      calls := []
      outside }
  starts := []
  replies := []

def Session.carry (s : Session W) (rpc : System) : Session W := { s with proxy := { s.proxy with rpc } }

def Session.perform (v : CasVariant) (others : List (RpcCallback W)) (s : Session W) :
    SessionOp → Except Fault (Session W × Outcome)
  | .start req => do
      let (proxy, code) ← ioreqStart v s.proxy req
      return ({ s with proxy, starts := if code < 0 then s.starts else s.starts ++ [req] }, .code code)
  | .receive peer => do
      let (rpc, held) ← s.proxy.rpc.receive v peer.request (.peer peer)
      return (s.carry rpc, .received (held.map Prod.fst))
  | .forward peer held => do
      let (rpc, code) ← s.proxy.rpc.forward v peer held
      return (s.carry rpc, .code code)
  | .reply peer held data doorbell => do
      let (rpc, code) ← driverRpcAckMmioFinish v s.proxy.rpc doorbell peer held data
      return ({ s.carry rpc with replies := s.replies ++ [(held.2, data)] }, .code code)
  | .run event => do
      let (proxy, code) ← rpcRun v others s.proxy event
      return ({ s with proxy }, .code code)

structure IoReq.Valid (req : IoReq) : Prop where
  slot : req.slot.toNat < ioacksSize
  direction : req.direction = sel4IoDirRead ∨ req.direction = sel4IoDirWrite
  addrSpace : req.addrSpace.toNat ≤ asGlobal.toNat
  size : req.size.toNat ≤ 8

instance (req : IoReq) : Decidable req.Valid :=
  decidable_of_iff
    (req.slot.toNat < ioacksSize ∧ (req.direction = sel4IoDirRead ∨ req.direction = sel4IoDirWrite) ∧
      req.addrSpace.toNat ≤ asGlobal.toNat ∧ req.size.toNat ≤ 8)
    ⟨fun ⟨slot, direction, addrSpace, size⟩ => ⟨slot, direction, addrSpace, size⟩,
      fun valid => ⟨valid.slot, valid.direction, valid.addrSpace, valid.size⟩⟩

/-- Numbers of the requests that are in a queue or in the hands of a party. -/
def inFlight (rpc : System) : List Nat :=
  rpc.journey .drvrpcReq ++ rpc.journey .drvrpcReqDev ++ rpc.journey .drvrpcResp ++
    (rpc.hands .driver ++ rpc.hands (.peer .deviceKm) ++ rpc.hands (.peer .device)).map Prod.snd

def Session.Outstanding (s : Session W) (slot : BitVec 32) : Prop :=
  ∃ n ∈ inFlight s.proxy.rpc, (s.starts[n]?).map IoReq.slot = some slot

instance (s : Session W) (slot : BitVec 32) : Decidable (s.Outstanding slot) :=
  inferInstanceAs (Decidable (∃ n ∈ inFlight s.proxy.rpc, _))

/-- A slot is used for one request at a time, and each received request is answered once. -/
def Regular (s : Session W) : SessionOp → Prop
  | .start req => req.Valid ∧ ¬s.Outstanding req.slot
  | .receive _ | .run _ => True
  | .forward peer held | .reply peer held _ _ => held ∈ s.proxy.rpc.hands (.peer peer)

instance (s : Session W) : (op : SessionOp) → Decidable (Regular s op)
  | .start _ => inferInstanceAs (Decidable (_ ∧ _))
  | .receive _ | .run _ => .isTrue trivial
  | .forward _ _ | .reply _ _ _ _ => inferInstanceAs (Decidable (_ ∈ _))

def Session.step (v : CasVariant) (others : List (RpcCallback W)) (s : Session W) (op : SessionOp) :
    Option (Session W) :=
  match s.perform v others op with
  | .ok (t, _) => some t
  | .error _ => none

abbrev Session.Reachable (v : CasVariant) (others : List (RpcCallback W)) (outside : W) :
    Session W → Prop :=
  Reach (Session.step v others) Regular (Session.initial outside)

def IoReq.words (req : IoReq) : Msg :=
  let mr0 := rpcMr0MmioDirection.set 0#64 (req.direction.setWidth 64)
  let mr0 := rpcMr0MmioAddrSpace.set mr0 (req.addrSpace.setWidth 64)
  let mr0 := rpcMr0MmioLength.set mr0 req.size
  let mr0 := rpcMr0MmioSlot.set mr0 (req.slot.setWidth 64)
  ⟨rpcMr0Op.set mr0 (qemuOpMmio.setWidth 64), req.offset, req.val, 0#64⟩

structure Decodes (words : Msg) (req : IoReq) : Prop where
  op : rpcMr0Op.get words.mr0 = qemuOpMmio.setWidth 64
  slot : rpcMr0MmioSlot.get words.mr0 = req.slot.setWidth 64
  direction : rpcMr0MmioDirection.get words.mr0 = req.direction.setWidth 64
  addrSpace : rpcMr0MmioAddrSpace.get words.mr0 = req.addrSpace.setWidth 64
  length : rpcMr0MmioLength.get words.mr0 = req.size
  offset : words.mr1 = req.offset
  val : words.mr2 = req.val

section Fields
variable {f g : BitField} {v n : BitVec 64}

theorem get_after (apart : g.Apart f) (inside : f.shift + f.width ≤ 64 ∧ f.width < 64 ∧ g.width < 64)
    {value : BitVec 64} (before : f.get v = value) : f.get (g.set v n) = value := by
  rw [BitField.get_set_apart apart inside.1 inside.2.2 inside.2.1, before]

theorem get_written {narrow : BitVec 32} (inside : f.shift + f.width ≤ 64 ∧ f.width < 64)
    (small : narrow.toNat < 2 ^ f.width) :
    f.get (f.set v (narrow.setWidth 64)) = narrow.setWidth 64 := by
  apply BitField.get_set inside.1 inside.2
  rw [BitVec.toNat_setWidth_of_le (by decide)]
  exact small

theorem IoReq.decodes {req : IoReq} (valid : req.Valid) : Decodes req.words req where
  op := get_written (by decide) (by decide)
  slot := get_after (by decide) (by decide) (get_written (by decide) (Nat.lt_trans valid.slot (by decide)))
  direction := by
    refine get_after (by decide) (by decide) (get_after (by decide) (by decide)
      (get_after (by decide) (by decide) (get_after (by decide) (by decide)
        (get_written (by decide) ?_))))
    rcases valid.direction with read | write
    · rw [read]
      decide
    · rw [write]
      decide
  addrSpace := by
    refine get_after (by decide) (by decide) (get_after (by decide) (by decide)
      (get_after (by decide) (by decide) (get_written (by decide) ?_)))
    exact Nat.lt_of_le_of_lt valid.addrSpace (by decide)
  length := by
    refine get_after (by decide) (by decide) (get_after (by decide) (by decide)
      (BitField.get_set (by decide) (by decide) ?_))
    exact Nat.lt_of_le_of_lt valid.size (by decide)
  offset := rfl
  val := rfl

end Fields

end Virtioso.Proxy
