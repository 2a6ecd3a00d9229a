import Virtioso.Rpc.Requests

/-! Requests that find no buffer, and requests that find no room in the queue.

A full queue is undone by `rpcmsg_reclaim_buffer`: its bit was clear before the call.
The NULL that `rpcmsg_lend_buffer` returns when all buffers are lent is not tested.
-/

set_option autoImplicit false

namespace Virtioso.Rpc

open Foundation Virtioso.Ring

def Exhausted (state : BufferState) : Prop := ∀ msg, state.lent msg = true

/-- `rpcmsg_acquire_prod_entry` finds no entries at the tail. -/
def Full (rpc : Queue RingIds) : Prop := acquireEntries rpc .prod rpc.prod.tail = 0#32

/-- What a request that fails leaves as it was. -/
structure Refused (rpc : Queue RingIds) (buffer : Buffer) (state : BufferState) (done : Requested) :
    Prop where
  code : done.code < 0
  queue : done.queue = rpc
  restored : done.state = state
  lent : ∀ msg, state.lent msg = true → done.buffer msg = buffer msg

/-- One id was added at the tail of the queue. The head follows when no other enqueue
is in flight, and then the id is the last one queued. -/
structure Appended (rpc next : Queue RingIds) (id : BitVec 16) : Prop where
  tail : next.prod.tail = nextTail rpc.prod.tail
  head : next.prod.head = nextHead rpc.prod.head next.prod.tail
  cons : next.cons = rpc.cons
  slot : next.store (ringIndex rpc.prod.tail.pos) = id
  others : ∀ slot, slot ≠ ringIndex rpc.prod.tail.pos → next.store slot = rpc.store slot
  queued : rpc.prod.head = rpc.prod.tail → (rpc.prod.head.pos - rpc.cons.head.pos).toNat < bufferSize →
    queuedIds next = queuedIds rpc ++ [id]

/-- What a request that succeeds with the buffer `msg` does. -/
structure Accepted (rpc : Queue RingIds) (buffer : Buffer) (state : BufferState) (words : Msg)
    (done : Requested) (msg : MsgPtr) : Prop where
  free : state.lent msg = false
  code : done.code = msg.val
  lends : ∀ other, done.state.lent other = (decide (other = msg) || state.lent other)
  buffer : done.buffer = Function.update buffer msg words
  queue : Appended rpc done.queue (rpcmsgMsgToId msg)

/-- `rpcmsg_request` returns, and what it could not do it did not begin. -/
def CleanRequest (rpc : Queue RingIds) (buffer : Buffer) (state : BufferState) (words : Msg) :
    Except Fault Requested → Prop
  | .error _ => False
  | .ok done =>
      (Exhausted state ∨ Full rpc → Refused rpc buffer state done) ∧
      (¬(Exhausted state ∨ Full rpc) → ∃ msg, Accepted rpc buffer state words done msg)

section
variable {v : CasVariant} {rpc : Queue RingIds} {buffer : Buffer} {state : BufferState} {msg : MsgPtr}
variable {words : Msg}

theorem reclaim_lent (free : state.lent msg = false) :
    rpcmsgReclaimBuffer (state.setBit msg.val) msg = state := by
  have undone : clearBit msg.val (setBit msg.val state.words) = state.words := clearBit_setBit free
  rw [rpcmsgReclaimBuffer, rpcmsgMsgToId_toNat]
  cases state
  simp only [BufferState.clearBit, BufferState.setBit, undone]

theorem not_exhausted (some : ¬Exhausted state) : ∃ msg, state.lent msg = false := by
  rw [Exhausted, not_forall] at some
  obtain ⟨msg, free⟩ := some
  exact ⟨msg, Bool.eq_false_of_not_eq_true free⟩

theorem ringIndex_apart {pos : BitVec 32} {k n : Nat} (before : k < n) (below : n < bufferSize) :
    ringIndex (pos + BitVec.ofNat 32 k) ≠ ringIndex (pos + BitVec.ofNat 32 n) := by
  intro same
  have slot : ∀ j, (ringIndex (pos + BitVec.ofNat 32 j)).val = (pos.toNat + j) % bufferSize := by
    intro j
    rw [← ringIndex_ofNat, BitVec.ofNat_add, BitVec.ofNat_toNat, BitVec.setWidth_eq]
  have slots := congrArg Fin.val same
  have size : bufferSize = 32 := rfl
  rw [slot, slot, size] at slots
  rw [size] at below
  omega

theorem queuedIds_append (settled : rpc.prod.head = rpc.prod.tail)
    (room : (rpc.prod.head.pos - rpc.cons.head.pos).toNat < bufferSize) :
    queuedIds (rpc.append rpcElement msg) = queuedIds rpc ++ [rpcmsgMsgToId msg] := by
  have size : bufferSize = 32 := rfl
  have moved : (rpc.append rpcElement msg).prod.head.pos = rpc.prod.head.pos + 1#32 := by
    rw [settled, Queue.append, settled, nextHead_nextTail]
    rfl
  have length : ((rpc.append rpcElement msg).prod.head.pos - rpc.cons.head.pos).toNat =
      (rpc.prod.head.pos - rpc.cons.head.pos).toNat + 1 := by
    rw [size] at room
    rw [moved]
    bv_omega
  have last : rpc.cons.head.pos + BitVec.ofNat 32 (rpc.prod.head.pos - rpc.cons.head.pos).toNat =
      rpc.prod.tail.pos := by
    rw [← settled, BitVec.ofNat_toNat, BitVec.setWidth_eq]
    bv_omega
  rw [queuedIds, show (rpc.append rpcElement msg).cons = rpc.cons from rfl, length, List.range_succ,
    List.map_append, queuedIds]
  -- the ids that were queued keep their slots, and the new one comes behind them
  congr 1
  · apply List.map_congr_left
    intro k before
    have apart : ringIndex (rpc.cons.head.pos + BitVec.ofNat 32 k) ≠ ringIndex rpc.prod.tail.pos := by
      rw [← last]
      exact ringIndex_apart (List.mem_range.mp before) room
    exact Function.update_of_ne apart ..
  · rw [List.map_singleton, last]
    exact congrArg (fun id => [id]) (Function.update_self ..)

theorem append_appended : Appended rpc (rpc.append rpcElement msg) (rpcmsgMsgToId msg) where
  tail := rfl
  head := rfl
  cons := rfl
  slot := Function.update_self ..
  others _ other := Function.update_of_ne other ..
  queued := queuedIds_append

/-- Without a free buffer NULL is written through. -/
theorem request_exhausted (exhausted : Exhausted state) :
    rpcmsgRequest v rpc buffer state words.mr0 words.mr1 words.mr2 words.mr3 = .error .nullDereference := by
  rw [rpcmsgRequest, lend_none exhausted]

/-- While too many enqueues are in flight the call waits for them. -/
theorem request_waits (some : ¬Exhausted state) (far : ¬Near rpc .prod rpc.prod.tail) :
    rpcmsgRequest v rpc buffer state words.mr0 words.mr1 words.mr2 words.mr3 = .error .stuck := by
  obtain ⟨msg, free⟩ := not_exhausted some
  obtain ⟨lending, lends, -⟩ := lend_buffer free
  have waits : complete v rpcElement rpc (.enqueue lending) = none := complete_far far
  unfold rpcmsgRequest rpcmsgRpcEnqueue
  rw [lends]
  dsimp only
  rw [waits]
  rfl

theorem request_refused (v : CasVariant) (buffer : Buffer) (words : Msg) (some : ¬Exhausted state)
    (near : Near rpc .prod rpc.prod.tail) (full : Full rpc) :
    ∃ done, rpcmsgRequest v rpc buffer state words.mr0 words.mr1 words.mr2 words.mr3 = .ok done ∧
      Refused rpc buffer state done := by
  obtain ⟨msg, free⟩ := not_exhausted some
  obtain ⟨lending, lends, clear⟩ := lend_buffer free
  have refuses : complete v rpcElement rpc (.enqueue lending) = Option.some (rpc, .refused) :=
    complete_refused_of_near rfl near full
  refine ⟨⟨rpc, Function.update buffer lending words,
    rpcmsgReclaimBuffer (state.setBit lending.val) lending, -1⟩, ?_,
    ⟨by show (-1 : Int) < 0; decide, rfl, reclaim_lent clear, ?_⟩⟩
  · unfold rpcmsgRequest rpcmsgRpcEnqueue
    rw [lends]
    dsimp only
    rw [refuses]
    rfl
  · -- only the buffer that was free has new contents
    intro other lent
    apply Function.update_of_ne
    rintro rfl
    rw [clear] at lent
    cases lent

theorem request_accepted (v : CasVariant) (buffer : Buffer) (words : Msg) (some : ¬Exhausted state)
    (near : Near rpc .prod rpc.prod.tail) (room : ¬Full rpc) :
    ∃ done msg, rpcmsgRequest v rpc buffer state words.mr0 words.mr1 words.mr2 words.mr3 = .ok done ∧
      Accepted rpc buffer state words done msg := by
  obtain ⟨msg, free⟩ := not_exhausted some
  obtain ⟨lending, lends, clear⟩ := lend_buffer free
  have appends : complete v rpcElement rpc (.enqueue lending) =
      Option.some (rpc.append rpcElement lending, .enqueued) := complete_append near room
  refine ⟨⟨rpc.append rpcElement lending, Function.update buffer lending words, state.setBit lending.val,
    lending.val⟩, lending, ?_, ⟨clear, rfl, fun _ => lent_setBit, rfl, append_appended⟩⟩
  unfold rpcmsgRequest rpcmsgRpcEnqueue
  rw [lends]
  dsimp only
  rw [appends, ← rpcmsgMsgToId_toNat lending]
  rfl

end

/-- From every state of the buffers and the queue a request either succeeds or fails
cleanly if and only if some buffer is free and the wait loop admits the tail, which
it does whenever at most eight enqueues are in flight. -/
theorem request_clean_iff (v : CasVariant) (rpc : Queue RingIds) (buffer : Buffer) (state : BufferState)
    (words : Msg) :
    CleanRequest rpc buffer state words
        (rpcmsgRequest v rpc buffer state words.mr0 words.mr1 words.mr2 words.mr3) ↔
      ¬Exhausted state ∧ Near rpc .prod rpc.prod.tail := by
  constructor
  · intro clean
    constructor
    · intro exhausted
      rw [request_exhausted exhausted] at clean
      exact clean
    · -- a call that never returns refuses nothing and accepts nothing
      by_contra far
      by_cases exhausted : Exhausted state
      · rw [request_exhausted exhausted] at clean
        exact clean
      · rw [request_waits exhausted far] at clean
        exact clean
  · rintro ⟨some, near⟩
    by_cases full : Full rpc
    · obtain ⟨done, returns, refused⟩ := request_refused v buffer words some near full
      rw [returns]
      exact ⟨fun _ => refused, fun room => absurd (.inr full) room⟩
    · obtain ⟨done, msg, returns, accepted⟩ := request_accepted v buffer words some near full
      rw [returns]
      exact ⟨fun none => absurd none (not_or.mpr ⟨some, full⟩), fun _ => ⟨msg, accepted⟩⟩

def allLent : BufferState := ⟨[(BitVec.allOnes bufferSize).setWidth 64], rfl⟩

theorem allLent_exhausted : Exhausted allLent := by
  intro msg
  have below : msg.val < 32 := msg.isLt
  have word : msg.val / 64 = 0 := Nat.div_eq_of_lt (by omega)
  have bit : msg.val % 64 = msg.val := Nat.mod_eq_of_lt (by omega)
  rw [BufferState.lent, allLent, testBit, word, bit]
  simp only [List.getElem?_cons_zero, Option.getD_some, BitVec.getLsbD_setWidth, BitVec.getLsbD_allOnes,
    Bool.and_eq_true, decide_eq_true_eq]
  omega

theorem request_unclean : ¬∀ (v : CasVariant) (rpc : Queue RingIds) (buffer : Buffer)
    (state : BufferState) (words : Msg), CleanRequest rpc buffer state words
      (rpcmsgRequest v rpc buffer state words.mr0 words.mr1 words.mr2 words.mr3) := by
  simp only [not_forall]
  refine ⟨.user, rpcmsgQueueInit fun _ => 0#16, fun _ => ⟨0#64, 0#64, 0#64, 0#64⟩, allLent,
    ⟨0#64, 0#64, 0#64, 0#64⟩, ?_⟩
  rw [request_exhausted allLent_exhausted]
  exact id

end Virtioso.Rpc
