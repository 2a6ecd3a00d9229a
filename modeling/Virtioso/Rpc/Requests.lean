import Virtioso.Ring.Fifo
import Virtioso.Rpc.Bitmap

/-! Lending of message buffers and the operations of an rpc queue.

A request lends a buffer of the message table; only its id travels through the
queues, and the buffer is reclaimed when the response has been processed.
-/

set_option autoImplicit false

namespace Virtioso.Rpc

open Virtioso.Ring

/-- Where the program stops instead of returning. -/
inductive Fault where
  | nullDereference
  | assertion
  /-- a retry loop or a wait that is not left -/
  | stuck
  /-- an access behind the end of an array -/
  | outOfBounds
  deriving DecidableEq, Repr

theorem of_toOption_map {α β : Type} {f : α → β} {x : Except Fault α} {y : β} (edge : x.toOption.map f = some y) :
    ∃ a, x = .ok a ∧ f a = y := by
  cases x with
  | error fault => cases edge
  | ok a => exact ⟨a, rfl, Option.some.inj edge⟩

/-- `rpcmsg_buffer_state_t`, a bitmap of `RPCMSG_BUFFER_SIZE` bits: one word. -/
structure BufferState where
  words : List (BitVec 64)
  sized : words.length = (bufferSize + 63) / 64

def BufferState.setBit (state : BufferState) (nr : Nat) : BufferState :=
  ⟨Rpc.setBit nr state.words, by rw [length_setBit, state.sized]⟩

def BufferState.clearBit (state : BufferState) (nr : Nat) : BufferState :=
  ⟨Rpc.clearBit nr state.words, by rw [length_clearBit, state.sized]⟩

/-- `rpcmsg_buffer_state_init`. -/
def rpcmsgBufferStateInit : BufferState := ⟨[0#64], rfl⟩

def BufferState.lent (state : BufferState) (msg : MsgPtr) : Bool := testBit state.words msg.val

/-- The search of `rpcmsg_lend_buffer` and its test on the id, which the assertion of
`rpcmsg_id_to_msg` repeats. -/
def findBuffer (state : BufferState) : Option MsgPtr :=
  rpcmsgIdToMsg (BitVec.ofNat 16 (findFirstZeroBit state.words bufferSize))

/-- `rpcmsg_lend_buffer`, with `none` for NULL. -/
def rpcmsgLendBuffer (state : BufferState) : Option (BufferState × MsgPtr) :=
  match findBuffer state with
  | none => none
  | some msg => some (state.setBit msg.val, msg)

/-- `rpcmsg_reclaim_buffer`. -/
def rpcmsgReclaimBuffer (state : BufferState) (msg : MsgPtr) : BufferState :=
  state.clearBit (rpcmsgMsgToId msg).toNat

/-- `rpcmsg_enqueue` with `rpcmsg_rpc_enqueue_fn`: the queue after the call and its return code. -/
def rpcmsgRpcEnqueue (v : CasVariant) (rpc : Queue RingIds) (msg : MsgPtr) :
    Except Fault (Queue RingIds × Int) :=
  match complete v rpcElement rpc (.enqueue msg) with
  | none => .error .stuck
  | some (rpc, .refused) => .ok (rpc, -1)
  | some (rpc, _) => .ok (rpc, 0)

/-- `rpcmsg_reply`. -/
def rpcmsgReply := rpcmsgRpcEnqueue

/-- `rpcmsg_forward`. -/
def rpcmsgForward := rpcmsgRpcEnqueue

/-- `rpcmsg_receive`, with `none` for NULL. -/
def rpcmsgReceive (v : CasVariant) (rpc : Queue RingIds) : Except Fault (Queue RingIds × Option MsgPtr) :=
  match complete v rpcElement rpc .dequeue with
  | none => .error .stuck
  | some (rpc, .dequeued msg) => .ok (rpc, some msg)
  | some (rpc, _) => .ok (rpc, none)

/-- `rpcmsg_receive_response`: the message and its transaction id, `none` for NULL. -/
def rpcmsgReceiveResponse (v : CasVariant) (rpc : Queue RingIds) :
    Except Fault (Queue RingIds × Option (MsgPtr × BitVec 16)) := do
  let (rpc, msg) ← rpcmsgReceive v rpc
  return (rpc, msg.map fun msg => (msg, rpcmsgMsgToId msg))

/-- What `rpcmsg_request` leaves behind, and its return code. -/
structure Requested where
  queue : Queue RingIds
  buffer : Buffer
  state : BufferState
  code : Int

/-- `rpcmsg_request`. A NULL from `rpcmsg_lend_buffer` is written through. -/
def rpcmsgRequest (v : CasVariant) (rpc : Queue RingIds) (buffer : Buffer) (state : BufferState)
    (mr0 mr1 mr2 mr3 : BitVec 64) : Except Fault Requested :=
  match rpcmsgLendBuffer state with
  | none => .error .nullDereference
  | some (state, msg) => do
      let buffer := Function.update buffer msg ⟨mr0, mr1, mr2, mr3⟩
      let (rpc, full) ← rpcmsgRpcEnqueue v rpc msg
      if full ≠ 0 then return ⟨rpc, buffer, rpcmsgReclaimBuffer state msg, -1⟩
      else return ⟨rpc, buffer, state, (rpcmsgMsgToId msg).toNat⟩

section Lending
variable {state : BufferState} {msg other : MsgPtr}

theorem BufferState.inside (state : BufferState) (msg : MsgPtr) : msg.val / 64 < state.words.length := by
  have below : msg.val < 32 := msg.isLt
  rw [state.sized, Nat.div_eq_of_lt (by omega)]
  decide

theorem lent_setBit : (state.setBit msg.val).lent other = (decide (other = msg) || state.lent other) := by
  have bit := testBit_setBit (i := other.val) (state.inside msg)
  simpa [BufferState.lent, BufferState.setBit, Fin.ext_iff] using bit

theorem lent_reclaim : (rpcmsgReclaimBuffer state msg).lent other =
    (!decide (other = msg) && state.lent other) := by
  have bit := testBit_clearBit (i := other.val) (state.inside msg)
  rw [rpcmsgReclaimBuffer, rpcmsgMsgToId_toNat]
  simpa [BufferState.lent, BufferState.clearBit, Fin.ext_iff] using bit

@[simp] theorem lent_init : rpcmsgBufferStateInit.lent msg = false := by
  have below : msg.val < 32 := msg.isLt
  have word : msg.val / 64 = 0 := Nat.div_eq_of_lt (by omega)
  rw [BufferState.lent, rpcmsgBufferStateInit, testBit, word]
  exact BitVec.getLsbD_zero

theorem lend_buffer (free : state.lent msg = false) :
    ∃ lending, rpcmsgLendBuffer state = some (state.setBit lending.val, lending) ∧
      state.lent lending = false := by
  have capacity : bufferSize ≤ state.words.length * 64 := by rw [state.sized]; decide
  obtain ⟨ones, found⟩ := findFirstZeroBit_spec capacity
  have below : findFirstZeroBit state.words bufferSize < bufferSize := by
    by_contra past
    have one := ones msg.val (Nat.zero_le _) (Nat.lt_of_lt_of_le msg.isLt (Nat.le_of_not_lt past))
    rw [BufferState.lent, one] at free
    cases free
  have zero := (found.resolve_right (Nat.ne_of_lt below)).2
  have id : (BitVec.ofNat 16 (findFirstZeroBit state.words bufferSize)).toNat =
      findFirstZeroBit state.words bufferSize := by
    rw [BitVec.toNat_ofNat]
    exact Nat.mod_eq_of_lt (Nat.lt_trans below (by decide))
  refine ⟨⟨_, below⟩, ?_, zero⟩
  simp only [rpcmsgLendBuffer, findBuffer, rpcmsgIdToMsg, id, below, dite_true]

theorem lend_none (all : ∀ msg, state.lent msg = true) : rpcmsgLendBuffer state = none := by
  have capacity : bufferSize ≤ state.words.length * 64 := by rw [state.sized]; decide
  obtain ⟨_, found⟩ := findFirstZeroBit_spec capacity
  have past : findFirstZeroBit state.words bufferSize = bufferSize := by
    rcases found with ⟨below, zero⟩ | past
    · have one := all ⟨_, below⟩
      rw [BufferState.lent, zero] at one
      cases one
    · exact past
  rw [rpcmsgLendBuffer, findBuffer, past]
  rfl

end Lending

section Queues
variable {v : CasVariant} {rpc : Queue RingIds} {contents : List MsgPtr}

/-- The message ids between the markers of a queue, oldest first. -/
def queuedIds (rpc : Queue RingIds) : List (BitVec 16) :=
  (List.range (rpc.prod.head.pos - rpc.cons.head.pos).toNat).map fun k =>
    rpc.store (ringIndex (rpc.cons.head.pos + BitVec.ofNat 32 k))

theorem queuedIds_of_holding (holding : Holding rpcElement rpc contents) :
    queuedIds rpc = contents.map rpcmsgMsgToId := by
  obtain ⟨taken, represents⟩ := holding
  have cons := congrArg (fun b => b.head.pos) represents.cons
  simp only [Queue.bound, stored] at cons
  apply List.ext_getElem
  · rw [queuedIds, List.length_map, List.length_map, List.length_range, represents.heads]
  · intro k below inside
    have queued : k < contents.length := by rwa [List.length_map] at inside
    have slot := represents.holds k contents[k] (List.getElem?_eq_getElem queued)
    simp only [queuedIds, List.getElem_map, List.getElem_range, cons, ← BitVec.ofNat_add]
    exact slot

theorem rpc_enqueue (holding : Holding rpcElement rpc contents) (room : contents.length < bufferSize)
    (msg : MsgPtr) : ∃ next, rpcmsgRpcEnqueue v rpc msg = .ok (next, 0) ∧
      Holding rpcElement next (contents ++ [msg]) := by
  obtain ⟨next, returns, keeps⟩ := holding.enqueue (v := v) room msg
  refine ⟨next, ?_, keeps⟩
  unfold rpcmsgRpcEnqueue
  rw [returns]

theorem rpc_receive {msg : MsgPtr} (holding : Holding rpcElement rpc (msg :: contents)) :
    ∃ next, rpcmsgReceive v rpc = .ok (next, some msg) ∧ Holding rpcElement next contents := by
  obtain ⟨next, returns, keeps⟩ := holding.dequeue (v := v)
  refine ⟨next, ?_, keeps⟩
  unfold rpcmsgReceive
  rw [returns]
  rfl

theorem rpc_receive_empty (holding : Holding rpcElement rpc []) :
    rpcmsgReceive v rpc = .ok (rpc, none) := by
  unfold rpcmsgReceive
  rw [holding.dequeue_empty]

theorem request_succeeds (holding : Holding rpcElement rpc contents)
    (room : contents.length < bufferSize) {state : BufferState} {msg : MsgPtr}
    (free : state.lent msg = false) (buffer : Buffer) (mr0 mr1 mr2 mr3 : BitVec 64) :
    ∃ lending next, state.lent lending = false ∧
      rpcmsgRequest v rpc buffer state mr0 mr1 mr2 mr3 =
        .ok ⟨next, Function.update buffer lending ⟨mr0, mr1, mr2, mr3⟩, state.setBit lending.val,
          (rpcmsgMsgToId lending).toNat⟩ ∧
      Holding rpcElement next (contents ++ [lending]) := by
  obtain ⟨lending, lends, zero⟩ := lend_buffer free
  obtain ⟨next, returns, keeps⟩ := rpc_enqueue (v := v) holding room lending
  refine ⟨lending, next, zero, ?_, keeps⟩
  rw [rpcmsgRequest, lends]
  simp only [returns]
  rfl

end Queues

end Virtioso.Rpc
