import Virtioso.Ring.Queue

/-! Element functions: what one queue operation does to its own slot.

`rpcmsg_enqueue` and `rpcmsg_dequeue` take a function that writes or reads the
acquired slot. `ElementFns` bundles such a pair with the laws every proof about
the ring uses; the event queue and the rpc queue are its two instances.
-/

set_option autoImplicit false

namespace Virtioso.Ring

/-- A lawful pair of element functions over slot memory `Store`. A consumer
gets `none` where the C function would stop at an assertion. -/
structure ElementFns (Store Data Result : Type) where
  enqueueFn : Store → Fin bufferSize → Data → Store
  dequeueFn : Store → Fin bufferSize → Option Result
  /-- What a consumer of the slot receives for data put there by a producer. -/
  deliver : Data → Result
  /-- The slot content is the one written for this data. -/
  Holds : Store → Fin bufferSize → Data → Prop
  holds_enqueue : ∀ store slot data, Holds (enqueueFn store slot data) slot data
  holds_frame : ∀ store slot other data written, slot ≠ other → Holds store slot data →
    Holds (enqueueFn store other written) slot data
  dequeue_of_holds : ∀ store slot data, Holds store slot data →
    dequeueFn store slot = some (deliver data)

/-- A pointer into the message table is an index below `RPCMSG_BUFFER_SIZE`. -/
abbrev MsgPtr := Fin bufferSize

/-- `rpcmsg_buffer_t`. -/
abbrev Buffer := MsgPtr → Msg

/-- `ring` of `rpcmsg_queue_t`: message ids are `uint16_t`. -/
abbrev RingIds := Fin bufferSize → BitVec 16

/-- `rpcmsg_msg_to_id`. -/
def rpcmsgMsgToId (msg : MsgPtr) : BitVec 16 := BitVec.ofNat 16 msg.val

/-- `rpcmsg_id_to_msg`, stopping at its assertion on the id. -/
def rpcmsgIdToMsg (id : BitVec 16) : Option MsgPtr :=
  if h : id.toNat < bufferSize then some ⟨id.toNat, h⟩ else none

theorem rpcmsgMsgToId_toNat (msg : MsgPtr) : (rpcmsgMsgToId msg).toNat = msg.val := by
  rw [rpcmsgMsgToId, BitVec.toNat_ofNat]
  exact Nat.mod_eq_of_lt (Nat.lt_trans msg.isLt (by decide))

@[simp] theorem rpcmsgIdToMsg_msgToId (msg : MsgPtr) : rpcmsgIdToMsg (rpcmsgMsgToId msg) = some msg := by
  simp [rpcmsgIdToMsg, rpcmsgMsgToId_toNat]

theorem rpcmsgMsgToId_injective : Function.Injective rpcmsgMsgToId := by
  intro a b same
  have ids := congrArg rpcmsgIdToMsg same
  simpa using ids

/-- Slot memory of an event queue: the ring and the queue's own message table. -/
structure EventStore where
  ring : RingIds
  messages : Buffer

/-- `rpcmsg_event_enqueue_fn`: copy the message and put its id to the ring. -/
def rpcmsgEventEnqueueFn (store : EventStore) (index : Fin bufferSize) (data : Msg) : EventStore :=
  let messages := Function.update store.messages index data
  ⟨Function.update store.ring index (rpcmsgMsgToId index), messages⟩

/-- `rpcmsg_event_dequeue_fn`: copy out the message the ring entry names. -/
def rpcmsgEventDequeueFn (store : EventStore) (index : Fin bufferSize) : Option Msg :=
  (rpcmsgIdToMsg (store.ring index)).map store.messages

def eventElement : ElementFns EventStore Msg Msg where
  enqueueFn := rpcmsgEventEnqueueFn
  dequeueFn := rpcmsgEventDequeueFn
  deliver := id
  Holds store slot data := store.ring slot = rpcmsgMsgToId slot ∧ store.messages slot = data
  holds_enqueue store slot data := by simp [rpcmsgEventEnqueueFn]
  holds_frame store slot other data written ne holds := by
    simpa [rpcmsgEventEnqueueFn, Function.update_of_ne ne] using holds
  dequeue_of_holds store slot data holds := by
    simp [rpcmsgEventDequeueFn, holds.1, holds.2]

/-- `rpcmsg_rpc_enqueue_fn`: only the id of the message goes to the ring. -/
def rpcmsgRpcEnqueueFn (ring : RingIds) (index : Fin bufferSize) (data : MsgPtr) : RingIds :=
  Function.update ring index (rpcmsgMsgToId data)

/-- `rpcmsg_rpc_dequeue_fn`: a pointer to the message the ring entry names. -/
def rpcmsgRpcDequeueFn (ring : RingIds) (index : Fin bufferSize) : Option MsgPtr :=
  rpcmsgIdToMsg (ring index)

def rpcElement : ElementFns RingIds MsgPtr MsgPtr where
  enqueueFn := rpcmsgRpcEnqueueFn
  dequeueFn := rpcmsgRpcDequeueFn
  deliver := id
  Holds ring slot data := ring slot = rpcmsgMsgToId data
  holds_enqueue ring slot data := by simp [rpcmsgRpcEnqueueFn]
  holds_frame ring slot other data written ne holds := by
    simpa [rpcmsgRpcEnqueueFn, Function.update_of_ne ne] using holds
  dequeue_of_holds ring slot data holds := by
    simp [rpcmsgRpcDequeueFn, holds]

end Virtioso.Ring
