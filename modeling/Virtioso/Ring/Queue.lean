import Mathlib.Algebra.Ring.Nat
import Mathlib.Logic.Function.Basic
import Mathlib.Tactic.Common

/-! Shared memory of `rpc_queue.h`: markers, bounds, the ring and its messages.

A queue has a producer and a consumer bound. Each bound has a tail, advanced
when an entry is acquired, and a head, advanced when entries are committed.
Positions and counts run freely through 32 bits.
-/

set_option autoImplicit false

namespace Virtioso.Ring

/-- `RPCMSG_BUFFER_SIZE`, the length of the ring and of the message table. -/
abbrev bufferSize : Nat := 32

instance : NeZero bufferSize := ⟨by decide⟩

/-- `RPCMSG_HTD_MAX`, the head/tail distance at which acquirers wait. -/
def htdMax : BitVec 32 := 8#32

/-- `rpcmsg_t`: the four message words. -/
structure Msg where
  mr0 : BitVec 64
  mr1 : BitVec 64
  mr2 : BitVec 64
  mr3 : BitVec 64
  deriving DecidableEq, Repr

/-- `rpcmsg_marker_t`; `raw` is the pair, `val` is the low word, hence `pos`. -/
@[ext]
structure Marker where
  pos : BitVec 32
  count : BitVec 32
  deriving DecidableEq, Repr

/-- `rpcmsg_queue_bound_t`. -/
structure QueueBound where
  tail : Marker
  head : Marker
  deriving DecidableEq, Repr

inductive Side where
  | prod
  | cons
  deriving DecidableEq, Repr

/-- `rpcmsg_queue_t`, with the memory that its element functions access: the
`ring` array and, for event queues, the message table. -/
structure Queue (Store : Type) where
  prod : QueueBound
  cons : QueueBound
  store : Store

variable {Store : Type}

def Marker.zero : Marker := ⟨0#32, 0#32⟩

/-- `rpcmsg_queue_init` on the markers; the zeroed slots are given by the caller. -/
def rpcmsgQueueInit (zeroed : Store) : Queue Store :=
  ⟨⟨.zero, .zero⟩, ⟨.zero, .zero⟩, zeroed⟩

def Queue.bound (q : Queue Store) : Side → QueueBound
  | .prod => q.prod
  | .cons => q.cons

def Queue.setTail (q : Queue Store) (side : Side) (m : Marker) : Queue Store :=
  match side with
  | .prod => { q with prod := { q.prod with tail := m } }
  | .cons => { q with cons := { q.cons with tail := m } }

def Queue.setHead (q : Queue Store) (side : Side) (m : Marker) : Queue Store :=
  match side with
  | .prod => { q with prod := { q.prod with head := m } }
  | .cons => { q with cons := { q.cons with head := m } }

section
variable (q : Queue Store) (side other : Side) (m : Marker)

@[simp] theorem setTail_tail : ((q.setTail side m).bound side).tail = m := by cases side <;> rfl
@[simp] theorem setTail_head : ((q.setTail side m).bound other).head = (q.bound other).head := by
  cases side <;> cases other <;> rfl
@[simp] theorem setHead_head : ((q.setHead side m).bound side).head = m := by cases side <;> rfl
@[simp] theorem setHead_tail : ((q.setHead side m).bound other).tail = (q.bound other).tail := by
  cases side <;> cases other <;> rfl
@[simp] theorem setTail_store : (q.setTail side m).store = q.store := by cases side <;> rfl
@[simp] theorem setHead_store : (q.setHead side m).store = q.store := by cases side <;> rfl
@[simp] theorem store_bound (store : Store) : ({ q with store := store } : Queue Store).bound side =
    q.bound side := by cases side <;> rfl

theorem setTail_of_ne (ne : other ≠ side) : (q.setTail side m).bound other = q.bound other := by
  cases side <;> cases other <;> first | rfl | contradiction

theorem setHead_of_ne (ne : other ≠ side) : (q.setHead side m).bound other = q.bound other := by
  cases side <;> cases other <;> first | rfl | contradiction

end

/-- `entries` of `rpcmsg_acquire_prod_entry`: room left for the producer. -/
def acquireProdEntries (q : Queue Store) (ot : Marker) : BitVec 32 :=
  32#32 + q.cons.head.pos - ot.pos

/-- `entries` of `rpcmsg_acquire_cons_entry`: elements visible to the consumer. -/
def acquireConsEntries (q : Queue Store) (ot : Marker) : BitVec 32 :=
  q.prod.head.pos - ot.pos

def acquireEntries (q : Queue Store) : Side → Marker → BitVec 32
  | .prod => acquireProdEntries q
  | .cons => acquireConsEntries q

/-- `rpcmsg_queue_full`. -/
def rpcmsgQueueFull (q : Queue Store) : Bool :=
  32#32 + q.cons.tail.pos - q.prod.tail.pos == 0#32

/-- `rpcmsg_queue_empty`. -/
def rpcmsgQueueEmpty (q : Queue Store) : Bool :=
  q.prod.head.pos == q.cons.head.pos

/-- `entry & RPCMSG_BUFFER_MASK`. -/
def ringIndex (entry : BitVec 32) : Fin bufferSize :=
  ⟨(entry &&& 31#32).toNat, by
    rw [BitVec.toNat_and]
    exact Nat.lt_of_le_of_lt Nat.and_le_right (by decide)⟩

theorem ringIndex_val (entry : BitVec 32) : (ringIndex entry).val = entry.toNat % bufferSize := by
  have mask : (31#32).toNat = 2 ^ 5 - 1 := by decide
  simp only [ringIndex, BitVec.toNat_and, mask, Nat.and_two_pow_sub_one_eq_mod, bufferSize]

theorem ringIndex_ofNat (p : Nat) : (ringIndex (BitVec.ofNat 32 p)).val = p % bufferSize := by
  rw [ringIndex_val, BitVec.toNat_ofNat]
  exact Nat.mod_mod_of_dvd p (by decide)

end Virtioso.Ring
