import Virtioso.Ring.Fifo

/-! The counts of the markers matter only against each other.

Positions index the ring and are compared between the two bounds. Counts are compared on
one bound only, so a queue whose counts are off by a constant does the same.
-/

set_option autoImplicit false

namespace Virtioso.Ring

variable {Store Data Result : Type}

def Marker.recount (m : Marker) (k : BitVec 32) : Marker := ⟨m.pos, m.count + k⟩

def QueueBound.recount (b : QueueBound) (k : BitVec 32) : QueueBound := ⟨b.tail.recount k, b.head.recount k⟩

/-- The counts of each bound, off by a constant of its own. -/
def Queue.recount (q : Queue Store) (k : Side → BitVec 32) : Queue Store :=
  ⟨q.prod.recount (k .prod), q.cons.recount (k .cons), q.store⟩

def Acquire.recount (k : BitVec 32) : Acquire → Acquire
  | .load => .load
  | .tailWait ot => .tailWait (ot.recount k)
  | .entries ot => .entries (ot.recount k)
  | .cas ot => .cas (ot.recount k)

def AcquireStep.recount (k : BitVec 32) : AcquireStep → AcquireStep
  | .running next => .running (next.recount k)
  | .refused => .refused
  | .acquired entry => .acquired entry

def Commit.recount (k : BitVec 32) : Commit → Commit
  | .loadHead => .loadHead
  | .loadTail oh => .loadTail (oh.recount k)
  | .cas oh nh => .cas (oh.recount k) (nh.recount k)

def Point.recount (k : Side → BitVec 32) : Point Data Result → Point Data Result
  | .acquire call point => .acquire call (point.recount (k call.side))
  | .commit call got point => .commit call got (point.recount (k call.side))
  | .idle => .idle
  | .element call entry => .element call entry
  | .returned value => .returned value
  | .aborted => .aborted

section Markers
variable (k : BitVec 32) (m n : Marker)

@[simp] theorem recount_pos : (m.recount k).pos = m.pos := rfl

@[simp] theorem recount_inj : m.recount k = n.recount k ↔ m = n := by
  cases m
  cases n
  simp [Marker.recount]

theorem succ_recount (count : BitVec 32) : count + k + 1#32 = count + 1#32 + k := by
  rw [BitVec.add_assoc, BitVec.add_comm k, BitVec.add_assoc]

theorem nextTail_recount : nextTail (m.recount k) = (nextTail m).recount k := by
  simp only [nextTail, Marker.recount, succ_recount]

theorem nextHead_recount : nextHead (m.recount k) (n.recount k) = (nextHead m n).recount k := by
  simp only [nextHead, Marker.recount, succ_recount, BitVec.add_left_inj]
  split <;> rfl

theorem expected_recount (v : CasVariant) : v.expected (m.recount k) (n.recount k) = (v.expected m n).recount k := by
  cases v <;> rfl

end Markers

section Queues
variable (q : Queue Store) (k : Side → BitVec 32) (side : Side) (m : Marker)

@[simp] theorem recount_bound : (q.recount k).bound side = (q.bound side).recount (k side) := by
  cases side <;> rfl

theorem recount_setTail : (q.recount k).setTail side (m.recount (k side)) = (q.setTail side m).recount k := by
  cases side <;> rfl

theorem recount_setHead : (q.recount k).setHead side (m.recount (k side)) = (q.setHead side m).recount k := by
  cases side <;> rfl

theorem recount_entries : acquireEntries (q.recount k) side (m.recount (k side)) = acquireEntries q side m := by
  cases side <;> rfl

end Queues

section Calls
variable (v : CasVariant) (F : ElementFns Store Data Result) (k : Side → BitVec 32) (q : Queue Store)

theorem acquire_recount (side : Side) (point : Acquire) :
    rpcmsgAcquireEntry v side (q.recount k) (point.recount (k side)) =
      ((rpcmsgAcquireEntry v side q point).1.recount k, (rpcmsgAcquireEntry v side q point).2.recount (k side)) := by
  cases point with
  | load => simp [rpcmsgAcquireEntry, Acquire.recount, AcquireStep.recount, QueueBound.recount]
  | tailWait ot =>
    by_cases far : ot.pos - (q.bound side).head.pos > htdMax
    · simp [rpcmsgAcquireEntry, Acquire.recount, AcquireStep.recount, QueueBound.recount, far]
    · simp [rpcmsgAcquireEntry, Acquire.recount, AcquireStep.recount, QueueBound.recount, far]
  | entries ot =>
    by_cases none : acquireEntries q side ot = 0#32
    · simp [rpcmsgAcquireEntry, Acquire.recount, AcquireStep.recount, recount_entries, none]
    · simp [rpcmsgAcquireEntry, Acquire.recount, AcquireStep.recount, recount_entries, none]
  | cas ot =>
    by_cases same : (q.bound side).tail = ot
    · simp [rpcmsgAcquireEntry, Acquire.recount, AcquireStep.recount, QueueBound.recount, same, nextTail_recount,
        recount_setTail]
    · simp [rpcmsgAcquireEntry, Acquire.recount, AcquireStep.recount, QueueBound.recount, same, expected_recount]

theorem commit_recount (side : Side) (point : Commit) :
    rpcmsgCommitUpdate v side (q.recount k) (point.recount (k side)) =
      ((rpcmsgCommitUpdate v side q point).1.recount k,
        (rpcmsgCommitUpdate v side q point).2.map (Commit.recount (k side))) := by
  cases point with
  | loadHead => simp [rpcmsgCommitUpdate, Commit.recount, QueueBound.recount]
  | loadTail oh => simp [rpcmsgCommitUpdate, Commit.recount, QueueBound.recount, nextHead_recount]
  | cas oh nh =>
    by_cases same : (q.bound side).head = oh
    · simp [rpcmsgCommitUpdate, Commit.recount, QueueBound.recount, same, recount_setHead]
    · simp [rpcmsgCommitUpdate, Commit.recount, QueueBound.recount, same, expected_recount]

/-- A thread whose snapshots are off by the same constants takes the same step. -/
theorem solo_recount (p : Point Data Result) : solo v F (q.recount k, p.recount k) =
    ((solo v F (q, p)).1.recount k, (solo v F (q, p)).2.recount k) := by
  cases p with
  | idle | returned _ | aborted => rfl
  | element call entry =>
    cases call with
    | enqueue data => rfl
    | dequeue =>
      cases read : F.dequeueFn q.store (ringIndex entry) with
      | none => simp [solo, advance, Point.recount, Queue.recount, read]
      | some result => simp [solo, advance, Point.recount, Queue.recount, Commit.recount, read]
  | acquire call point =>
    simp only [solo, advance, Point.recount, acquire_recount]
    cases ended : rpcmsgAcquireEntry v call.side q point with
    | mk next step => cases step <;> rfl
  | commit call got point =>
    simp only [solo, advance, Point.recount, commit_recount]
    cases ended : rpcmsgCommitUpdate v call.side q point with
    | mk next step => cases step <;> rfl

theorem solo_iterate_recount (n : Nat) (p : Point Data Result) : (solo v F)^[n] (q.recount k, p.recount k) =
    (((solo v F)^[n] (q, p)).1.recount k, ((solo v F)^[n] (q, p)).2.recount k) := by
  induction n generalizing q p with
  | zero => rfl
  | succ n ih =>
    rw [Function.iterate_succ_apply, Function.iterate_succ_apply, solo_recount, ih]

theorem complete_recount (call : Call Data) : complete v F (q.recount k) call =
    (complete v F q call).map fun (next, value) => (next.recount k, value) := by
  have ends : (solo v F)^[8] (q.recount k, .acquire call .load) =
      (((solo v F)^[8] (q, .acquire call .load)).1.recount k, ((solo v F)^[8] (q, .acquire call .load)).2.recount k) :=
    solo_iterate_recount v F k q 8 (.acquire call .load)
  unfold complete
  rw [ends]
  cases (solo v F)^[8] (q, .acquire call .load) with
  | mk next point => cases point <;> rfl

end Calls

end Virtioso.Ring
