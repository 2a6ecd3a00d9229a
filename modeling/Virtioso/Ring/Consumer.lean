import Virtioso.Ring.Accesses

/-! A bound that one thread has for itself.

The snapshots of its only thread stay current and its head meets its tail between
two calls, whatever happens on the other bound and however the counters wrap. A
refused dequeue of the only consumer therefore saw an empty queue.
-/

set_option autoImplicit false

namespace Virtioso.Ring

variable {ι Store Data Result : Type}

def Point.side : Point Data Result → Option Side
  | .acquire call _ | .element call _ | .commit call _ _ => some call.side
  | .idle | .returned _ | .aborted => none

/-- A bound as its only thread sees it. -/
def Sole (b : QueueBound) : Point Data Result → Prop
  | .idle | .returned _ | .acquire _ .load => b.tail = b.head
  | .acquire _ (.tailWait ot) | .acquire _ (.entries ot) | .acquire _ (.cas ot) =>
      b.tail = b.head ∧ ot = b.head
  | .element _ _ | .commit _ _ .loadHead => b.tail = nextTail b.head
  | .commit _ _ (.loadTail oh) => b.tail = nextTail b.head ∧ oh = b.head
  | .commit _ _ (.cas oh nh) => b.tail = nextTail b.head ∧ oh = b.head ∧ nh = b.tail
  | .aborted => True

variable [DecidableEq ι] {s t : State ι Store Data Result} {i j : ι} {v : CasVariant}
  {F : ElementFns Store Data Result} {side : Side}

theorem Access.point_of_ne (access : Access s i v F t) (other : j ≠ i) : t.point j = s.point j := by
  cases access <;> exact Function.update_of_ne other ..

theorem Access.bound_of_ne (access : Access s i v F t) (apart : (s.point i).side ≠ some side) :
    t.queue.bound side = s.queue.bound side := by
  cases access with
  | acquire at_ _ =>
    rw [at_] at apart
    exact setTail_of_ne _ _ _ _ fun same => apart (congrArg some same.symm)
  | commit at_ _ =>
    rw [at_] at apart
    exact setHead_of_ne _ _ _ _ fun same => apart (congrArg some same.symm)
  | write => exact store_bound ..
  | load | waitMore | waitOver | refuse | proceed | acquireRetry | read | abort | commitLoad | commitTail
    | commitRetry => rfl

theorem Access.keeps_side (access : Access s i v F t) :
    (t.point i).side = none ∨ (t.point i).side = (s.point i).side := by
  cases access with
  | load at_ | waitMore at_ | waitOver at_ | proceed at_ | acquire at_ | acquireRetry at_ | write at_
    | read at_ | commitLoad at_ | commitTail at_ | commitRetry at_ =>
    right
    rw [at_]
    simp [State.put, State.afterAcquire, State.afterWrite, Point.side]
  | refuse | abort | commit =>
    left
    simp [State.put, State.afterCommit, Point.side]

/-- A head moves only in the access that ends a call, which then has not been refused. -/
theorem Access.head (access : Access s i v F t) (side : Side) :
    (t.queue.bound side).head = (s.queue.bound side).head ∨
      ∃ value, t.point i = .returned value ∧ value ≠ .refused := by
  cases access with
  | acquire => exact .inl (setTail_head ..)
  | write => exact .inl (congrArg QueueBound.head (store_bound ..))
  | @commit call got =>
    refine .inr ⟨committedReturn got, Function.update_self .., ?_⟩
    cases got <;> simp [committedReturn]
  | load | waitMore | waitOver | refuse | proceed | acquireRetry | read | abort | commitLoad | commitTail
    | commitRetry => exact .inl rfl

theorem Sole.access (sole : Sole (s.queue.bound side) (s.point i)) (own : (s.point i).side = some side)
    (access : Access s i v F t) : Sole (t.queue.bound side) (t.point i) := by
  cases access with
  | load at_ | waitMore at_ | waitOver at_ | proceed at_ | refuse at_ | read at_ | abort at_ =>
    rw [at_] at sole own
    cases own
    simp_all [State.put, Sole]
  | acquire at_ tail =>
    rw [at_] at sole own
    cases own
    obtain ⟨meets, rfl⟩ := sole
    simp [State.afterAcquire, State.put, Sole]
  | acquireRetry at_ moved =>
    rw [at_] at sole own
    cases own
    -- nobody else moves the tail, so the compare-and-swap cannot fail
    exact absurd (sole.1.trans sole.2.symm) moved
  | write at_ =>
    rw [at_] at sole own
    cases own
    simpa [State.afterWrite, State.put, Sole] using sole
  | commitLoad at_ =>
    rw [at_] at sole own
    cases own
    simpa [State.put, Sole] using sole
  | commitTail at_ =>
    rw [at_] at sole own
    cases own
    obtain ⟨ahead, rfl⟩ := sole
    simp [State.put, Sole, ahead, nextHead_nextTail]
  | commit at_ head =>
    rw [at_] at sole own
    cases own
    obtain ⟨ahead, rfl, rfl⟩ := sole
    simp [State.afterCommit, State.put, Sole]
  | commitRetry at_ moved =>
    rw [at_] at sole own
    cases own
    -- nor the head
    exact absurd sole.2.1.symm moved

/-- The dequeue that the only consumer is refused saw an empty queue. -/
theorem Access.refused_empty (access : Access s i v F t) (own : (s.point i).side = some .cons)
    (sole : Sole (s.queue.bound .cons) (s.point i)) (refused : t.point i = .returned .refused) :
    rpcmsgQueueEmpty t.queue = true := by
  cases access with
  | @refuse call ot at_ none =>
    rw [at_] at sole own
    have dequeue : call.side = .cons := Option.some.inj own
    obtain ⟨_, rfl⟩ := sole
    rw [dequeue] at none
    have level : s.queue.prod.head.pos = s.queue.cons.head.pos := by
      simp only [acquireEntries, acquireConsEntries, Queue.bound] at none
      bv_omega
    simp [State.put, rpcmsgQueueEmpty, level]
  | @commit call got =>
    cases got <;> simp [State.afterCommit, State.put, committedReturn] at refused
  | load | waitMore | waitOver | proceed | acquire | acquireRetry | write | read | abort | commitLoad
    | commitTail | commitRetry =>
    simp [State.put, State.afterAcquire, State.afterWrite] at refused

end Virtioso.Ring
