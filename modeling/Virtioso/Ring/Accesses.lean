import Virtioso.Ring.Threads

/-! What one access can do, said once.

Every invariant of the ring is proved by the cases below. An access changes the
queue or the history in three of them only: an acquire, a slot write, a commit.
-/

set_option autoImplicit false

namespace Virtioso.Ring

variable {ι Store Data Result : Type} [DecidableEq ι]

def State.put (s : State ι Store Data Result) (i : ι) (p : Point Data Result) (m : Mine) :
    State ι Store Data Result :=
  { s with point := Function.update s.point i p, mine := Function.update s.mine i m }

variable (s : State ι Store Data Result) (i : ι)

def State.afterAcquire (call : Call Data) (ot : Marker) : State ι Store Data Result :=
  { s.put i (.element call ot.pos)
      { s.mine i with position := s.history.acquired call.side } with
    queue := s.queue.setTail call.side (nextTail ot)
    history := s.history.hand call.side (s.mine i).call }

def State.afterWrite (F : ElementFns Store Data Result) (data : Data) (entry : BitVec 32) :
    State ι Store Data Result :=
  { s.put i (.commit (.enqueue data) none .loadHead) (s.mine i) with
    queue := { s.queue with store := F.enqueueFn s.queue.store (ringIndex entry) data } }

def State.afterCommit (call : Call Data) (got : Option Result) (oh nh : Marker) :
    State ι Store Data Result :=
  { s.put i (.returned (committedReturn got)) (s.mine i) with
    queue := s.queue.setHead call.side nh
    history := s.history.commit call.side (s.mine i).position (nh.pos - oh.pos) }

inductive Access (v : CasVariant) (F : ElementFns Store Data Result) :
    State ι Store Data Result → Prop where
  | load {call : Call Data} : s.point i = .acquire call .load →
      Access v F (s.put i (.acquire call (.tailWait (s.queue.bound call.side).tail))
        { s.mine i with seen := s.history.acquired call.side })
  | waitMore {call : Call Data} {ot : Marker} : s.point i = .acquire call (.tailWait ot) →
      ot.pos - (s.queue.bound call.side).head.pos > htdMax →
      Access v F (s.put i (.acquire call .load) (s.mine i))
  | waitOver {call : Call Data} {ot : Marker} : s.point i = .acquire call (.tailWait ot) →
      ¬ot.pos - (s.queue.bound call.side).head.pos > htdMax →
      Access v F (s.put i (.acquire call (.entries ot)) (s.mine i))
  | refuse {call : Call Data} {ot : Marker} : s.point i = .acquire call (.entries ot) →
      acquireEntries s.queue call.side ot = 0#32 →
      Access v F (s.put i (.returned .refused) (s.mine i))
  | proceed {call : Call Data} {ot : Marker} : s.point i = .acquire call (.entries ot) →
      acquireEntries s.queue call.side ot ≠ 0#32 →
      Access v F (s.put i (.acquire call (.cas ot)) (s.mine i))
  | acquire {call : Call Data} {ot : Marker} : s.point i = .acquire call (.cas ot) →
      (s.queue.bound call.side).tail = ot → Access v F (s.afterAcquire i call ot)
  | acquireRetry {call : Call Data} {ot : Marker} : s.point i = .acquire call (.cas ot) →
      (s.queue.bound call.side).tail ≠ ot →
      Access v F (s.put i
        (.acquire call (.tailWait (v.expected ot (s.queue.bound call.side).tail)))
        (v.reload (s.mine i) (s.history.acquired call.side)))
  | write {data : Data} {entry : BitVec 32} : s.point i = .element (.enqueue data) entry →
      Access v F (s.afterWrite i F data entry)
  | read {entry : BitVec 32} {result : Result} : s.point i = .element .dequeue entry →
      F.dequeueFn s.queue.store (ringIndex entry) = some result →
      Access v F (s.put i (.commit .dequeue (some result) .loadHead) (s.mine i))
  | abort {entry : BitVec 32} : s.point i = .element .dequeue entry →
      F.dequeueFn s.queue.store (ringIndex entry) = none →
      Access v F (s.put i .aborted (s.mine i))
  | commitLoad {call : Call Data} {got : Option Result} : s.point i = .commit call got .loadHead →
      Access v F (s.put i (.commit call got (.loadTail (s.queue.bound call.side).head))
        { s.mine i with seen := s.history.commits call.side })
  | commitTail {call : Call Data} {got : Option Result} {oh : Marker} :
      s.point i = .commit call got (.loadTail oh) →
      Access v F (s.put i
        (.commit call got (.cas oh (nextHead oh (s.queue.bound call.side).tail))) (s.mine i))
  | commit {call : Call Data} {got : Option Result} {oh nh : Marker} :
      s.point i = .commit call got (.cas oh nh) → (s.queue.bound call.side).head = oh →
      Access v F (s.afterCommit i call got oh nh)
  | commitRetry {call : Call Data} {got : Option Result} {oh nh : Marker} :
      s.point i = .commit call got (.cas oh nh) → (s.queue.bound call.side).head ≠ oh →
      Access v F (s.put i
        (.commit call got (.loadTail (v.expected oh (s.queue.bound call.side).head)))
        (v.reload (s.mine i) (s.history.commits call.side)))

variable {s i}

attribute [local simp] State.access State.record advance rpcmsgAcquireEntry rpcmsgCommitUpdate State.put
  State.afterAcquire State.afterWrite State.afterCommit

theorem access_cases (v : CasVariant) (F : ElementFns Store Data Result)
    (running : (s.point i).running = true) : Access s i v F (s.access v F i) := by
  cases at_ : s.point i with
  | idle | returned _ | aborted => simp [at_, Point.running] at running
  | acquire call point =>
    cases point with
    | load => simpa [at_] using Access.load (v := v) (F := F) at_
    | tailWait ot =>
      by_cases far : ot.pos - (s.queue.bound call.side).head.pos > htdMax
      · simpa [at_, far] using Access.waitMore (v := v) (F := F) at_ far
      · simpa [at_, far] using Access.waitOver (v := v) (F := F) at_ far
    | entries ot =>
      by_cases none : acquireEntries s.queue call.side ot = 0#32
      · simpa [at_, none] using Access.refuse (v := v) (F := F) at_ none
      · simpa [at_, none] using Access.proceed (v := v) (F := F) at_ none
    | cas ot =>
      by_cases same : (s.queue.bound call.side).tail = ot
      · simpa [at_, same] using Access.acquire (v := v) (F := F) at_ same
      · simpa [at_, same] using Access.acquireRetry (v := v) (F := F) at_ same
  | element call entry =>
    cases call with
    | enqueue data => simpa [at_] using Access.write (v := v) (F := F) at_
    | dequeue =>
      cases read : F.dequeueFn s.queue.store (ringIndex entry) with
      | none => simpa [at_, read] using Access.abort (v := v) (F := F) at_ read
      | some result => simpa [at_, read] using Access.read (v := v) (F := F) at_ read
  | commit call got point =>
    cases point with
    | loadHead => simpa [at_] using Access.commitLoad (v := v) (F := F) at_
    | loadTail oh => simpa [at_] using Access.commitTail (v := v) (F := F) at_
    | cas oh nh =>
      by_cases same : (s.queue.bound call.side).head = oh
      · simpa [at_, same] using Access.commit (v := v) (F := F) at_ same
      · simpa [at_, same] using Access.commitRetry (v := v) (F := F) at_ same

/-- A step is a call of a thread without one, or an access of a running thread. -/
theorem step_cases {v : CasVariant} {F : ElementFns Store Data Result} {a : Action ι Data}
    {t : State ι Store Data Result} (edge : step v F s a = some t) :
    (∃ i call, a = .invoke i call ∧ (s.point i).ready = true ∧ t = s.invoke i call) ∨
    (∃ i, a = .access i ∧ (s.point i).running = true ∧ Access s i v F t) := by
  cases a with
  | invoke i call =>
    simp only [step, Option.ite_none_right_eq_some, Option.some.injEq] at edge
    exact .inl ⟨i, call, rfl, edge.1, edge.2.symm⟩
  | access i =>
    simp only [step, Option.ite_none_right_eq_some, Option.some.injEq] at edge
    exact .inr ⟨i, rfl, edge.1, edge.2 ▸ access_cases v F edge.1⟩

end Virtioso.Ring
