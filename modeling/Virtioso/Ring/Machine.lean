import Virtioso.Ring.Elements

/-! One thread inside `rpcmsg_enqueue` or `rpcmsg_dequeue`, one shared access at a time.

The control points of `rpcmsg_acquire_prod_entry` and `rpcmsg_acquire_cons_entry`
are the same, and so is `rpcmsg_commit_update` for both bounds; they differ in the
bound they work on and in the `entries` computation.
-/

set_option autoImplicit false

namespace Virtioso.Ring

/-- The two definitions of `atomic_compare_and_swap`: the compiler builtin of
user space and the one on `arch_cmpxchg` of the kernel. -/
inductive CasVariant where
  | user
  | kernel
  deriving DecidableEq, Repr

/-- The caller's expected value after a failed compare-and-swap. Only the
builtin stores the value it found; `arch_cmpxchg` takes the value, not its address. -/
def CasVariant.expected (v : CasVariant) (old found : Marker) : Marker :=
  match v with
  | .user => found
  | .kernel => old

/-- Control points of the acquire functions, with the local `ot`. -/
inductive Acquire where
  /-- before `ot.raw = atomic_load_acquire(&bound->tail.raw)`, in the function or in its wait loop -/
  | load
  /-- before the loop condition of `rpcmsg_tail_wait` reads the head of the own bound -/
  | tailWait (ot : Marker)
  /-- before `entries` reads the head of the other bound -/
  | entries (ot : Marker)
  /-- before the compare-and-swap on the tail -/
  | cas (ot : Marker)
  deriving DecidableEq, Repr

inductive AcquireStep where
  | running (point : Acquire)
  | refused
  | acquired (entry : BitVec 32)
  deriving DecidableEq, Repr

/-- Control points of `rpcmsg_commit_update`, with the locals `oh` and `nh`. -/
inductive Commit where
  | loadHead
  | loadTail (oh : Marker)
  | cas (oh nh : Marker)
  deriving DecidableEq, Repr

variable {Store Data Result : Type}

/-- The next marker `nt` of an acquire function. -/
def nextTail (ot : Marker) : Marker := ⟨ot.pos + 1#32, ot.count + 1#32⟩

/-- `rpcmsg_acquire_prod_entry` and `rpcmsg_acquire_cons_entry`, one access. -/
def rpcmsgAcquireEntry (v : CasVariant) (side : Side) (q : Queue Store) :
    Acquire → Queue Store × AcquireStep
  | .load => (q, .running (.tailWait (q.bound side).tail))
  | .tailWait ot =>
      if ot.pos - (q.bound side).head.pos > htdMax then (q, .running .load)
      else (q, .running (.entries ot))
  | .entries ot =>
      if acquireEntries q side ot = 0#32 then (q, .refused) else (q, .running (.cas ot))
  | .cas ot =>
      if (q.bound side).tail = ot then (q.setTail side (nextTail ot), .acquired ot.pos)
      else (q, .running (.tailWait (v.expected ot (q.bound side).tail)))

/-- The new head of `rpcmsg_commit_update`: the position follows the tail only
when this commit makes the counts meet. -/
def nextHead (oh t : Marker) : Marker :=
  if oh.count + 1#32 = t.count then ⟨t.pos, oh.count + 1#32⟩ else ⟨oh.pos, oh.count + 1#32⟩

theorem nextHead_nextTail (m : Marker) : nextHead m (nextTail m) = nextTail m := by
  simp [nextHead, nextTail]

/-- `rpcmsg_commit_update`, one access; `none` when it returns. -/
def rpcmsgCommitUpdate (v : CasVariant) (side : Side) (q : Queue Store) :
    Commit → Queue Store × Option Commit
  | .loadHead => (q, some (.loadTail (q.bound side).head))
  | .loadTail oh => (q, some (.cas oh (nextHead oh (q.bound side).tail)))
  | .cas oh nh =>
      if (q.bound side).head = oh then (q.setHead side nh, none)
      else (q, some (.loadTail (v.expected oh (q.bound side).head)))

inductive Call (Data : Type) where
  | enqueue (data : Data)
  | dequeue
  deriving DecidableEq, Repr

def Call.side : Call Data → Side
  | .enqueue _ => .prod
  | .dequeue => .cons

/-- Return of a call: -1, 0 of an enqueue, or 0 of a dequeue with what its
element function delivered. -/
inductive Return (Result : Type) where
  | refused
  | enqueued
  | dequeued (result : Result)
  deriving DecidableEq, Repr

inductive Point (Data Result : Type) where
  | idle
  | acquire (call : Call Data) (point : Acquire)
  | element (call : Call Data) (entry : BitVec 32)
  | commit (call : Call Data) (got : Option Result) (point : Commit)
  | returned (value : Return Result)
  /-- an assertion of the element function failed -/
  | aborted
  deriving DecidableEq, Repr

/-- The value `rpcmsg_enqueue` or `rpcmsg_dequeue` returns after its commit. -/
def committedReturn : Option Result → Return Result
  | none => .enqueued
  | some result => .dequeued result

/-- `rpcmsg_enqueue` and `rpcmsg_dequeue`, one access of the calling thread. -/
def advance (v : CasVariant) (F : ElementFns Store Data Result) (q : Queue Store) :
    Point Data Result → Queue Store × Point Data Result
  | .acquire call point =>
      match rpcmsgAcquireEntry v call.side q point with
      | (q, .running next) => (q, .acquire call next)
      | (q, .refused) => (q, .returned .refused)
      | (q, .acquired entry) => (q, .element call entry)
  | .element (.enqueue data) entry =>
      ({ q with store := F.enqueueFn q.store (ringIndex entry) data },
        .commit (.enqueue data) none .loadHead)
  | .element .dequeue entry =>
      match F.dequeueFn q.store (ringIndex entry) with
      | some result => (q, .commit .dequeue (some result) .loadHead)
      | none => (q, .aborted)
  | .commit call got point =>
      match rpcmsgCommitUpdate v call.side q point with
      | (q, some next) => (q, .commit call got next)
      | (q, none) => (q, .returned (committedReturn got))
  | point => (q, point)

def Point.running : Point Data Result → Bool
  | .acquire _ _ | .element _ _ | .commit _ _ _ => true
  | .idle | .returned _ | .aborted => false

def Point.inFlight : Point Data Result → Option Side
  | .element call _ | .commit call _ _ => some call.side
  | .idle | .acquire _ _ | .returned _ | .aborted => none

end Virtioso.Ring
