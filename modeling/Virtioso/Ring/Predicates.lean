import Virtioso.Foundation.Runs
import Virtioso.Ring.Fifo

/-! The predicates on a queue, and what the operations decide themselves.

`rpcmsg_queue_full` and `rpcmsg_queue_empty` compare other markers than the acquire
functions. Between complete operations head and tail of a bound agree, and with them
the answers.
-/

set_option autoImplicit false

namespace Virtioso.Ring

open Foundation

variable {Store Data Result : Type}

/-- The queue after a complete call, whatever it returns. -/
def callStep (v : CasVariant) (F : ElementFns Store Data Result) (q : Queue Store) (call : Call Data) :
    Option (Queue Store) :=
  (complete v F q call).map Prod.fst

abbrev Called (v : CasVariant) (F : ElementFns Store Data Result) (zeroed : Store) : Queue Store → Prop :=
  Reach (callStep v F) anyStep (rpcmsgQueueInit zeroed)

def Refuses (v : CasVariant) (F : ElementFns Store Data Result) (q : Queue Store) (call : Call Data) : Prop :=
  ∃ next, complete v F q call = some (next, .refused)

variable {v : CasVariant} {F : ElementFns Store Data Result} {q next : Queue Store}
variable {taken : Nat} {contents : List Data}

theorem Holding.call (holding : Holding F q contents) {call : Call Data} (edge : callStep v F q call = some next) :
    ∃ contents, Holding F next contents := by
  obtain ⟨⟨after, value⟩, returns, rfl⟩ := Option.map_eq_some_iff.mp edge
  cases call with
  | enqueue data =>
    by_cases room : contents.length < bufferSize
    · obtain ⟨appended, completes, keeps⟩ := holding.enqueue (v := v) room data
      cases returns.symm.trans completes
      exact ⟨_, keeps⟩
    · have full : contents.length = bufferSize := Nat.le_antisymm holding.fits (Nat.le_of_not_lt room)
      cases returns.symm.trans (holding.enqueue_full full data)
      exact ⟨_, holding⟩
  | dequeue =>
    cases contents with
    | nil =>
      cases returns.symm.trans holding.dequeue_empty
      exact ⟨_, holding⟩
    | cons oldest rest =>
      obtain ⟨taken, completes, keeps⟩ := holding.dequeue (v := v)
      cases returns.symm.trans completes
      exact ⟨_, keeps⟩

theorem called_holding {zeroed : Store} (called : Called v F zeroed q) : ∃ contents, Holding F q contents := by
  induction called with
  | start => exact ⟨[], holding_init F zeroed⟩
  | next _ _ edge ih =>
    obtain ⟨contents, holding⟩ := ih
    exact holding.call edge

/-! ### What the predicates and the operations find -/

/-- The tail of the consumers is their head, so that the predicate computes `entries`. -/
theorem Represents.full_iff (represents : Represents F q taken contents) :
    rpcmsgQueueFull q = true ↔ contents.length = bufferSize := by
  have fits := represents.fits
  have entries := represents.prod_entries
  have settled : q.cons.tail = q.cons.head := by
    have cons : q.cons = _ := represents.cons
    rw [cons]
  have same : rpcmsgQueueFull q = (acquireEntries q .prod (q.bound .prod).tail == 0#32) := by
    rw [rpcmsgQueueFull, settled]
    rfl
  rw [same, beq_iff_eq, ← BitVec.toNat_inj, entries, BitVec.toNat_zero]
  omega

theorem Represents.empty_iff (represents : Represents F q taken contents) :
    rpcmsgQueueEmpty q = true ↔ contents = [] := by
  have entries := represents.cons_entries
  have settled : q.cons.head = q.cons.tail := by
    have cons : q.cons = _ := represents.cons
    rw [cons]
  rw [rpcmsgQueueEmpty, settled, beq_iff_eq, ← List.length_eq_zero_iff, ← entries]
  constructor
  · intro same
    simp [acquireEntries, acquireConsEntries, Queue.bound, same]
  · intro none
    have zero : q.prod.head.pos - q.cons.tail.pos = 0#32 := BitVec.eq_of_toNat_eq none
    bv_omega

theorem Holding.full_iff (holding : Holding F q contents) :
    rpcmsgQueueFull q = true ↔ contents.length = bufferSize := by
  obtain ⟨taken, represents⟩ := holding
  exact represents.full_iff

theorem Holding.empty_iff (holding : Holding F q contents) : rpcmsgQueueEmpty q = true ↔ contents = [] := by
  obtain ⟨taken, represents⟩ := holding
  exact represents.empty_iff

theorem Holding.refuses_enqueue (holding : Holding F q contents) (data : Data) :
    Refuses v F q (.enqueue data) ↔ contents.length = bufferSize := by
  constructor
  · rintro ⟨next, refused⟩
    by_contra room
    have below : contents.length < bufferSize := Nat.lt_of_le_of_ne holding.fits room
    obtain ⟨appended, completes, _⟩ := holding.enqueue (v := v) below data
    cases refused.symm.trans completes
  · intro full
    exact ⟨q, holding.enqueue_full full data⟩

theorem Holding.refuses_dequeue (holding : Holding F q contents) : Refuses v F q .dequeue ↔ contents = [] := by
  constructor
  · rintro ⟨next, refused⟩
    cases contents with
    | nil => rfl
    | cons oldest rest =>
      obtain ⟨taken, completes, _⟩ := holding.dequeue (v := v)
      cases refused.symm.trans completes
  · rintro rfl
    exact ⟨q, holding.dequeue_empty⟩

/-- In every state that complete calls reach, for any element functions, the predicates
say what the next enqueue and the next dequeue return. -/
theorem queue_predicates_agree (v : CasVariant) (F : ElementFns Store Data Result) (zeroed : Store)
    (q : Queue Store) (called : Called v F zeroed q) :
    (∀ data, rpcmsgQueueFull q = true ↔ Refuses v F q (.enqueue data)) ∧
      (rpcmsgQueueEmpty q = true ↔ Refuses v F q .dequeue) := by
  obtain ⟨contents, holding⟩ := called_holding called
  constructor
  · intro data
    rw [holding.full_iff, holding.refuses_enqueue data]
  · rw [holding.empty_iff, holding.refuses_dequeue]

def oneQueued : Queue RingIds := (rpcmsgQueueInit fun _ => 0#16).append rpcElement 0

theorem oneQueued_called (v : CasVariant) : Called v rpcElement (fun _ => 0#16) oneQueued := by
  have near : Near (rpcmsgQueueInit fun _ : Fin bufferSize => 0#16) (Call.enqueue (0 : MsgPtr)).side .zero :=
    near_of_settled rfl
  have appends : complete v rpcElement (rpcmsgQueueInit fun _ => 0#16) (.enqueue 0) =
      some (oneQueued, .enqueued) := complete_append near (by decide)
  refine .next (a := .enqueue 0) .start trivial ?_
  rw [callStep, appends]
  rfl

theorem queue_predicates_one : ¬Refuses .user rpcElement oneQueued (.enqueue 0) ∧
    ¬Refuses .user rpcElement oneQueued .dequeue := by
  obtain ⟨full, empty⟩ := queue_predicates_agree .user rpcElement _ _ (oneQueued_called .user)
  constructor
  · rw [← full 0]
    decide
  · rw [← empty]
    decide

end Virtioso.Ring
