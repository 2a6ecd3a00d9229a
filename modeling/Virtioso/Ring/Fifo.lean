import Virtioso.Ring.Solo

/-! Complete operations of an undisturbed queue are those of a bounded list.

An operation that nobody interrupts takes eight accesses and always returns. Between
operations head and tail of each bound agree, and the queue stands for the list of
data between the two bounds.
-/

set_option autoImplicit false

namespace Virtioso.Ring

open Foundation

variable {Store Data Result : Type}

/-- A complete `rpcmsg_enqueue` or `rpcmsg_dequeue`, eight accesses at most. -/
def complete (v : CasVariant) (F : ElementFns Store Data Result) (q : Queue Store) (call : Call Data) :
    Option (Queue Store × Return Result) :=
  match (solo v F)^[8] (q, .acquire call .load) with
  | (q, .returned value) => some (q, value)
  | _ => none

/-- The queue holds `contents`, oldest first, and `taken` elements were taken before. -/
structure Represents (F : ElementFns Store Data Result) (q : Queue Store) (taken : Nat)
    (contents : List Data) : Prop where
  prod : q.bound .prod = ⟨stored (taken + contents.length) (taken + contents.length),
    stored (taken + contents.length) (taken + contents.length)⟩
  cons : q.bound .cons = ⟨stored taken taken, stored taken taken⟩
  fits : contents.length ≤ bufferSize
  holds : ∀ k data, contents[k]? = some data → F.Holds q.store (slotOf (taken + k)) data

theorem represents_init (F : ElementFns Store Data Result) (zeroed : Store) :
    Represents F (rpcmsgQueueInit zeroed) 0 [] :=
  ⟨rfl, rfl, Nat.zero_le _, by simp⟩

section Accesses
variable {v : CasVariant} {F : ElementFns Store Data Result} {q : Queue Store}
variable {call : Call Data} {m : Marker}

theorem near_of_settled (settled : q.bound call.side = ⟨m, m⟩) : Near q call.side m := by
  rw [Near, settled, BitVec.sub_self]
  decide

/-- A bound that the wait loop admits and that has room hands out its tail in four accesses. -/
theorem solo_acquire (call : Call Data) (tail : (q.bound call.side).tail = m) (near : Near q call.side m)
    (room : acquireEntries q call.side m ≠ 0#32) :
    (solo v F)^[4] (q, .acquire call .load) = (q.setTail call.side (nextTail m), .element call m.pos) :=
  calc (solo v F)^[4] (q, .acquire call .load)
      = (solo v F)^[3] (q, .acquire call (.tailWait m)) := by
        rw [Function.iterate_succ_apply, ← tail]; rfl
    _ = (solo v F)^[2] (q, .acquire call (.entries m)) := by
        rw [Function.iterate_succ_apply, solo_near near]
    _ = (solo v F)^[1] (q, .acquire call (.cas m)) := by
        rw [Function.iterate_succ_apply, solo_proceed room]
    _ = (q.setTail call.side (nextTail m), .element call m.pos) := by
        simp [solo, advance, rpcmsgAcquireEntry, tail]

/-- Without room three accesses return -1 and leave the queue alone. -/
theorem solo_refuse (tail : (q.bound call.side).tail = m) (near : Near q call.side m)
    (none : acquireEntries q call.side m = 0#32) :
    (solo v F)^[3] (q, .acquire call .load) = (q, .returned .refused) :=
  calc (solo v F)^[3] (q, .acquire call .load)
      = (solo v F)^[2] (q, .acquire call (.tailWait m)) := by
        rw [Function.iterate_succ_apply, ← tail]; rfl
    _ = (solo v F)^[1] (q, .acquire call (.entries m)) := by
        rw [Function.iterate_succ_apply, solo_near near]
    _ = (q, .returned .refused) := by
        simp [solo, advance, rpcmsgAcquireEntry, none]

theorem solo_commit {got : Option Result} :
    (solo v F)^[3] (q, .commit call got .loadHead) =
      (q.setHead call.side (nextHead (q.bound call.side).head (q.bound call.side).tail),
        .returned (committedReturn got)) := by
  simp [solo, advance, rpcmsgCommitUpdate]

def Queue.settle (q : Queue Store) (side : Side) (m : Marker) (store : Store) : Queue Store :=
  match side with
  | .prod => ⟨⟨m, m⟩, q.cons, store⟩
  | .cons => ⟨q.prod, ⟨m, m⟩, store⟩

@[simp] theorem settle_bound (q : Queue Store) (side : Side) (m : Marker) (store : Store) :
    (q.settle side m store).bound side = ⟨m, m⟩ := by cases side <;> rfl

@[simp] theorem settle_store (q : Queue Store) (side : Side) (m : Marker) (store : Store) :
    (q.settle side m store).store = store := by cases side <;> rfl

theorem settle_of_ne (q : Queue Store) {side other : Side} (m : Marker) (store : Store)
    (ne : other ≠ side) : (q.settle side m store).bound other = q.bound other := by
  cases side <;> cases other <;> first | rfl | contradiction

/-- What the accesses until the return lead to is the complete call. -/
theorem complete_of_returns {n : Nat} {q' : Queue Store} {value : Return Result} (short : n ≤ 8)
    (returns : (solo v F)^[n] (q, .acquire call .load) = (q', .returned value)) :
    complete v F q call = some (q', value) := by
  have rest : ∀ k, (solo v F)^[k] (q', .returned value) = (q', .returned value) := by
    intro k
    induction k with
    | zero => rfl
    | succ k ih => rw [Function.iterate_succ_apply]; exact ih
  obtain ⟨k, length⟩ := Nat.exists_eq_add_of_le short
  unfold complete
  rw [length, Nat.add_comm, Function.iterate_add_apply, returns, rest]

theorem complete_refused_of_near (tail : (q.bound call.side).tail = m) (near : Near q call.side m)
    (none : acquireEntries q call.side m = 0#32) : complete v F q call = some (q, .refused) :=
  complete_of_returns (by decide) (solo_refuse tail near none)

theorem complete_refused (settled : q.bound call.side = ⟨m, m⟩)
    (none : acquireEntries q call.side m = 0#32) : complete v F q call = some (q, .refused) :=
  complete_refused_of_near (by rw [settled]) (near_of_settled settled) none

/-- Operations in flight far behind the tail keep the call in its wait loop. -/
theorem complete_far (far : ¬Near q call.side (q.bound call.side).tail) : complete v F q call = none := by
  have stays : ¬OutsideAcquire ((solo v F)^[8] (q, .acquire call .load)) := by
    intro out
    exact wait_spins far (.inl rfl) 8 ⟨8, Nat.le_refl 8, out⟩
  unfold complete
  split
  · next ended =>
    rw [ended] at stays
    exact absurd trivial stays
  · rfl

/-- The queue after an enqueue that nobody disturbs. Its commit moves the head only
when no other enqueue is in flight. -/
def Queue.append (F : ElementFns Store Data Result) (q : Queue Store) (data : Data) : Queue Store :=
  { q with
    prod := ⟨nextTail q.prod.tail, nextHead q.prod.head (nextTail q.prod.tail)⟩
    store := F.enqueueFn q.store (ringIndex q.prod.tail.pos) data }

theorem complete_append {data : Data} (near : Near q .prod q.prod.tail)
    (room : acquireEntries q .prod q.prod.tail ≠ 0#32) :
    complete v F q (.enqueue data) = some (q.append F data, .enqueued) := by
  refine complete_of_returns (Nat.le_refl 8) ?_
  rw [Function.iterate_add_apply _ 4 4, solo_acquire (.enqueue data) rfl near room,
    Function.iterate_add_apply _ 3 1, Function.iterate_one]
  -- the slot is written before the head moves
  simp only [solo, advance]
  exact solo_commit

theorem append_settled {data : Data} (settled : q.prod = ⟨m, m⟩) :
    q.append F data = q.settle .prod (nextTail m) (F.enqueueFn q.store (ringIndex m.pos) data) := by
  rw [Queue.append, settled, nextHead_nextTail]
  rfl

theorem complete_enqueue {data : Data} (settled : q.prod = ⟨m, m⟩)
    (room : acquireEntries q .prod m ≠ 0#32) :
    complete v F q (.enqueue data) =
      some (q.settle .prod (nextTail m) (F.enqueueFn q.store (ringIndex m.pos) data), .enqueued) := by
  have tail : q.prod.tail = m := by rw [settled]
  have near : Near q (Call.enqueue data).side m := near_of_settled settled
  rw [← append_settled settled]
  subst tail
  exact complete_append near room

def Queue.remove (q : Queue Store) : Queue Store :=
  { q with cons := ⟨nextTail q.cons.tail, nextHead q.cons.head (nextTail q.cons.tail)⟩ }

theorem complete_remove {result : Result} (near : Near q .cons q.cons.tail)
    (some_ : acquireEntries q .cons q.cons.tail ≠ 0#32)
    (read : F.dequeueFn q.store (ringIndex q.cons.tail.pos) = some result) :
    complete v F q .dequeue = some (q.remove, .dequeued result) := by
  refine complete_of_returns (Nat.le_refl 8) ?_
  rw [Function.iterate_add_apply _ 4 4, solo_acquire (m := q.cons.tail) .dequeue rfl near some_,
    Function.iterate_add_apply _ 3 1, Function.iterate_one]
  simp only [solo, advance, setTail_store, read]
  exact solo_commit

theorem complete_aborted (near : Near q .cons q.cons.tail)
    (some_ : acquireEntries q .cons q.cons.tail ≠ 0#32)
    (read : F.dequeueFn q.store (ringIndex q.cons.tail.pos) = none) :
    complete v F q .dequeue = none := by
  unfold complete
  rw [Function.iterate_add_apply _ 4 4, solo_acquire (m := q.cons.tail) .dequeue rfl near some_,
    Function.iterate_add_apply _ 3 1, Function.iterate_one]
  simp only [solo, advance, setTail_store, read]
  rfl

theorem complete_dequeue {result : Result} (settled : q.cons = ⟨m, m⟩)
    (some_ : acquireEntries q .cons m ≠ 0#32)
    (read : F.dequeueFn q.store (ringIndex m.pos) = some result) :
    complete v F q .dequeue = some (q.settle .cons (nextTail m) q.store, .dequeued result) := by
  have tail : q.cons.tail = m := by rw [settled]
  have near : Near q (Call.dequeue : Call Data).side m := near_of_settled settled
  have settles : q.settle .cons (nextTail m) q.store = q.remove := by
    rw [Queue.remove, settled, nextHead_nextTail]
    rfl
  rw [settles]
  subst tail
  exact complete_remove near some_ read

/-- An enqueue that succeeds has appended, wherever the markers stood. -/
theorem append_of_complete {data : Data} {next : Queue Store} {value : Return Result}
    (returns : complete v F q (.enqueue data) = some (next, value)) (accepted : value ≠ .refused) :
    next = q.append F data := by
  by_cases near : Near q .prod q.prod.tail
  · by_cases none : acquireEntries q .prod q.prod.tail = 0#32
    · have refuses : complete v F q (.enqueue data) = some (q, .refused) :=
        complete_refused_of_near rfl near none
      rw [refuses] at returns
      cases returns
      exact absurd rfl accepted
    · rw [complete_append near none] at returns
      cases returns
      rfl
  · have waits : complete v F q (.enqueue data) = none := complete_far near
    rw [waits] at returns
    cases returns

theorem remove_of_complete {next : Queue Store} {result : Result}
    (returns : complete v F q .dequeue = some (next, .dequeued result)) : next = q.remove := by
  by_cases near : Near q .cons q.cons.tail
  · by_cases none : acquireEntries q .cons q.cons.tail = 0#32
    · have refuses : complete v F q .dequeue = some (q, .refused) := complete_refused_of_near rfl near none
      rw [refuses] at returns
      cases returns
    · cases read : F.dequeueFn q.store (ringIndex q.cons.tail.pos) with
      | none =>
        rw [complete_aborted near none read] at returns
        cases returns
      | some found =>
        rw [complete_remove near none read] at returns
        cases returns
        rfl
  · have waits : complete v F q .dequeue = none := complete_far near
    rw [waits] at returns
    cases returns

end Accesses

section Representation
variable {v : CasVariant} {F : ElementFns Store Data Result} {q : Queue Store}
variable {taken : Nat} {contents : List Data}

theorem Represents.prod_entries (represents : Represents F q taken contents) :
    (acquireEntries q .prod (q.bound .prod).tail).toNat = bufferSize - contents.length := by
  have fits := represents.fits
  have head := congrArg (fun b => b.head.pos) represents.cons
  simp only [Queue.bound] at head
  have split : 32#32 + BitVec.ofNat 32 taken = BitVec.ofNat 32 (taken + bufferSize) := by
    rw [BitVec.ofNat_add, BitVec.add_comm]
  rw [represents.prod]
  simp only [acquireEntries, acquireProdEntries, head, stored]
  have size : bufferSize = 32 := rfl
  rw [split, toNat_distance (by omega) (by omega)]
  omega

theorem Represents.cons_entries (represents : Represents F q taken contents) :
    (acquireEntries q .cons (q.bound .cons).tail).toNat = contents.length := by
  have fits := represents.fits
  have head := congrArg (fun b => b.head.pos) represents.prod
  simp only [Queue.bound] at head
  rw [represents.cons]
  simp only [acquireEntries, acquireConsEntries, head, stored]
  have size : bufferSize = 32 := rfl
  rw [toNat_distance (by omega) (by omega)]
  omega

theorem Represents.heads (represents : Represents F q taken contents) :
    (q.prod.head.pos - q.cons.head.pos).toNat = contents.length := by
  have fits := represents.fits
  have prod := congrArg (fun b => b.head.pos) represents.prod
  have cons := congrArg (fun b => b.head.pos) represents.cons
  have size : bufferSize = 32 := rfl
  simp only [Queue.bound, stored] at prod cons
  rw [prod, cons, toNat_distance (by omega) (by omega)]
  omega

theorem slot_ne_of_queued {k : Nat} (below : k < contents.length)
    (room : contents.length < bufferSize) : slotOf (taken + k) ≠ slotOf (taken + contents.length) := by
  intro same
  have equal := eq_of_slotOf same (by omega) (by omega)
  omega

theorem Represents.enqueue (represents : Represents F q taken contents)
    (room : contents.length < bufferSize) (data : Data) :
    ∃ q', complete v F q (.enqueue data) = some (q', .enqueued) ∧
      Represents F q' taken (contents ++ [data]) ∧
      q'.store = F.enqueueFn q.store (slotOf (taken + contents.length)) data := by
  have entries := represents.prod_entries
  rw [represents.prod] at entries
  refine ⟨_, complete_enqueue represents.prod ?_, ⟨?_, ?_, ?_, ?_⟩, settle_store ..⟩
  · intro zero
    rw [zero, BitVec.toNat_zero] at entries
    omega
  · rw [settle_bound, nextTail_stored, List.length_append, List.length_singleton]
    rfl
  · rw [settle_of_ne _ _ _ (by decide)]
    exact represents.cons
  · rw [List.length_append, List.length_singleton]
    exact room
  · intro k other found
    rw [settle_store]
    -- queued data keep their slots, and the new element is in the slot behind them
    by_cases below : k < contents.length
    · rw [List.getElem?_append_left below] at found
      exact F.holds_frame _ _ _ _ _ (slot_ne_of_queued below room) (represents.holds k other found)
    · have last : k = contents.length := by
        have bound := (List.getElem?_eq_some_iff.mp found).1
        rw [List.length_append, List.length_singleton] at bound
        omega
      subst last
      rw [List.getElem?_concat_length, Option.some.injEq] at found
      subst found
      exact F.holds_enqueue ..

theorem Represents.enqueue_full (represents : Represents F q taken contents)
    (full : contents.length = bufferSize) (data : Data) :
    complete v F q (.enqueue data) = some (q, .refused) := by
  have entries := represents.prod_entries
  rw [represents.prod] at entries
  rw [full, Nat.sub_self, ← full] at entries
  exact complete_refused represents.prod (BitVec.eq_of_toNat_eq entries)

theorem Represents.dequeue {data : Data} (represents : Represents F q taken (data :: contents)) :
    ∃ q', complete v F q .dequeue = some (q', .dequeued (F.deliver data)) ∧
      Represents F q' (taken + 1) contents ∧ q'.store = q.store := by
  have entries := represents.cons_entries
  have fits := represents.fits
  rw [List.length_cons] at fits
  rw [represents.cons, List.length_cons] at entries
  have read := F.dequeue_of_holds _ _ _ (represents.holds 0 data rfl)
  refine ⟨_, complete_dequeue represents.cons ?_ read, ⟨?_, ?_, by omega, ?_⟩, settle_store ..⟩
  · intro zero
    rw [zero, BitVec.toNat_zero] at entries
    omega
  · rw [settle_of_ne _ _ _ (by decide), represents.prod, List.length_cons, Nat.add_right_comm, Nat.add_assoc]
  · rw [settle_bound, nextTail_stored]
  · intro k other found
    rw [settle_store, Nat.add_right_comm, Nat.add_assoc]
    exact represents.holds (k + 1) other found

theorem Represents.dequeue_empty (represents : Represents F q taken []) :
    complete v F q .dequeue = some (q, .refused) := by
  have entries := represents.cons_entries
  rw [represents.cons] at entries
  exact complete_refused represents.cons (BitVec.eq_of_toNat_eq entries)

end Representation

/-- The queue stands for the list `contents`, whatever the wrap of its markers. -/
def Holding (F : ElementFns Store Data Result) (q : Queue Store) (contents : List Data) : Prop :=
  ∃ taken, Represents F q taken contents

section Holding
variable {v : CasVariant} {F : ElementFns Store Data Result} {q : Queue Store} {contents : List Data}

theorem holding_init (F : ElementFns Store Data Result) (zeroed : Store) :
    Holding F (rpcmsgQueueInit zeroed) [] :=
  ⟨0, represents_init F zeroed⟩

theorem Holding.fits (holding : Holding F q contents) : contents.length ≤ bufferSize := by
  obtain ⟨taken, represents⟩ := holding
  exact represents.fits

theorem Holding.enqueue (holding : Holding F q contents) (room : contents.length < bufferSize)
    (data : Data) : ∃ q', complete v F q (.enqueue data) = some (q', .enqueued) ∧
      Holding F q' (contents ++ [data]) := by
  obtain ⟨taken, represents⟩ := holding
  obtain ⟨q', returns, represents, _⟩ := represents.enqueue (v := v) room data
  exact ⟨q', returns, taken, represents⟩

theorem Holding.enqueue_full (holding : Holding F q contents) (full : contents.length = bufferSize)
    (data : Data) : complete v F q (.enqueue data) = some (q, .refused) := by
  obtain ⟨taken, represents⟩ := holding
  exact represents.enqueue_full full data

theorem Holding.dequeue {data : Data} (holding : Holding F q (data :: contents)) :
    ∃ q', complete v F q .dequeue = some (q', .dequeued (F.deliver data)) ∧ Holding F q' contents := by
  obtain ⟨taken, represents⟩ := holding
  obtain ⟨q', returns, represents, _⟩ := represents.dequeue (v := v)
  exact ⟨q', returns, taken + 1, represents⟩

theorem Holding.dequeue_empty (holding : Holding F q []) :
    complete v F q .dequeue = some (q, .refused) := by
  obtain ⟨taken, represents⟩ := holding
  exact represents.dequeue_empty

end Holding

end Virtioso.Ring
