import Virtioso.Foundation.Refinement
import Virtioso.Ring.Fifo
import Virtioso.Ring.Tracking

/-! A shared ring at rest is a bounded list.

While threads are between acquire and commit the markers of the ring do not say what it
holds. Once nobody is, it stands for the data whose positions were handed to a producer
and to no consumer yet, in the order of the positions, and whoever comes next finds a
bounded FIFO of them.
-/

set_option autoImplicit false

namespace Virtioso.Ring

open Foundation

variable {ι Store Data Result : Type}

def History.undelivered (h : History Data) : List Data :=
  (List.range' (h.acquired .cons) (h.acquired .prod - h.acquired .cons)).filterMap h.dataAt

/-- No thread is between its acquire and its commit. -/
def Calm (s : State ι Store Data Result) : Prop := ∀ i, (s.point i).inFlight = none

def boundedFifo (F : ElementFns Store Data Result) (contents : List Data) :
    Call Data → List Data × Return Result
  | .enqueue data =>
      if contents.length < bufferSize then (contents ++ [data], .enqueued) else (contents, .refused)
  | .dequeue =>
      match contents with
      | [] => ([], .refused)
      | oldest :: rest => (rest, .dequeued (F.deliver oldest))

theorem filterMap_interval {α : Type} {f : Nat → Option α} {n first : Nat}
    (defined : ∀ p, first ≤ p → p < first + n → ∃ a, f p = some a) :
    ((List.range' first n).filterMap f).length = n ∧
      ∀ k < n, ((List.range' first n).filterMap f)[k]? = f (first + k) := by
  induction n generalizing first with
  | zero => exact ⟨rfl, fun k below => absurd below (Nat.not_lt_zero k)⟩
  | succ n ih =>
    obtain ⟨a, here⟩ := defined first (Nat.le_refl _) (by omega)
    obtain ⟨length, later⟩ := @ih (first + 1) fun p above below => defined p (by omega) (by omega)
    rw [List.range'_succ, List.filterMap_cons_some here, List.length_cons, length]
    refine ⟨rfl, fun k below => ?_⟩
    cases k with
    | zero => exact here.symm
    | succ k =>
      rw [List.getElem?_cons_succ, later k (by omega)]
      congr 1
      omega

section
variable {F : ElementFns Store Data Result} {s : State ι Store Data Result}

theorem Inv.undelivered (inv : Inv F s) :
    s.history.undelivered.length = s.history.acquired .prod - s.history.acquired .cons ∧
      ∀ k < s.history.acquired .prod - s.history.acquired .cons,
        s.history.undelivered[k]? = s.history.dataAt (s.history.acquired .cons + k) :=
  filterMap_interval fun p _ below => (inv.bound .prod).data (by
    have order := inv.order
    have reach := (inv.bound .prod).visible_le
    omega)

/-- The markers of both bounds and the slots between them agree with the history. -/
theorem Inv.at_rest (inv : Inv F s) (held : Held s) (calm : Calm s) :
    Represents F s.queue (s.history.acquired .cons) s.history.undelivered := by
  have quiet : ∀ side i, (s.point i).inFlight ≠ some side := fun side i => by rw [calm i]; nofun
  obtain ⟨length, places⟩ := inv.undelivered
  obtain ⟨commits, shown⟩ := inv.quiet held (quiet .prod)
  obtain ⟨_, consumed⟩ := inv.quiet held (quiet .cons)
  have order := inv.order
  have room := inv.room
  have last : s.history.acquired .cons + s.history.undelivered.length = s.history.acquired .prod := by omega
  refine ⟨?_, inv.quiet_bound held (quiet .cons), by omega, fun k data found => ?_⟩
  · rw [last]
    exact inv.quiet_bound held (quiet .prod)
  · have inside : k < s.history.undelivered.length := (List.getElem?_eq_some_iff.mp found).1
    rw [places k (by omega)] at found
    -- every position below the tail is committed, and its slot was not yet used again
    exact inv.slots _ ((inv.bound .prod).visible_committed _ (by omega)) (by omega) data found

end

/-- A call that nobody interrupts does to the ring what it does to the list. -/
theorem complete_simulates (v : CasVariant) (F : ElementFns Store Data Result) :
    Simulates (complete v F) (boundedFifo F) (Holding F) := by
  intro q contents call holding
  cases call with
  | enqueue data =>
    by_cases room : contents.length < bufferSize
    · obtain ⟨next, returns, after⟩ := holding.enqueue (v := v) room data
      exact ⟨next, by simp [boundedFifo, room, returns], by simpa [boundedFifo, room] using after⟩
    · have full : contents.length = bufferSize := Nat.le_antisymm holding.fits (Nat.not_lt.mp room)
      exact ⟨q, by simp [boundedFifo, room, holding.enqueue_full full], by simpa [boundedFifo, room] using holding⟩
  | dequeue =>
    cases contents with
    | nil => exact ⟨q, holding.dequeue_empty, holding⟩
    | cons oldest rest =>
      obtain ⟨next, returns, after⟩ := holding.dequeue (v := v)
      exact ⟨next, returns, after⟩

variable [DecidableEq ι]

/-- After any interleaving that leaves no thread between acquire and commit, calls one
after another return what a bounded FIFO of the undelivered data returns. -/
theorem ring_at_rest_is_fifo (v : CasVariant) (F : ElementFns Store Data Result) (zeroed : Store)
    (s : State ι Store Data Result) (reached : Reachable v F zeroed s) (calm : Calm s) (calls : List (Call Data)) :
    ∃ q, runCalls (complete v F) s.queue calls =
        some (q, (runSpec (boundedFifo F) s.history.undelivered calls).2) ∧
      Holding F q (runSpec (boundedFifo F) s.history.undelivered calls).1 := by
  obtain ⟨inv, held⟩ := reachable_held reached
  exact (complete_simulates v F).run ⟨_, inv.at_rest held calm⟩ calls

/-- Two threads enqueue at the same time, then a third element follows and all are taken. -/
theorem ring_at_rest_crossing :
    ∃ s : State Bool (Fin bufferSize → BitVec 16) MsgPtr MsgPtr,
      execute (guarded (step .kernel rpcElement) Windowed) (.initial fun _ => 0#16) crossing = some s ∧
      s.history.undelivered = [1, 2] ∧
      ∃ q, runCalls (complete .kernel rpcElement) s.queue [.enqueue 7, .dequeue, .dequeue, .dequeue, .dequeue] =
        some (q, [.enqueued, .dequeued 1, .dequeued 2, .dequeued 7, .refused]) := by
  obtain ⟨s, ran, waits, calm⟩ : ∃ s : State Bool (Fin bufferSize → BitVec 16) MsgPtr MsgPtr,
      execute (guarded (step .kernel rpcElement) Windowed) (.initial fun _ => 0#16) crossing = some s ∧
        s.history.undelivered = [1, 2] ∧ Calm s := ⟨_, rfl, rfl, fun i => by cases i <;> rfl⟩
  obtain ⟨q, returns, _⟩ := ring_at_rest_is_fifo .kernel rpcElement _ s (.of_execute ran) calm
    [.enqueue 7, .dequeue, .dequeue, .dequeue, .dequeue]
  refine ⟨s, ran, waits, q, returns.trans ?_⟩
  rw [waits]
  rfl

end Virtioso.Ring
