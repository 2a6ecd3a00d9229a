import Virtioso.Ring.Safety

/-! Commit tracking: the head of a bound follows its tail.

Only the commit that makes the counts meet moves the head, so commits may come in
any order. What rules out a head that stays behind for good is that a position
without a commit is always held by a thread that still has to commit it.
-/

set_option autoImplicit false

namespace Virtioso.Ring

open Foundation

variable {ι Store Data Result : Type} {F : ElementFns Store Data Result}
variable {s : State ι Store Data Result}

def HeldBy (s : State ι Store Data Result) (side : Side) (p : Nat) : Prop :=
  ∃ i, (s.point i).inFlight = some side ∧ (s.mine i).position = p

def Held (s : State ι Store Data Result) : Prop :=
  ∀ side p, p < s.history.acquired side → p ∉ s.history.committed side → HeldBy s side p

theorem held_initial (zeroed : Store) : Held (.initial zeroed : State ι Store Data Result) :=
  fun _ _ below => absurd below (Nat.not_lt_zero _)

section
variable [DecidableEq ι] {i : ι}

/-- A step of a thread that keeps its position in flight keeps what the others hold. -/
theorem HeldBy.put {side : Side} {p : Nat} (held : HeldBy s side p) {point : Point Data Result}
    {m : Mine} (kept : (s.point i).inFlight = some side → (s.mine i).position = p →
      point.inFlight = some side ∧ m.position = p) : HeldBy (s.put i point m) side p := by
  obtain ⟨j, flight, position⟩ := held
  refine ⟨j, ?_⟩
  by_cases eq : j = i
  · subst j
    simpa [State.put] using kept flight position
  · simpa [State.put, eq] using And.intro flight position

theorem Held.access (held : Held s) {v : CasVariant} {t : State ι Store Data Result}
    (after : Inv F t) (access : Access s i v F t) : Held t := by
  cases access with
  | load at_ | waitMore at_ _ | waitOver at_ _ | refuse at_ _ | proceed at_ _ =>
    exact fun side p below pending => (held side p below pending).put fun flight => by
      simp [at_, Point.inFlight] at flight
  | acquireRetry at_ _ =>
    exact fun side p below pending => (held side p below pending).put fun flight => by
      simp [at_, Point.inFlight] at flight
  | read at_ _ | commitLoad at_ | commitTail at_ =>
    exact fun side p below pending => (held side p below pending).put fun flight position => by
      simpa [at_, Point.inFlight] using And.intro flight position
  | commitRetry at_ _ =>
    exact fun side p below pending => (held side p below pending).put fun flight position => by
      cases v <;> simpa [at_, Point.inFlight, CasVariant.reload] using And.intro flight position
  | write at_ =>
    exact fun side p below pending => (held side p below pending).put fun flight position => by
      simpa [at_, Point.inFlight] using And.intro flight position
  | abort _ _ =>
    have sound := after.thread i
    simp [State.put, ThreadOk] at sound
  | @acquire call ot at_ _ =>
    intro side p below pending
    by_cases old : p < s.history.acquired side
    · exact (held side p old pending).put fun flight => by simp [at_, Point.inFlight] at flight
    · -- the new position is held by the acquiring thread
      have new : side = call.side ∧ p = s.history.acquired call.side := by
        by_cases eq : side = call.side
        · subst side
          simp only [State.afterAcquire, hand_acquired] at below
          exact ⟨rfl, by omega⟩
        · simp only [State.afterAcquire, History.acquired, hand_of_ne _ _ eq] at below
          exact absurd below old
      obtain ⟨rfl, rfl⟩ := new
      exact ⟨i, by simp [State.afterAcquire, State.put, Point.inFlight]⟩
  | @commit call got oh nh at_ _ =>
    intro side p below pending
    have before : p ∉ s.history.committed side := fun member => pending (commit_committed_sub member)
    refine (held side p below before).put fun flight position => ?_
    -- the committing thread's own position is committed now
    have same : call.side = side := by simpa [at_, Point.inFlight] using flight
    subst same
    subst position
    simp [State.afterCommit] at pending

theorem Held.invoke (held : Held s) {call : Call Data} (ready : (s.point i).ready = true) :
    Held (s.invoke i call) := by
  intro side p below pending
  obtain ⟨j, flight, position⟩ := held side p below pending
  have ne : j ≠ i := by
    rintro rfl
    cases at_ : s.point j <;> simp [at_, Point.inFlight, Point.ready] at flight ready
  exact ⟨j, by simpa [State.invoke, ne] using flight, by simpa [State.invoke, ne] using position⟩

theorem Held.step (held : Held s) {v : CasVariant} {a : Action ι Data} {t : State ι Store Data Result}
    (after : Inv F t) (edge : step v F s a = some t) : Held t := by
  rcases step_cases edge with ⟨i, call, rfl, ready, rfl⟩ | ⟨i, rfl, _, access⟩
  · exact held.invoke ready
  · exact held.access after access

theorem reachable_held {v : CasVariant} {zeroed : Store} (reached : Reachable v F zeroed s) :
    Inv F s ∧ Held s := by
  refine reached.invariant (P := fun s => Inv F s ∧ Held s) ⟨Inv.initial F zeroed, held_initial zeroed⟩ ?_
  rintro s a t ⟨inv, held⟩ window edge
  have after := inv.step window edge
  exact ⟨after, held.step after edge⟩

end

/-- Without operations in flight all positions have committed and the markers meet. -/
theorem Inv.quiet (inv : Inv F s) (held : Held s) {side : Side}
    (quiet : ∀ i, (s.point i).inFlight ≠ some side) :
    s.history.commits side = s.history.acquired side ∧
      s.history.visible side = s.history.acquired side := by
  have all : s.history.committed side = Finset.range (s.history.acquired side) := by
    ext p
    rw [Finset.mem_range]
    refine ⟨(inv.bound side).committed_handed p, fun below => ?_⟩
    by_contra pending
    obtain ⟨i, flight, _⟩ := held side p below pending
    exact quiet i flight
  have commits : s.history.commits side = s.history.acquired side := by
    rw [History.commits, all, Finset.card_range]
  exact ⟨commits, (inv.bound side).settled commits⟩

theorem Inv.quiet_bound (inv : Inv F s) (held : Held s) {side : Side}
    (quiet : ∀ i, (s.point i).inFlight ≠ some side) :
    s.queue.bound side = ⟨stored (s.history.acquired side) (s.history.acquired side),
      stored (s.history.acquired side) (s.history.acquired side)⟩ := by
  obtain ⟨commits, visible⟩ := inv.quiet held quiet
  have head := (inv.bound side).head
  rw [commits, visible] at head
  calc s.queue.bound side
      = ⟨(s.queue.bound side).tail, (s.queue.bound side).head⟩ := rfl
    _ = _ := by rw [(inv.bound side).tail, head]

/-- Distance of the head to the tail, as the code computes it. -/
def QueueBound.distance (b : QueueBound) : BitVec 32 := b.tail.pos - b.head.pos

theorem Inv.distance (inv : Inv F s) (side : Side) :
    (s.queue.bound side).distance.toNat = s.history.acquired side - s.history.visible side := by
  have bound := inv.bound side
  have near := bound.distance
  rw [QueueBound.distance, bound.tail, bound.head]
  exact toNat_distance bound.visible_le (by omega)

structure Tracking (s : State ι Store Data Result) (side : Side) : Prop where
  /-- the head has not passed the tail -/
  distance : (s.queue.bound side).distance ≤ htdMax + 1#32
  /-- every position below the head has been committed -/
  below : ∀ p, p + (s.queue.bound side).distance.toNat < (s.history.handed side).length →
    p ∈ s.history.committed side
  /-- without an operation between acquire and commit, head and tail are equal -/
  settled : (∀ i, (s.point i).inFlight ≠ some side) → (s.queue.bound side).head = (s.queue.bound side).tail
  /-- and then every position handed out has been committed and is below the head -/
  shown : (∀ i, (s.point i).inFlight ≠ some side) → ∀ p, p < (s.history.handed side).length →
    p ∈ s.history.committed side ∧ p + (s.queue.bound side).distance.toNat < (s.history.handed side).length

theorem Inv.tracking (inv : Inv F s) (held : Held s) (side : Side) : Tracking s side := by
  have bound := inv.bound side
  have distance := inv.distance side
  have near := bound.distance
  refine ⟨?_, fun p below => ?_, fun quiet => ?_, fun quiet p handed => ?_⟩
  · rw [BitVec.le_def, distance]
    simp only [htdMax, BitVec.toNat_add, BitVec.toNat_ofNat]
    omega
  · rw [distance] at below
    change p + _ < s.history.acquired side at below
    exact bound.visible_committed p (by omega)
  · rw [inv.quiet_bound held quiet]
  · obtain ⟨_, visible⟩ := inv.quiet held quiet
    change p < s.history.acquired side at handed
    refine ⟨bound.visible_committed p (by omega), ?_⟩
    rw [distance, visible, Nat.sub_self]
    exact handed

def HeadForward (s t : State ι Store Data Result) (side : Side) : Prop :=
  (t.queue.bound side).head.pos - (s.queue.bound side).head.pos ≤
    (t.queue.bound side).tail.pos - (s.queue.bound side).head.pos

variable [DecidableEq ι]

theorem step_visible_le {v : CasVariant} {a : Action ι Data} {t : State ι Store Data Result}
    (edge : step v F s a = some t) (side : Side) :
    s.history.visible side ≤ t.history.visible side := by
  rcases step_cases edge with ⟨i, call, rfl, _, rfl⟩ | ⟨i, rfl, _, access⟩
  · exact Nat.le_refl _
  · cases access with
    | commit => exact commit_visible_le
    | load | waitMore | waitOver | refuse | proceed | acquire | acquireRetry | write | read | abort
      | commitLoad | commitTail | commitRetry => exact Nat.le_refl _

theorem step_acquired_le {v : CasVariant} {a : Action ι Data} {t : State ι Store Data Result}
    (edge : step v F s a = some t) (side : Side) :
    t.history.acquired side ≤ s.history.acquired side + 1 := by
  rcases step_cases edge with ⟨i, call, rfl, _, rfl⟩ | ⟨i, rfl, _, access⟩
  · exact Nat.le_succ _
  · cases access with
    | @acquire call =>
      by_cases eq : side = call.side
      · subst side
        exact Nat.le_of_eq (hand_acquired ..)
      · simp only [State.afterAcquire, History.acquired, hand_of_ne _ _ eq]
        exact Nat.le_succ _
    | load | waitMore | waitOver | refuse | proceed | acquireRetry | write | read | abort
      | commitLoad | commitTail | commit | commitRetry => exact Nat.le_succ _

theorem head_forward (inv : Inv F s) {v : CasVariant} {a : Action ι Data}
    {t : State ι Store Data Result} (after : Inv F t) (edge : step v F s a = some t) (side : Side) :
    HeadForward s t side := by
  have before := inv.bound side
  have bound := after.bound side
  have near := before.distance
  have reach := bound.visible_le
  have forward := step_visible_le edge side
  have grow := step_acquired_le edge side
  rw [HeadForward, before.head, bound.head, bound.tail, BitVec.le_def, stored, stored, stored,
    toNat_distance forward (by omega), toNat_distance (Nat.le_trans forward reach) (by omega)]
  omega

/-- Both bounds of a shared queue, in every reachable state and over every further step. -/
theorem commit_tracking (v : CasVariant) (F : ElementFns Store Data Result) (zeroed : Store)
    (s : State ι Store Data Result) (reached : Reachable v F zeroed s) (side : Side) :
    Tracking s side ∧
      ∀ a t, Windowed s a → step v F s a = some t → HeadForward s t side := by
  obtain ⟨inv, held⟩ := reachable_held reached
  exact ⟨inv.tracking held side, fun _ _ window edge => head_forward inv (inv.step window edge) edge side⟩

/-- Two producers commit in the order opposite to their acquires. -/
def crossing : List (Action Bool MsgPtr) :=
  .invoke true (.enqueue 1) :: .invoke false (.enqueue 2) ::
    List.replicate 5 (.access true) ++ List.replicate 8 (.access false) ++
    List.replicate 3 (.access true)

theorem commit_tracking_crossing :
    ∃ s, execute (guarded (step .kernel rpcElement) Windowed) (.initial fun _ => 0#16) crossing = some s ∧
      s.queue.prod = ⟨⟨2#32, 2#32⟩, ⟨2#32, 2#32⟩⟩ ∧ Tracking s .prod := by
  obtain ⟨s, ran, markers⟩ : ∃ s,
      execute (guarded (step .kernel rpcElement) Windowed) (.initial fun _ => 0#16) crossing = some s ∧
        s.queue.prod = ⟨⟨2#32, 2#32⟩, ⟨2#32, 2#32⟩⟩ := ⟨_, rfl, rfl⟩
  exact ⟨s, ran, markers, (commit_tracking .kernel rpcElement _ s (.of_execute ran) .prod).1⟩

end Virtioso.Ring
