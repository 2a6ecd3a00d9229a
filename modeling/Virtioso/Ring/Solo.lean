import Virtioso.Foundation.Loops
import Virtioso.Ring.Tracking

/-! Solo progress: a thread whose peers have stopped leaves its retry loop, or spins.

The queue does not change while the thread retries, so each loop either succeeds
on the next fresh marker or runs on the same snapshot for good. The kernel variant
of the compare-and-swap never refreshes the snapshot of `rpcmsg_commit_update`.
-/

set_option autoImplicit false

namespace Virtioso.Ring

open Foundation

variable {ι Store Data Result : Type} {v : CasVariant} {F : ElementFns Store Data Result}

def solo (v : CasVariant) (F : ElementFns Store Data Result) (c : Queue Store × Point Data Result) :
    Queue Store × Point Data Result :=
  advance v F c.1 c.2

def OutsideCommit (c : Queue Store × Point Data Result) : Prop :=
  match c.2 with
  | .commit _ _ _ => False
  | _ => True

def OutsideAcquire (c : Queue Store × Point Data Result) : Prop :=
  match c.2 with
  | .acquire _ _ => False
  | _ => True

section Commit
variable {q : Queue Store} {call : Call Data} {got : Option Result} {oh nh : Marker}

def CommitCurrent (q : Queue Store) (side : Side) : Commit → Prop
  | .loadHead => True
  | .loadTail oh | .cas oh _ => (q.bound side).head = oh

theorem commit_cas_leaves (current : (q.bound call.side).head = oh) :
    LeavesWithin (solo v F) OutsideCommit 1 (q, .commit call got (.cas oh nh)) := by
  apply LeavesWithin.of_next
  apply LeavesWithin.now
  simp [solo, advance, rpcmsgCommitUpdate, current, OutsideCommit]

theorem commit_tail_leaves (current : (q.bound call.side).head = oh) :
    LeavesWithin (solo v F) OutsideCommit 2 (q, .commit call got (.loadTail oh)) := by
  apply LeavesWithin.of_next
  exact commit_cas_leaves current

theorem commit_current_leaves {point : Commit} (current : CommitCurrent q call.side point) :
    LeavesWithin (solo v F) OutsideCommit 3 (q, .commit call got point) := by
  cases point with
  | loadHead =>
    apply LeavesWithin.of_next
    exact commit_tail_leaves rfl
  | loadTail oh => exact (commit_tail_leaves current).mono (by omega)
  | cas oh nh => exact (commit_cas_leaves current).mono (by omega)

/-- The builtin leaves from any snapshot: its first failure loads the head. -/
theorem commit_user_leaves (point : Commit) :
    LeavesWithin (solo .user F) OutsideCommit 4 (q, .commit call got point) := by
  by_cases current : CommitCurrent q call.side point
  · exact (commit_current_leaves current).mono (by omega)
  · have retry : ∀ oh nh, (q.bound call.side).head ≠ oh →
        LeavesWithin (solo .user F) OutsideCommit 3 (q, .commit call got (.cas oh nh)) := by
      intro oh nh stale
      apply LeavesWithin.of_next
      simp only [solo, advance, rpcmsgCommitUpdate, if_neg stale, CasVariant.expected]
      exact commit_tail_leaves rfl
    cases point with
    | loadHead => exact absurd trivial current
    | loadTail oh =>
      apply LeavesWithin.of_next
      exact retry _ _ current
    | cas oh nh => exact (retry _ _ current).mono (by omega)

/-- The states the kernel variant runs through on an outdated snapshot. -/
def CommitSpin (q : Queue Store) (call : Call Data) (got : Option Result) (oh : Marker)
    (c : Queue Store × Point Data Result) : Prop :=
  c = (q, .commit call got (.loadTail oh)) ∨ ∃ nh, c = (q, .commit call got (.cas oh nh))

theorem commit_kernel_spins (stale : (q.bound call.side).head ≠ oh)
    {c : Queue Store × Point Data Result} (spin : CommitSpin q call got oh c) (n : Nat) :
    ¬LeavesWithin (solo .kernel F) OutsideCommit n c := by
  refine not_leaves_of_trap (CommitSpin q call got oh) ?_ ?_ spin n
  · rintro c (rfl | ⟨nh, rfl⟩)
    · exact .inr ⟨_, rfl⟩
    · left
      simp only [solo, advance, rpcmsgCommitUpdate, if_neg stale, CasVariant.expected]
  · rintro c (rfl | ⟨nh, rfl⟩) out
    · exact out
    · exact out

theorem commit_leaves_iff (point : Commit) {n : Nat} (enough : 4 ≤ n) :
    LeavesWithin (solo v F) OutsideCommit n (q, .commit call got point) ↔
      v = .user ∨ CommitCurrent q call.side point := by
  constructor
  · intro leaves
    by_contra! spins
    cases v with
    | user => exact spins.1 rfl
    | kernel =>
      cases point with
      | loadHead => exact spins.2 trivial
      | loadTail oh => exact commit_kernel_spins spins.2 (.inl rfl) n leaves
      | cas oh nh => exact commit_kernel_spins spins.2 (.inr ⟨nh, rfl⟩) n leaves
  · rintro (rfl | current)
    · exact (commit_user_leaves point).mono enough
    · exact (commit_current_leaves current).mono (by omega)

end Commit

section Acquire
variable {q : Queue Store} {call : Call Data} {ot : Marker}

def Near (q : Queue Store) (side : Side) (ot : Marker) : Prop :=
  ¬ot.pos - (q.bound side).head.pos > htdMax

instance (q : Queue Store) (side : Side) (ot : Marker) : Decidable (Near q side ot) :=
  inferInstanceAs (Decidable (¬_))

/-- A snapshot that the loop would try again and again: it passes the checks, but
is not the tail. -/
def Caught (q : Queue Store) (side : Side) (ot : Marker) : Prop :=
  Near q side ot ∧ acquireEntries q side ot ≠ 0#32 ∧ (q.bound side).tail ≠ ot

/-- Where a failed compare-and-swap leads out of the loop. The builtin goes on with
the tail; the kernel variant reloads only if the wait loop makes it. -/
def RetryLeaves (v : CasVariant) (q : Queue Store) (side : Side) (ot : Marker) : Prop :=
  match v with
  | .user => Near q side (q.bound side).tail
  | .kernel => ¬Caught q side ot ∧ (Near q side ot ∨ Near q side (q.bound side).tail)

def AcquireLeaves (v : CasVariant) (q : Queue Store) (side : Side) : Acquire → Prop
  | .load => Near q side (q.bound side).tail
  | .tailWait ot =>
      if Near q side ot then (Caught q side ot → RetryLeaves v q side ot)
      else Near q side (q.bound side).tail
  | .entries ot => acquireEntries q side ot = 0#32 ∨ (q.bound side).tail = ot ∨ RetryLeaves v q side ot
  | .cas ot => (q.bound side).tail = ot ∨ RetryLeaves v q side ot

theorem acquire_cas_leaves (same : (q.bound call.side).tail = ot) :
    LeavesWithin (solo v F) OutsideAcquire 1 (q, .acquire call (.cas ot)) := by
  apply LeavesWithin.of_next
  apply LeavesWithin.now
  simp [solo, advance, rpcmsgAcquireEntry, same, OutsideAcquire]

theorem acquire_refuse_leaves (none : acquireEntries q call.side ot = 0#32) :
    LeavesWithin (solo v F) OutsideAcquire 1 (q, .acquire call (.entries ot)) := by
  apply LeavesWithin.of_next
  apply LeavesWithin.now
  simp [solo, advance, rpcmsgAcquireEntry, none, OutsideAcquire]

theorem solo_proceed (some : acquireEntries q call.side ot ≠ 0#32) :
    solo v F (q, .acquire call (.entries ot)) = (q, .acquire call (.cas ot)) := by
  simp only [solo, advance, rpcmsgAcquireEntry, if_neg some]

theorem solo_near (near : Near q call.side ot) :
    solo v F (q, .acquire call (.tailWait ot)) = (q, .acquire call (.entries ot)) := by
  rw [Near] at near
  simp only [solo, advance, rpcmsgAcquireEntry, if_neg near]

theorem solo_far (far : ¬Near q call.side ot) :
    solo v F (q, .acquire call (.tailWait ot)) = (q, .acquire call .load) := by
  rw [Near, not_not] at far
  simp only [solo, advance, rpcmsgAcquireEntry, if_pos far]

theorem solo_retry (stale : (q.bound call.side).tail ≠ ot) :
    solo v F (q, .acquire call (.cas ot)) =
      (q, .acquire call (.tailWait (v.expected ot (q.bound call.side).tail))) := by
  simp only [solo, advance, rpcmsgAcquireEntry, if_neg stale]

theorem acquire_tail_leaves (near : Near q call.side (q.bound call.side).tail) :
    LeavesWithin (solo v F) OutsideAcquire 3
      (q, .acquire call (.tailWait (q.bound call.side).tail)) := by
  apply LeavesWithin.of_next
  rw [solo_near near]
  by_cases none : acquireEntries q call.side (q.bound call.side).tail = 0#32
  · exact (acquire_refuse_leaves none).mono (by omega)
  · apply LeavesWithin.of_next
    rw [solo_proceed none]
    exact acquire_cas_leaves rfl

theorem acquire_load_leaves (near : Near q call.side (q.bound call.side).tail) :
    LeavesWithin (solo v F) OutsideAcquire 4 (q, .acquire call .load) := by
  apply LeavesWithin.of_next
  exact acquire_tail_leaves near

theorem acquire_retry_leaves (retry : RetryLeaves v q call.side ot)
    (stale : (q.bound call.side).tail ≠ ot) :
    LeavesWithin (solo v F) OutsideAcquire 6 (q, .acquire call (.cas ot)) := by
  apply LeavesWithin.of_next
  rw [solo_retry stale]
  cases v with
  | user => exact (acquire_tail_leaves retry).mono (by omega)
  | kernel =>
    apply LeavesWithin.of_next
    rw [CasVariant.expected]
    by_cases near : Near q call.side ot
    · -- the old snapshot passes the wait loop, but nothing is left to acquire
      rw [solo_near near]
      have none : acquireEntries q call.side ot = 0#32 := by
        by_contra some
        exact retry.1 ⟨near, some, stale⟩
      exact (acquire_refuse_leaves none).mono (by omega)
    · rw [solo_far near]
      exact acquire_load_leaves (retry.2.resolve_left near)

theorem acquire_leaves {point : Acquire} (leaves : AcquireLeaves v q call.side point) :
    LeavesWithin (solo v F) OutsideAcquire 8 (q, .acquire call point) := by
  have cas : ∀ ot, AcquireLeaves v q call.side (.cas ot) →
      LeavesWithin (solo v F) OutsideAcquire 6 (q, .acquire call (.cas ot)) := by
    intro ot leaves
    by_cases same : (q.bound call.side).tail = ot
    · exact (acquire_cas_leaves same).mono (by omega)
    · exact acquire_retry_leaves (leaves.resolve_left same) same
  have entries : ∀ ot, AcquireLeaves v q call.side (.entries ot) →
      LeavesWithin (solo v F) OutsideAcquire 7 (q, .acquire call (.entries ot)) := by
    intro ot leaves
    by_cases none : acquireEntries q call.side ot = 0#32
    · exact (acquire_refuse_leaves none).mono (by omega)
    · apply LeavesWithin.of_next
      rw [solo_proceed none]
      exact cas ot (leaves.resolve_left none)
  -- from every point the loop gets to its compare-and-swap, or reloads a tail that is near
  cases point with
  | load => exact (acquire_load_leaves leaves).mono (by omega)
  | cas ot => exact (cas ot leaves).mono (by omega)
  | entries ot => exact (entries ot leaves).mono (by omega)
  | tailWait ot =>
    apply LeavesWithin.of_next
    simp only [AcquireLeaves] at leaves
    split at leaves
    · next near =>
      rw [solo_near near]
      refine entries ot ?_
      by_cases none : acquireEntries q call.side ot = 0#32
      · exact .inl none
      by_cases same : (q.bound call.side).tail = ot
      · exact .inr (.inl same)
      exact .inr (.inr (leaves ⟨near, none, same⟩))
    · next far =>
      rw [solo_far far]
      exact (acquire_load_leaves leaves).mono (by omega)

/-- The tail itself is too far from the head, and nobody else moves either. -/
def WaitSpin (q : Queue Store) (call : Call Data) (c : Queue Store × Point Data Result) : Prop :=
  c = (q, .acquire call .load) ∨ c = (q, .acquire call (.tailWait (q.bound call.side).tail))

theorem wait_spins (far : ¬Near q call.side (q.bound call.side).tail)
    {c : Queue Store × Point Data Result} (spin : WaitSpin q call c) (n : Nat) :
    ¬LeavesWithin (solo v F) OutsideAcquire n c := by
  refine not_leaves_of_trap (WaitSpin q call) ?_ ?_ spin n
  · rintro c (rfl | rfl)
    · exact .inr rfl
    · exact .inl (solo_far far)
  · rintro c (rfl | rfl) out
    · exact out
    · exact out

/-- The states the kernel variant runs through on a caught snapshot. -/
def AcquireSpin (q : Queue Store) (call : Call Data) (ot : Marker)
    (c : Queue Store × Point Data Result) : Prop :=
  c = (q, .acquire call (.tailWait ot)) ∨ c = (q, .acquire call (.entries ot)) ∨
    c = (q, .acquire call (.cas ot))

theorem acquire_kernel_spins (caught : Caught q call.side ot)
    {c : Queue Store × Point Data Result} (spin : AcquireSpin q call ot c) (n : Nat) :
    ¬LeavesWithin (solo .kernel F) OutsideAcquire n c := by
  obtain ⟨near, some, stale⟩ := caught
  refine not_leaves_of_trap (AcquireSpin q call ot) ?_ ?_ spin n
  · rintro c (rfl | rfl | rfl)
    · exact .inr (.inl (solo_near near))
    · exact .inr (.inr (solo_proceed some))
    · exact .inl (solo_retry stale)
  · rintro c (rfl | rfl | rfl) out
    · exact out
    · exact out
    · exact out

theorem acquire_spins (point : Acquire) (spins : ¬AcquireLeaves v q call.side point) (n : Nat) :
    ¬LeavesWithin (solo v F) OutsideAcquire n (q, .acquire call point) := by
  have cas : ∀ ot, ¬AcquireLeaves v q call.side (.cas ot) →
      ¬LeavesWithin (solo v F) OutsideAcquire n (q, .acquire call (.cas ot)) := by
    intro ot spins leaves
    obtain ⟨stale, retry⟩ := not_or.mp spins
    have next := leaves.next id
    rw [solo_retry stale] at next
    cases v with
    | user => exact wait_spins retry (.inr rfl) n next
    | kernel =>
      by_cases caught : Caught q call.side ot
      · exact acquire_kernel_spins caught (.inl rfl) n next
      · obtain ⟨far, tail⟩ := not_or.mp fun near => retry ⟨caught, near⟩
        have reload := next.next id
        rw [CasVariant.expected, solo_far far] at reload
        exact wait_spins tail (.inl rfl) n reload
  have entries : ∀ ot, ¬AcquireLeaves v q call.side (.entries ot) →
      ¬LeavesWithin (solo v F) OutsideAcquire n (q, .acquire call (.entries ot)) := by
    intro ot spins leaves
    obtain ⟨some, rest⟩ := not_or.mp spins
    have next := leaves.next id
    rw [solo_proceed some] at next
    exact cas ot rest next
  cases point with
  | load => exact wait_spins spins (.inl rfl) n
  | cas ot => exact cas ot spins
  | entries ot => exact entries ot spins
  | tailWait ot =>
    intro leaves
    have next := leaves.next id
    simp only [AcquireLeaves] at spins
    split at spins
    · next near =>
      obtain ⟨caught, retry⟩ := Classical.not_imp.mp spins
      rw [solo_near near] at next
      exact entries ot (not_or.mpr ⟨caught.2.1, not_or.mpr ⟨caught.2.2, retry⟩⟩) next
    · next far =>
      -- the snapshot is given up, but the tail that is loaded for it is no nearer
      rw [solo_far far] at next
      exact wait_spins spins (.inl rfl) n next

theorem acquire_leaves_iff (point : Acquire) {n : Nat} (enough : 8 ≤ n) :
    LeavesWithin (solo v F) OutsideAcquire n (q, .acquire call point) ↔
      AcquireLeaves v q call.side point := by
  constructor
  · intro leaves
    by_contra spins
    exact acquire_spins point spins n leaves
  · intro leaves
    exact (acquire_leaves leaves).mono enough

end Acquire

section Progress
variable [DecidableEq ι]

def State.alone (s : State ι Store Data Result) (i : ι) : Queue Store × Point Data Result :=
  (s.queue, s.point i)

theorem alone_access (s : State ι Store Data Result) (i : ι) :
    (s.access v F i).alone i = solo v F (s.alone i) := by
  simp [State.alone, State.access, solo]

theorem alone_leaves (s : State ι Store Data Result) (i : ι) {out : Queue Store × Point Data Result → Prop}
    (bound : Nat) : LeavesWithin (State.access v F · i) (fun s => out (s.alone i)) bound s ↔
      LeavesWithin (solo v F) out bound (s.alone i) :=
  leaves_project (State.alone · i) (fun s => alone_access s i) bound

def Quiet (s : State ι Store Data Result) (side : Side) : Prop :=
  ∀ j, (s.point j).inFlight ≠ some side

/-- Thread `i`, taking only steps of its own, leaves the loop it is in; an acquire
is only asked to when nothing is in flight on its bound. -/
def SoloProgress (v : CasVariant) (F : ElementFns Store Data Result) (bound : Nat)
    (s : State ι Store Data Result) (i : ι) : Prop :=
  match s.point i with
  | .commit _ _ _ => LeavesWithin (State.access v F · i) (fun s => OutsideCommit (s.alone i)) bound s
  | .acquire call _ => Quiet s call.side →
      LeavesWithin (State.access v F · i) (fun s => OutsideAcquire (s.alone i)) bound s
  | _ => True

/-- The markers and the snapshot of thread `i` let it leave its loop. -/
def Free (v : CasVariant) (s : State ι Store Data Result) (i : ι) : Prop :=
  match s.point i with
  | .commit call _ point => v = .user ∨ CommitCurrent s.queue call.side point
  | .acquire call point => Quiet s call.side → AcquireLeaves v s.queue call.side point
  | _ => True

theorem solo_progress_iff_free (s : State ι Store Data Result) (i : ι) {bound : Nat}
    (enough : 8 ≤ bound) : SoloProgress v F bound s i ↔ Free v s i := by
  cases at_ : s.point i with
  | commit call got point =>
    simp only [SoloProgress, Free, at_, alone_leaves]
    rw [State.alone, at_]
    exact commit_leaves_iff point (by omega)
  | acquire call point =>
    simp only [SoloProgress, Free, at_, alone_leaves]
    rw [State.alone, at_, acquire_leaves_iff point enough]
  | idle | element _ _ | returned _ | aborted => simp only [SoloProgress, Free, at_]

def Acquire.snapshot : Acquire → Option Marker
  | .load => none
  | .tailWait ot | .entries ot | .cas ot => some ot

/-- Once the wait loop admits the tail, only a caught snapshot of the kernel variant is in the way. -/
theorem acquire_leaves_settled {q : Queue Store} {side : Side}
    (near : Near q side (q.bound side).tail) (point : Acquire) :
    AcquireLeaves v q side point ↔
      v = .user ∨ ∀ ot, point.snapshot = some ot → ¬Caught q side ot := by
  have retry : ∀ ot, RetryLeaves v q side ot ↔ v = .user ∨ ¬Caught q side ot := by
    intro ot
    cases v <;> simp [RetryLeaves, near]
  cases point with
  | load => simp [AcquireLeaves, Acquire.snapshot, near]
  | tailWait ot =>
    by_cases passes : Near q side ot
    · simp only [AcquireLeaves, Acquire.snapshot, if_pos passes, retry, Option.some.injEq, forall_eq']
      tauto
    · simp [AcquireLeaves, Acquire.snapshot, passes, near, Caught]
  | entries ot =>
    simp only [AcquireLeaves, Acquire.snapshot, retry, Option.some.injEq, forall_eq', Caught]
    tauto
  | cas ot =>
    simp only [AcquireLeaves, Acquire.snapshot, retry, Option.some.injEq, forall_eq', Caught]
    tauto

omit [DecidableEq ι] in
theorem Inv.quiet_near {s : State ι Store Data Result} (inv : Inv F s) (held : Held s) {side : Side}
    (quiet : Quiet s side) : Near s.queue side (s.queue.bound side).tail := by
  have settled := (inv.tracking held side).settled quiet
  rw [Near, settled, BitVec.sub_self]
  decide

/-- The snapshot of thread `i` is none that the kernel variant would spin on. -/
def Current (s : State ι Store Data Result) (i : ι) : Prop :=
  match s.point i with
  | .commit call _ point => CommitCurrent s.queue call.side point
  | .acquire call point => Quiet s call.side →
      ∀ ot, point.snapshot = some ot → ¬Caught s.queue call.side ot
  | _ => True

omit [DecidableEq ι] in
theorem Inv.free_iff {s : State ι Store Data Result} (inv : Inv F s) (held : Held s) (i : ι) :
    Free v s i ↔ v = .user ∨ Current s i := by
  cases at_ : s.point i with
  | commit call got point => simp only [Free, Current, at_]
  | acquire call point =>
    simp only [Free, Current, at_]
    by_cases quiet : Quiet s call.side
    · have near := inv.quiet_near held quiet
      simp only [quiet, forall_const, acquire_leaves_settled near]
    · simp only [quiet, false_implies, or_true]
  | idle | element _ _ | returned _ | aborted => simp only [Free, Current, at_, or_true]

/-- In every state, a thread that runs alone leaves its loop if and only if it is
free, and then within eight accesses. In the runs without a wrapped window this
is so for the builtin, and for the kernel variant on a current snapshot. -/
theorem solo_progress_iff (v : CasVariant) (F : ElementFns Store Data Result) (zeroed : Store)
    (s : State ι Store Data Result) (i : ι) :
    (SoloProgress v F 8 s i ↔ Free v s i) ∧
    (∀ bound, SoloProgress v F bound s i → Free v s i) ∧
    (Reachable v F zeroed s → (Free v s i ↔ v = .user ∨ Current s i)) := by
  refine ⟨solo_progress_iff_free s i (Nat.le_refl 8), fun bound progress => ?_, fun reached => ?_⟩
  · have longer : SoloProgress v F (bound + 8) s i := by
      cases at_ : s.point i with
      | commit _ _ _ =>
        simp only [SoloProgress, at_] at progress ⊢
        exact progress.mono (Nat.le_add_right _ _)
      | acquire _ _ =>
        simp only [SoloProgress, at_] at progress ⊢
        exact fun quiet => (progress quiet).mono (Nat.le_add_right _ _)
      | idle | element _ _ | returned _ | aborted => simp only [SoloProgress, at_]
    exact (solo_progress_iff_free s i (Nat.le_add_left _ _)).mp longer
  · obtain ⟨inv, held⟩ := reachable_held reached
    exact inv.free_iff held i

/-- One producer commits between the head load of another and its compare-and-swap. -/
def overtaken : List (Action Bool MsgPtr) :=
  .invoke true (.enqueue 1) :: .invoke false (.enqueue 2) ::
    List.replicate 6 (.access true) ++ List.replicate 8 (.access false)

theorem overtaken_reached : ∃ s,
    execute (guarded (step .kernel rpcElement) Windowed) (.initial fun _ => 0#16) overtaken = some s ∧
      s.point true = .commit (.enqueue 1) none (.loadTail ⟨0#32, 0#32⟩) ∧
      s.queue.prod = ⟨⟨2#32, 2#32⟩, ⟨0#32, 1#32⟩⟩ := ⟨_, rfl, rfl, rfl⟩

theorem solo_progress_fails_in_kernel :
    ¬∀ s : State Bool RingIds MsgPtr MsgPtr, Reachable .kernel rpcElement (fun _ => 0#16) s →
      ∀ i, ∃ bound, SoloProgress .kernel rpcElement bound s i := by
  intro claim
  obtain ⟨s, ran, at_, markers⟩ := overtaken_reached
  obtain ⟨bound, progress⟩ := claim s (.of_execute ran) true
  simp only [SoloProgress, at_] at progress
  rw [alone_leaves, State.alone, at_] at progress
  refine commit_kernel_spins ?_ (.inl rfl) bound progress
  rw [show s.queue.bound (Call.enqueue (1 : MsgPtr)).side = s.queue.prod from rfl, markers]
  decide

/-- A producer that runs alone, up to the check of its commit. -/
def committing : List (Action Bool MsgPtr) := .invoke true (.enqueue 1) :: List.replicate 7 (.access true)

theorem committing_reached : ∃ s,
    execute (guarded (step .kernel rpcElement) Windowed) (.initial fun _ => 0#16) committing = some s ∧
      s.point true = .commit (.enqueue 1) none (.cas ⟨0#32, 0#32⟩ ⟨1#32, 1#32⟩) ∧
      s.queue.prod = ⟨⟨1#32, 1#32⟩, ⟨0#32, 0#32⟩⟩ := ⟨_, rfl, rfl, rfl⟩

/-- The overtaken producer is caught in its loop, the undisturbed one is not. -/
theorem solo_progress_overtaken :
    (∃ s : State Bool RingIds MsgPtr MsgPtr, Reachable .kernel rpcElement (fun _ => 0#16) s ∧
      ¬OutsideCommit (s.alone true) ∧ ¬Current s true ∧ ¬Free .kernel s true ∧
        ∀ bound, ¬SoloProgress .kernel rpcElement bound s true) ∧
    ∃ s : State Bool RingIds MsgPtr MsgPtr, Reachable .kernel rpcElement (fun _ => 0#16) s ∧
      ¬OutsideCommit (s.alone true) ∧ Current s true ∧ Free .kernel s true ∧
        SoloProgress .kernel rpcElement 8 s true := by
  constructor
  · obtain ⟨s, ran, at_, markers⟩ := overtaken_reached
    have reached : Reachable .kernel rpcElement (fun _ => 0#16) s := .of_execute ran
    have stale : ¬Current s true := by
      simp only [Current, at_]
      change s.queue.prod.head ≠ _
      rw [markers]
      decide
    have caught : ¬Free .kernel s true := fun free =>
      (((solo_progress_iff .kernel rpcElement _ s true).2.2 reached).mp free).elim (by decide) stale
    exact ⟨s, reached, by simp [OutsideCommit, State.alone, at_], stale, caught, fun bound progress =>
      caught ((solo_progress_iff .kernel rpcElement (fun _ => 0#16) s true).2.1 bound progress)⟩
  · obtain ⟨s, ran, at_, markers⟩ := committing_reached
    have reached : Reachable .kernel rpcElement (fun _ => 0#16) s := .of_execute ran
    have current : Current s true := by
      simp only [Current, at_]
      change s.queue.prod.head = _
      rw [markers]
    have free := ((solo_progress_iff .kernel rpcElement _ s true).2.2 reached).mpr (.inr current)
    exact ⟨s, reached, by simp [OutsideCommit, State.alone, at_], current, free,
      (solo_progress_iff .kernel rpcElement (fun _ => 0#16) s true).1.mpr free⟩

end Progress

end Virtioso.Ring
