import Virtioso.Ring.Quiescence
import Virtioso.Ring.Solo

/-! With the builtin compare-and-swap, the calls in progress on a ring can always be finished.

From any reachable state some order of accesses, without a further call, makes every call
in progress return. Whoever is between acquire and commit goes first, each alone; then
nothing holds the head of a bound back, and one waiting acquire after the other gets through.
-/

set_option autoImplicit false

namespace Virtioso.Ring

open Foundation

variable {ι Store Data Result : Type} [DecidableEq ι]
variable {v : CasVariant} {F : ElementFns Store Data Result} {s t u : State ι Store Data Result} {i : ι}

def Continuing (s : State ι Store Data Result) (a : Action ι Data) : Prop :=
  Windowed s a ∧ ∃ i, a = .access i

/-- Tail updates that the snapshot of an acquire is behind. -/
def slack (s : State ι Store Data Result) (i : ι) : Nat :=
  match s.point i with
  | .acquire _ .load => 0
  | .acquire call _ => s.history.acquired call.side - (s.mine i).seen
  | _ => 0

omit [DecidableEq ι] in
theorem window_le_slack (s : State ι Store Data Result) (i : ι) :
    window s.history (s.mine i) (s.point i) ≤ slack s i := by
  unfold window slack
  split <;> split <;> simp_all

structure Apart (i : ι) (s t : State ι Store Data Result) : Prop where
  calls : t.history.calls = s.history.calls
  point : ∀ j, j ≠ i → t.point j = s.point j
  mine : ∀ j, j ≠ i → t.mine j = s.mine j

omit [DecidableEq ι] in
theorem Apart.refl : Apart i s s := ⟨rfl, fun _ _ => rfl, fun _ _ => rfl⟩

omit [DecidableEq ι] in
theorem Apart.trans (first : Apart i s t) (second : Apart i t u) : Apart i s u :=
  ⟨second.calls.trans first.calls, fun j ne => (second.point j ne).trans (first.point j ne),
    fun j ne => (second.mine j ne).trans (first.mine j ne)⟩

theorem Access.apart (access : Access s i v F t) : Apart i s t := by
  cases access <;> exact ⟨rfl, fun j ne => Function.update_of_ne ne .., fun j ne => Function.update_of_ne ne ..⟩

theorem continuing_access (running : (s.point i).running = true) (near : slack s i < 2 ^ 32) :
    Continuing s (.access i) ∧ step v F s (.access i) = some (s.access v F i) :=
  ⟨⟨Nat.lt_of_le_of_lt (window_le_slack s i) near, i, rfl⟩, if_pos running⟩

theorem Access.commit_next {call : Call Data} {got : Option Result} {point : Commit}
    (access : Access s i v F t) (at_ : s.point i = .commit call got point) :
    ((∃ next, t.point i = .commit call got next) ∨ ∃ value, t.point i = .returned value) ∧
      ∀ side, t.history.acquired side = s.history.acquired side := by
  cases access with
  | load at' | waitMore at' _ | waitOver at' _ | refuse at' _ | proceed at' _ | acquire at' _
    | acquireRetry at' _ | write at' | read at' _ | abort at' _ => cases at'.symm.trans at_
  | commitLoad at' | commitTail at' | commitRetry at' _ =>
    cases at'.symm.trans at_
    exact ⟨.inl ⟨_, Function.update_self ..⟩, fun _ => rfl⟩
  | commit at' _ =>
    cases at'.symm.trans at_
    exact ⟨.inr ⟨_, Function.update_self ..⟩, fun _ => rfl⟩

/-- The element functions of a reachable state do not fail. -/
theorem Access.element_next {call : Call Data} {entry : BitVec 32} (access : Access s i v F t)
    (after : Inv F t) (at_ : s.point i = .element call entry) :
    (∃ got, t.point i = .commit call got .loadHead) ∧
      ∀ side, t.history.acquired side = s.history.acquired side := by
  cases access with
  | load at' | waitMore at' _ | waitOver at' _ | refuse at' _ | proceed at' _ | acquire at' _
    | acquireRetry at' _ | commitLoad at' | commitTail at' | commit at' _ | commitRetry at' _ =>
    cases at'.symm.trans at_
  | write at' | read at' _ =>
    cases at'.symm.trans at_
    exact ⟨⟨_, Function.update_self ..⟩, fun _ => rfl⟩
  | abort _ _ =>
    have sound := after.thread i
    simp [State.put, ThreadOk] at sound

/-- An acquire goes on, with a snapshot that is no further behind, or it is over; it hands
out one position at most. -/
def AcquireMoves (call : Call Data) (i : ι) (s t : State ι Store Data Result) : Prop :=
  (∃ point, t.point i = .acquire call point) ∧ slack t i ≤ slack s i ∧
      (∀ side, t.history.acquired side = s.history.acquired side) ∨
    ((∃ entry, t.point i = .element call entry) ∨ ∃ value, t.point i = .returned value) ∧
      ∀ side, t.history.acquired side ≤ s.history.acquired side + 1

theorem Access.acquire_next {call : Call Data} {point : Acquire} (access : Access s i v F t)
    (at_ : s.point i = .acquire call point) : AcquireMoves call i s t := by
  cases access with
  | write at' | read at' _ | abort at' _ | commitLoad at' | commitTail at' | commit at' _
    | commitRetry at' _ => cases at'.symm.trans at_
  | load at' | waitMore at' _ | waitOver at' _ | proceed at' _ =>
    cases at'.symm.trans at_
    refine .inl ⟨⟨_, Function.update_self ..⟩, ?_, fun _ => rfl⟩
    simp [slack, State.put, at_]
  | refuse at' _ =>
    exact .inr ⟨.inr ⟨_, Function.update_self ..⟩, fun _ => Nat.le_succ _⟩
  | @acquire called ot at' _ =>
    cases at'.symm.trans at_
    refine .inr ⟨.inl ⟨_, Function.update_self ..⟩, fun side => ?_⟩
    by_cases eq : side = call.side
    · subst side
      exact Nat.le_of_eq (hand_acquired ..)
    · simp only [State.afterAcquire, History.acquired, hand_of_ne _ _ eq]
      exact Nat.le_succ _
  | acquireRetry at' _ =>
    cases at'.symm.trans at_
    refine .inl ⟨⟨_, Function.update_self ..⟩, ?_, fun _ => rfl⟩
    cases v <;> simp [slack, State.put, at_, CasVariant.reload]

/-- The call of thread `i` returns by its own accesses, handing out at most `n` positions. -/
structure Finishes (F : ElementFns Store Data Result) (i : ι) (n : Nat) (s t : State ι Store Data Result) : Prop where
  run : Reach (step .user F) Continuing s t
  apart : Apart i s t
  returned : ∃ value, t.point i = .returned value
  acquired : ∀ side, t.history.acquired side ≤ s.history.acquired side + n

theorem Finishes.after {n : Nat} (finishes : Finishes F i n t u) (run : Reach (step .user F) Continuing s t)
    (apart : Apart i s t) {m : Nat} (acquired : ∀ side, t.history.acquired side ≤ s.history.acquired side + m) :
    Finishes F i (m + n) s u where
  run := run.trans finishes.run
  apart := apart.trans finishes.apart
  returned := finishes.returned
  acquired side := by
    have := acquired side
    have := finishes.acquired side
    omega

structure Committing (call : Call Data) (got : Option Result) (i : ι) (s t : State ι Store Data Result) : Prop where
  place : (∃ point, t.point i = .commit call got point) ∨ ∃ value, t.point i = .returned value
  apart : Apart i s t
  acquired : ∀ side, t.history.acquired side = s.history.acquired side

omit [DecidableEq ι] in
theorem Committing.inside {call : Call Data} {got : Option Result} (committing : Committing call got i s t)
    (still : ¬OutsideCommit (t.alone i)) : ∃ point, t.point i = .commit call got point := by
  refine committing.place.resolve_right ?_
  rintro ⟨value, ended⟩
  apply still
  rw [State.alone, ended]
  trivial

/-- The commit of a thread that runs alone succeeds, from whatever snapshot it holds. -/
theorem commit_finishes {call : Call Data} {got : Option Result} {point : Commit}
    (at_ : s.point i = .commit call got point) : ∃ t, Finishes F i 0 s t := by
  have leaves : LeavesWithin (State.access .user F · i) (fun u => OutsideCommit (u.alone i)) 4 s := by
    rw [alone_leaves, State.alone, at_]
    exact commit_user_leaves point
  have enabled : ∀ u, Committing call got i s u → ¬OutsideCommit (u.alone i) →
      ∃ a, Continuing u a ∧ step .user F u a = some (u.access .user F i) := by
    intro u committing still
    obtain ⟨next, here⟩ := committing.inside still
    have behind : slack u i = 0 := by simp [slack, here]
    exact ⟨.access i, continuing_access (by rw [here]; rfl) (by rw [behind]; decide)⟩
  have preserved : ∀ u, Committing call got i s u → ¬OutsideCommit (u.alone i) →
      Committing call got i s (u.access .user F i) := by
    intro u committing still
    obtain ⟨next, here⟩ := committing.inside still
    have access := access_cases .user F (show (u.point i).running = true by rw [here]; rfl)
    obtain ⟨place, kept⟩ := access.commit_next here
    exact ⟨place, committing.apart.trans access.apart, fun side => (kept side).trans (committing.acquired side)⟩
  obtain ⟨t, run, committing, out⟩ :=
    leaves.reach enabled preserved ⟨.inl ⟨point, at_⟩, .refl, fun _ => rfl⟩
  refine ⟨t, run, committing.apart, committing.place.resolve_left ?_,
    fun side => Nat.le_of_eq (committing.acquired side)⟩
  rintro ⟨next, still⟩
  rw [State.alone, still] at out
  exact out

/-- A thread between its acquire and its commit finishes alone; its element is there. -/
theorem in_flight_finishes (inv : Inv F s) {side : Side} (flight : (s.point i).inFlight = some side) :
    ∃ t, Finishes F i 0 s t := by
  cases at_ : s.point i with
  | idle | acquire _ _ | returned _ | aborted => simp [at_, Point.inFlight] at flight
  | commit call got point => exact commit_finishes at_
  | element call entry =>
    have running : (s.point i).running = true := by rw [at_]; rfl
    have behind : slack s i = 0 := by simp [slack, at_]
    obtain ⟨admitted, edge⟩ := continuing_access (v := .user) (F := F) running (by rw [behind]; decide)
    have access := access_cases .user F running
    have after := inv.step admitted.1 edge
    obtain ⟨⟨got, next⟩, same⟩ := access.element_next after at_
    obtain ⟨t, finishes⟩ := commit_finishes next
    exact ⟨t, finishes.after (.next .start admitted edge) access.apart fun side => Nat.le_of_eq (same side)⟩

structure Acquiring (call : Call Data) (i : ι) (s t : State ι Store Data Result) : Prop where
  moves : AcquireMoves call i s t
  apart : Apart i s t

omit [DecidableEq ι] in
theorem Acquiring.inside {call : Call Data} (acquiring : Acquiring call i s t)
    (still : ¬OutsideAcquire (t.alone i)) : (∃ point, t.point i = .acquire call point) ∧
      slack t i ≤ slack s i ∧ ∀ side, t.history.acquired side = s.history.acquired side := by
  refine acquiring.moves.resolve_right ?_
  rintro ⟨⟨entry, out⟩ | ⟨value, out⟩, _⟩
  all_goals
    apply still
    rw [State.alone, out]
    trivial

theorem continuing_held (inv : Inv F s) (held : Held s) (run : Reach (step v F) Continuing s t) :
    Inv F t ∧ Held t := by
  refine run.invariant (P := fun u => Inv F u ∧ Held u) ⟨inv, held⟩ ?_
  rintro u a w ⟨inv, held⟩ ⟨window, _⟩ edge
  have after := inv.step window edge
  exact ⟨after, held.step after edge⟩

/-- With nothing in flight, an acquire that runs alone leaves its wait loop, and then its
call returns. -/
theorem acquire_finishes (inv : Inv F s) (held : Held s) (calm : Calm s) {call : Call Data} {point : Acquire}
    (at_ : s.point i = .acquire call point) (near : slack s i < 2 ^ 32) : ∃ t, Finishes F i 1 s t := by
  have leaves : LeavesWithin (State.access .user F · i) (fun u => OutsideAcquire (u.alone i)) 8 s := by
    rw [alone_leaves, State.alone, at_]
    refine acquire_leaves ((acquire_leaves_settled ?_ point).mpr (.inl rfl))
    exact inv.quiet_near held fun j => by simp [calm j]
  have enabled : ∀ u, Acquiring call i s u → ¬OutsideAcquire (u.alone i) →
      ∃ a, Continuing u a ∧ step .user F u a = some (u.access .user F i) := by
    intro u acquiring still
    obtain ⟨⟨next, here⟩, behind, _⟩ := acquiring.inside still
    exact ⟨.access i, continuing_access (by rw [here]; rfl) (Nat.lt_of_le_of_lt behind near)⟩
  have preserved : ∀ u, Acquiring call i s u → ¬OutsideAcquire (u.alone i) →
      Acquiring call i s (u.access .user F i) := by
    intro u acquiring still
    obtain ⟨⟨next, here⟩, behind, same⟩ := acquiring.inside still
    have access := access_cases .user F (show (u.point i).running = true by rw [here]; rfl)
    refine ⟨?_, acquiring.apart.trans access.apart⟩
    rcases access.acquire_next here with ⟨on, behind', same'⟩ | ⟨out, grown⟩
    · exact .inl ⟨on, Nat.le_trans behind' behind, fun side => (same' side).trans (same side)⟩
    · exact .inr ⟨out, fun side => same side ▸ grown side⟩
  obtain ⟨t, run, ⟨moves, apart⟩, out⟩ := leaves.reach enabled preserved
    ⟨.inl ⟨⟨point, at_⟩, Nat.le_refl _, fun _ => rfl⟩, .refl⟩
  rcases moves with ⟨⟨next, still⟩, _⟩ | ⟨⟨entry, acquired⟩ | refused, grown⟩
  · rw [State.alone, still] at out
    exact out.elim
  · -- the position is handed out, and now the thread is the one in flight
    obtain ⟨inv', _⟩ := continuing_held inv held run
    obtain ⟨u, finishes⟩ := in_flight_finishes inv' (show (t.point i).inFlight = some call.side by rw [acquired]; rfl)
    exact ⟨u, finishes.after run apart grown⟩
  · exact ⟨t, run, apart, refused, grown⟩

/-- No call was made; a call in progress returned, or its thread is where it was. -/
structure Onward (s t : State ι Store Data Result) : Prop where
  calls : t.history.calls = s.history.calls
  point : ∀ i, t.point i = s.point i ∨ (s.point i).running = true ∧ ∃ value, t.point i = .returned value

omit [DecidableEq ι] in
theorem Onward.refl (s : State ι Store Data Result) : Onward s s := ⟨rfl, fun _ => .inl rfl⟩

omit [DecidableEq ι] in
theorem Onward.trans (first : Onward s t) (second : Onward t u) : Onward s u where
  calls := second.calls.trans first.calls
  point i := by
    rcases first.point i with same | ⟨running, value, ended⟩
    · rw [← same]
      exact second.point i
    · rcases second.point i with kept | ⟨again, _⟩
      · exact .inr ⟨running, value, kept.trans ended⟩
      · rw [ended] at again
        cases again

theorem Finishes.onward {n : Nat} (finishes : Finishes F i n s t) (running : (s.point i).running = true) :
    Onward s t where
  calls := finishes.apart.calls
  point j := by
    by_cases eq : j = i
    · subst j
      exact .inr ⟨running, finishes.returned⟩
    · exact .inl (finishes.apart.point j eq)

theorem Finishes.slack_le {n : Nat} (finishes : Finishes F i n s t) (j : ι) : slack t j ≤ slack s j + n := by
  by_cases eq : j = i
  · subst j
    obtain ⟨value, ended⟩ := finishes.returned
    simp [slack, ended]
  · unfold slack
    rw [finishes.apart.point j eq, finishes.apart.mine j eq]
    split
    · exact Nat.zero_le _
    · next call _ _ _ =>
      have := finishes.acquired call.side
      omega
    · exact Nat.zero_le _

/-- What only a running thread can be, its finished call is not, and the others still are. -/
theorem Finishes.fewer {n : Nat} (finishes : Finishes F i n s t) (busy : Point Data Result → Prop)
    (ended : ∀ value, ¬busy (.returned value)) (j : ι) (waits : busy (t.point j)) : busy (s.point j) ∧ j ≠ i := by
  have ne : j ≠ i := by
    rintro rfl
    obtain ⟨value, returned⟩ := finishes.returned
    exact ended value (returned ▸ waits)
  exact ⟨finishes.apart.point j ne ▸ waits, ne⟩

/-- Some order of accesses brings every thread that is between acquire and commit to its return. -/
theorem calm_ahead (inv : Inv F s) (held : Held s) (threads : List ι)
    (all : ∀ i, (s.point i).inFlight ≠ none → i ∈ threads) {m : Nat} (room : ∀ i, slack s i ≤ m) :
    ∃ t, (Reach (step .user F) Continuing s t ∧ Onward s t) ∧
      ((Inv F t ∧ Held t) ∧ ∀ i, slack t i ≤ m) ∧ ∀ i, ¬(t.point i).inFlight ≠ none := by
  refine settle_all (fun u i => (u.point i).inFlight ≠ none) (fun _ u => (Inv F u ∧ Held u) ∧ ∀ i, slack u i ≤ m)
    (fun u w => Reach (step .user F) Continuing u w ∧ Onward u w) (fun u => ⟨.start, .refl u⟩)
    (fun first later => ⟨first.1.trans later.1, first.2.trans later.2⟩) id ?_ threads s ⟨⟨inv, held⟩, room⟩ all
  rintro _ u i ⟨⟨inv, held⟩, room⟩ flight
  obtain ⟨side, flight⟩ := Option.ne_none_iff_exists'.mp flight
  obtain ⟨t, finishes⟩ := in_flight_finishes inv flight
  have running : (u.point i).running = true := by
    cases at_ : u.point i <;> simp [at_, Point.inFlight, Point.running] at flight ⊢
  refine ⟨t, ⟨finishes.run, finishes.onward running⟩, ⟨continuing_held inv held finishes.run, fun j => ?_⟩, ?_⟩
  · exact Nat.le_trans (finishes.slack_le j) (room j)
  · exact finishes.fewer (fun point => point.inFlight ≠ none) fun value => by simp [Point.inFlight]

/-- With nothing in flight, some order of accesses brings every acquire through. -/
theorem settled_ahead (inv : Inv F s) (held : Held s) (calm : Calm s) (threads : List ι)
    (all : ∀ i, (s.point i).running = true → i ∈ threads) (room : ∀ i, slack s i + threads.length ≤ 2 ^ 32) :
    ∃ t, (Reach (step .user F) Continuing s t ∧ Onward s t) ∧
      (((Inv F t ∧ Held t) ∧ Calm t) ∧ ∀ i, slack t i + 0 ≤ 2 ^ 32) ∧ ∀ i, ¬(t.point i).running = true := by
  refine settle_all (fun u i => (u.point i).running = true)
    (fun n u => ((Inv F u ∧ Held u) ∧ Calm u) ∧ ∀ i, slack u i + n ≤ 2 ^ 32)
    (fun u w => Reach (step .user F) Continuing u w ∧ Onward u w) (fun u => ⟨.start, .refl u⟩)
    (fun first later => ⟨first.1.trans later.1, first.2.trans later.2⟩)
    (fun holds => ⟨holds.1, fun i => Nat.le_of_succ_le (holds.2 i)⟩) ?_ threads s ⟨⟨⟨inv, held⟩, calm⟩, room⟩ all
  rintro n u i ⟨⟨⟨inv, held⟩, calm⟩, room⟩ running
  have acquiring : ∃ call point, u.point i = .acquire call point := by
    have rests := calm i
    cases at_ : u.point i <;> simp [at_, Point.inFlight, Point.running] at rests running ⊢
  obtain ⟨call, point, at_⟩ := acquiring
  obtain ⟨t, finishes⟩ := acquire_finishes inv held calm at_ (by have := room i; omega)
  refine ⟨t, ⟨finishes.run, finishes.onward running⟩,
    ⟨⟨continuing_held inv held finishes.run, fun j => ?_⟩, fun j => ?_⟩, ?_⟩
  · by_contra flight
    exact (finishes.fewer (fun point => point.inFlight ≠ none) (by simp [Point.inFlight]) j flight).1 (calm j)
  · have := finishes.slack_le j
    have := room j
    omega
  · exact finishes.fewer (fun point => point.running = true) (by simp [Point.running])

/-- From every reachable state, whatever the interleaving that led there, the calls in progress
can all be brought to return, without a new call; the ring is then a list at rest. No snapshot
may be so old that the acquires still to come would wrap its window. -/
theorem ring_can_finish (F : ElementFns Store Data Result) (zeroed : Store) (s : State ι Store Data Result)
    (reached : Reachable .user F zeroed s) (threads : List ι)
    (all : ∀ i, (s.point i).running = true → i ∈ threads) (room : ∀ i, slack s i + threads.length ≤ 2 ^ 32) :
    ∃ t, Reach (step .user F) Continuing s t ∧ t.history.calls = s.history.calls ∧
      (∀ i, (s.point i).running = true → ∃ value, t.point i = .returned value) ∧
      (∀ i, (s.point i).running = false → t.point i = s.point i) ∧
      Represents F t.queue (t.history.acquired .cons) t.history.undelivered := by
  obtain ⟨inv, held⟩ := reachable_held reached
  have flights : ∀ i, (s.point i).inFlight ≠ none → i ∈ threads := by
    intro i flight
    apply all i
    cases at_ : s.point i <;> simp [at_, Point.inFlight, Point.running] at flight ⊢
  -- first whoever holds the head of a bound back, then the acquires
  obtain ⟨t, ⟨first, onward⟩, ⟨⟨inv', held'⟩, room'⟩, calm⟩ :=
    calm_ahead inv held threads flights fun i => Nat.le_sub_of_add_le (room i)
  have running : ∀ i, (t.point i).running = true → i ∈ threads := by
    intro i still
    rcases onward.point i with same | ⟨before, _⟩
    · exact all i (same ▸ still)
    · exact all i before
  obtain ⟨u, ⟨second, onward'⟩, ⟨⟨⟨inv'', held''⟩, calm'⟩, _⟩, ended⟩ :=
    settled_ahead inv' held' (fun i => not_ne_iff.mp (calm i)) threads running
      fun i => by
        have := room i
        have := room' i
        omega
  have done := onward.trans onward'
  refine ⟨u, first.trans second, done.calls, fun i busy => ?_, fun i rests => ?_, inv''.at_rest held'' calm'⟩
  · rcases done.point i with same | ⟨_, returned⟩
    · exact absurd (same ▸ busy) (ended i)
    · exact returned
  · rcases done.point i with same | ⟨busy, _⟩
    · exact same
    · rw [busy] at rests
      cases rests

/-- One producer is in its commit, and the tail that the other is about to swap is outdated. -/
def entangled : List (Action Bool MsgPtr) :=
  .invoke false (.enqueue 2) :: List.replicate 3 (.access false) ++
    .invoke true (.enqueue 1) :: List.replicate 6 (.access true)

theorem ring_can_finish_entangled : ∃ s t : State Bool RingIds MsgPtr MsgPtr,
    execute (guarded (step .user rpcElement) Windowed) (.initial fun _ => 0#16) entangled = some s ∧
      s.point true = .commit (.enqueue 1) none (.loadTail ⟨0#32, 0#32⟩) ∧
      s.point false = .acquire (.enqueue 2) (.cas ⟨0#32, 0#32⟩) ∧
      Reach (step .user rpcElement) Continuing s t ∧ (∃ value, t.point true = .returned value) ∧
      ∃ value, t.point false = .returned value := by
  obtain ⟨s, ran, first, second, current, behind⟩ : ∃ s : State Bool RingIds MsgPtr MsgPtr,
      execute (guarded (step .user rpcElement) Windowed) (.initial fun _ => 0#16) entangled = some s ∧
        s.point true = .commit (.enqueue 1) none (.loadTail ⟨0#32, 0#32⟩) ∧
        s.point false = .acquire (.enqueue 2) (.cas ⟨0#32, 0#32⟩) ∧
        slack s true = 0 ∧ slack s false = 1 := ⟨_, rfl, rfl, rfl, rfl, rfl⟩
  obtain ⟨t, run, _, returned, _⟩ := ring_can_finish rpcElement _ s (.of_execute ran) [true, false]
    (fun i _ => by cases i <;> simp) (fun i => by cases i <;> simp [current, behind])
  exact ⟨s, t, ran, first, second, run, returned true (by rw [first]; rfl), returned false (by rw [second]; rfl)⟩

end Virtioso.Ring
