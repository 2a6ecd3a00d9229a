import Virtioso.Ring.Consumer
import Virtioso.Ring.Safety

/-! Refused calls: what a full or an empty answer says about the ring.

The entry count that refuses a call combines the tail loaded earlier with a fresh
head of the other bound, modulo the word. An observer beside the machine notes for
every thread how many marker updates had been made when its call began and
whether an access of the call has written; no step consults it.
-/

set_option autoImplicit false

namespace Virtioso.Ring

open Foundation

variable {ι Store Data Result : Type}

def History.updates (h : History Data) : Nat :=
  h.acquired .prod + h.acquired .cons + h.commits .prod + h.commits .cons

/-- The next access writes to shared memory: a compare-and-swap that succeeds, or a slot. -/
def Point.writes (q : Queue Store) : Point Data Result → Prop
  | .acquire call (.cas ot) => (q.bound call.side).tail = ot
  | .element (.enqueue _) _ => True
  | .commit call _ (.cas oh _) => (q.bound call.side).head = oh
  | _ => False

structure Observed (ι Store Data Result : Type) where
  state : State ι Store Data Result
  /-- the marker updates made before the call -/
  begun : ι → Nat
  /-- some access of the call has written to the queue or its memory -/
  wrote : ι → Prop

def Observed.initial (zeroed : Store) : Observed ι Store Data Result :=
  ⟨.initial zeroed, fun _ => 0, fun _ => False⟩

section
variable [DecidableEq ι]

def Observed.note (o : Observed ι Store Data Result) (t : State ι Store Data Result) :
    Action ι Data → Observed ι Store Data Result
  | .invoke i _ =>
      ⟨t, Function.update o.begun i o.state.history.updates, Function.update o.wrote i False⟩
  | .access i =>
      ⟨t, o.begun, Function.update o.wrote i (o.wrote i ∨ (o.state.point i).writes o.state.queue)⟩

def Observed.step (v : CasVariant) (F : ElementFns Store Data Result)
    (o : Observed ι Store Data Result) (a : Action ι Data) : Option (Observed ι Store Data Result) :=
  (Ring.step v F o.state a).map fun t => o.note t a

end

/-- A call takes its accesses within `2 ^ 32` marker updates. -/
def Brief (o : Observed ι Store Data Result) : Action ι Data → Prop
  | .invoke _ _ => True
  | .access i => o.state.history.updates - o.begun i < 2 ^ 32

instance (o : Observed ι Store Data Result) : (a : Action ι Data) → Decidable (Brief o a)
  | .invoke _ _ => .isTrue trivial
  | .access _ => Nat.decLt _ _

abbrev Observed.Reachable [DecidableEq ι] (v : CasVariant) (F : ElementFns Store Data Result)
    (zeroed : Store) : Observed ι Store Data Result → Prop :=
  Reach (Observed.step v F) Brief (.initial zeroed)

/-- What a refused call has to be able to say: the ring holds 32 positions acquired
by producers and not released by the consumers' head, or every position below the
producers' head has been acquired by a consumer. -/
def Justified (h : History Data) : Side → Prop
  | .prod => h.acquired .prod = h.visible .cons + bufferSize
  | .cons => h.acquired .cons = h.visible .prod

variable {F : ElementFns Store Data Result} {s t : State ι Store Data Result} {i : ι}

/-! ### Marker updates -/

/-- The four markers advance together: the counts of any two differ by a ring at most. -/
theorem Inv.updates_range (inv : Inv F s) (side : Side) :
    s.history.updates ≤ 4 * s.history.acquired side + 64 ∧
      4 * s.history.acquired side ≤ s.history.updates + 96 := by
  have prod := inv.bound .prod
  have cons := inv.bound .cons
  have order := inv.order
  have room := inv.room
  have committed := prod.commits_le
  have released := cons.commits_le
  have shown := prod.visible_le_commits
  have freed := cons.visible_le_commits
  simp only [History.updates, bufferSize] at room ⊢
  cases side <;> constructor <;> omega

/-- An entry count of zero on a snapshot of this call is no accident of the wrap. -/
theorem Inv.justified (inv : Inv F s) {m : Mine} {side : Side} {ot : Marker} {known : Prop}
    (snap : Snapshot s.history m side ot known) (recent : s.history.updates < 4 * m.seen + 64 + 2 ^ 32)
    (none : acquireEntries s.queue side ot = 0#32) : Justified s.history side := by
  obtain ⟨seen, form, -⟩ := snap
  have order := inv.order
  have room := inv.room
  have range := (inv.updates_range side).2
  have shown := (inv.bound .prod).visible_le
  have freed := (inv.bound .cons).visible_le
  simp only [bufferSize] at room
  cases side with
  | prod =>
    have head := congrArg Marker.pos (inv.bound .cons).head
    simp only [Queue.bound] at head
    simp only [acquireEntries, acquireProdEntries, head, form, stored] at none
    -- the room left is the distance from the snapshot to one ring above the head
    have meets : BitVec.ofNat 32 m.seen = BitVec.ofNat 32 (s.history.visible .cons + bufferSize) := by
      rw [BitVec.ofNat_add, BitVec.add_comm]
      simpa using (BitVec.sub_eq_iff_eq_add.mp none).symm
    have below : m.seen ≤ s.history.visible .cons + bufferSize := Nat.le_trans seen room
    have exact_ := ofNat_inj_of_window below (by simp only [bufferSize]; omega) meets
    simp only [Justified, bufferSize] at exact_ ⊢
    omega
  | cons =>
    have head := congrArg Marker.pos (inv.bound .prod).head
    simp only [Queue.bound] at head
    simp only [acquireEntries, acquireConsEntries, head, form, stored] at none
    have meets : BitVec.ofNat 32 m.seen = BitVec.ofNat 32 (s.history.visible .prod) := by
      simpa using (BitVec.sub_eq_iff_eq_add.mp none).symm
    have below : m.seen ≤ s.history.visible .prod := Nat.le_trans seen order
    have exact_ := ofNat_inj_of_window below (by omega) meets
    simp only [Justified]
    omega

variable [DecidableEq ι] {v : CasVariant}

theorem History.updates_hand (h : History Data) (side : Side) (call : Nat) :
    h.updates ≤ (h.hand side call).updates := by
  have produced : h.acquired .prod ≤ (h.hand side call).acquired .prod := hand_acquired_le
  have consumed : h.acquired .cons ≤ (h.hand side call).acquired .cons := hand_acquired_le
  have commits (other : Side) : (h.hand side call).commits other = h.commits other := rfl
  simp only [History.updates, commits]
  omega

theorem History.updates_commit (h : History Data) (side : Side) (position : Nat)
    (distance : BitVec 32) : h.updates ≤ (h.commit side position distance).updates := by
  have commits (other : Side) : h.commits other ≤ (h.commit side position distance).commits other :=
    Finset.card_le_card commit_committed_sub
  have acquired (other : Side) : (h.commit side position distance).acquired other = h.acquired other :=
    rfl
  have produced := commits .prod
  have consumed := commits .cons
  simp only [History.updates, acquired]
  omega

theorem Access.updates_le (access : Access s i v F t) : s.history.updates ≤ t.history.updates := by
  cases access with
  | acquire => exact History.updates_hand ..
  | commit => exact History.updates_commit ..
  | load | waitMore | waitOver | refuse | proceed | acquireRetry | write | read | abort | commitLoad
    | commitTail | commitRetry => exact Nat.le_refl _

theorem Access.mine_of_ne (access : Access s i v F t) {j : ι} (other : j ≠ i) : t.mine j = s.mine j := by
  cases access <;> exact Function.update_of_ne other ..

/-! ### What the observer knows of a thread -/

/-- Up to its acquire and after a refusal a call has written nothing, and its snapshot is
from within the call. -/
def Noted (begun : Nat) (wrote : Prop) (m : Mine) : Point Data Result → Prop
  | .acquire _ .load | .returned .refused => ¬wrote
  | .acquire _ (.tailWait _) | .acquire _ (.entries _) | .acquire _ (.cas _) =>
      ¬wrote ∧ begun ≤ 4 * m.seen + 64
  | _ => True

structure Watched (F : ElementFns Store Data Result) (o : Observed ι Store Data Result) : Prop where
  inv : Inv F o.state
  begun : ∀ i, o.begun i ≤ o.state.history.updates
  noted : ∀ i, Noted (o.begun i) (o.wrote i) (o.state.mine i) (o.state.point i)

variable {o : Observed ι Store Data Result}

omit [DecidableEq ι] in
theorem Watched.initial (F : ElementFns Store Data Result) (zeroed : Store) :
    Watched F (.initial zeroed : Observed ι Store Data Result) :=
  ⟨Inv.initial F zeroed, fun _ => Nat.zero_le _, fun _ => trivial⟩

omit [DecidableEq ι] in
/-- The compare-and-swap of a brief call comes within the window of its snapshot. -/
theorem Watched.windowed (watched : Watched F o) (brief : Brief o (.access i)) :
    Windowed o.state (.access i) := by
  have noted := watched.noted i
  simp only [Brief] at brief
  simp only [Windowed]
  unfold window
  split
  · next call ot at_ =>
    rw [at_] at noted
    have range := (watched.inv.updates_range call.side).2
    have recent := noted.2
    omega
  · omega

theorem Watched.moved (watched : Watched F o) (access : Access o.state i v F t) :
    Noted (o.begun i) (o.wrote i ∨ (o.state.point i).writes o.state.queue) (t.mine i) (t.point i) := by
  have noted := watched.noted i
  have begun := watched.begun i
  -- a load takes its snapshot when all updates of the call's time have been made
  have loaded (side : Side) : o.begun i ≤ 4 * o.state.history.acquired side + 64 :=
    Nat.le_trans begun (watched.inv.updates_range side).1
  cases access with
  | load at_ =>
    rw [at_] at noted ⊢
    simpa [State.put, Noted, Point.writes] using And.intro noted (loaded _)
  | waitMore at_ _ | refuse at_ _ =>
    rw [at_] at noted ⊢
    simpa [State.put, Noted, Point.writes] using noted.1
  | waitOver at_ _ | proceed at_ _ =>
    rw [at_] at noted ⊢
    simpa [State.put, Noted, Point.writes] using noted
  | acquireRetry at_ moved =>
    -- the failed compare-and-swap has written nothing
    rw [at_] at noted ⊢
    cases v with
    | user =>
      simpa [State.put, Noted, Point.writes, moved, CasVariant.reload] using And.intro noted.1 (loaded _)
    | kernel => simpa [State.put, Noted, Point.writes, moved, CasVariant.reload] using noted
  | acquire | write | read | abort | commitLoad | commitTail | commitRetry =>
    simp [State.put, State.afterAcquire, State.afterWrite, Noted]
  | @commit call got =>
    -- what a commit returns is no refusal
    cases got <;> simp [State.afterCommit, State.put, committedReturn, Noted]

theorem Watched.access (watched : Watched F o) (brief : Brief o (.access i))
    (access : Access o.state i v F t) : Watched F (o.note t (.access i)) := by
  refine ⟨watched.inv.access (watched.windowed brief) access, fun j => ?_, fun j => ?_⟩
  · exact Nat.le_trans (watched.begun j) access.updates_le
  · by_cases eq : j = i
    · subst j
      simpa [Observed.note] using watched.moved access
    · simpa [Observed.note, eq, access.point_of_ne eq, access.mine_of_ne eq] using watched.noted j

theorem Watched.invoke (watched : Watched F o) (call : Call Data) :
    Watched F (o.note (o.state.invoke i call) (.invoke i call)) := by
  refine ⟨watched.inv.invoke call, fun j => ?_, fun j => ?_⟩
  · by_cases eq : j = i
    · subst j
      simp only [Observed.note, Function.update_self]
      exact Nat.le_refl _
    · simp only [Observed.note, Function.update_of_ne eq]
      exact watched.begun j
  · by_cases eq : j = i
    · subst j
      simp [Observed.note, State.invoke, Noted]
    · simpa [Observed.note, State.invoke, eq] using watched.noted j

theorem Watched.step (watched : Watched F o) {a : Action ι Data} {next : Observed ι Store Data Result}
    (brief : Brief o a) (edge : o.step v F a = some next) : Watched F next := by
  obtain ⟨t, moved, rfl⟩ := Option.map_eq_some_iff.mp edge
  rcases step_cases moved with ⟨i, call, rfl, _, rfl⟩ | ⟨i, rfl, _, access⟩
  · exact watched.invoke call
  · exact watched.access brief access

theorem reachable_watched {zeroed : Store} (reached : Observed.Reachable v F zeroed o) : Watched F o :=
  reached.invariant (Watched.initial F zeroed) fun _ _ _ watched brief edge => watched.step brief edge

theorem Access.refusal (access : Access s i v F t) (refused : t.point i = .returned .refused) :
    ∃ call ot, s.point i = .acquire call (.entries ot) ∧ acquireEntries s.queue call.side ot = 0#32 := by
  cases access with
  | @refuse call ot at_ none => exact ⟨call, ot, at_, none⟩
  | @commit call got =>
    cases got <;> simp [State.afterCommit, State.put, committedReturn] at refused
  | load | waitMore | waitOver | proceed | acquire | acquireRetry | write | read | abort | commitLoad
    | commitTail | commitRetry =>
    simp [State.put, State.afterAcquire, State.afterWrite] at refused

/-- Whatever the schedule, a call that returns -1 read the other bound's head when the ring
was full for a producer, or had nothing left for a consumer, and it has written nothing. -/
theorem refusals_justified (v : CasVariant) (F : ElementFns Store Data Result) (zeroed : Store)
    (o next : Observed ι Store Data Result) (i : ι) (reached : Observed.Reachable v F zeroed o)
    (brief : Brief o (.access i)) (edge : o.step v F (.access i) = some next)
    (refused : next.state.point i = .returned .refused) :
    ∃ call ot, o.state.point i = .acquire call (.entries ot) ∧
      Justified o.state.history call.side ∧ ¬next.wrote i := by
  have watched := reachable_watched reached
  have after := (watched.step brief edge).noted i
  obtain ⟨t, moved, rfl⟩ := Option.map_eq_some_iff.mp edge
  rcases step_cases moved with ⟨j, call, made, _, _⟩ | ⟨j, made, _, access⟩
  · cases made
  · cases made
    obtain ⟨call, ot, at_, none⟩ := access.refusal refused
    have ok := watched.inv.thread i
    have noted := watched.noted i
    rw [at_] at ok noted
    have recent := noted.2
    simp only [Brief] at brief
    refine ⟨call, ot, at_, watched.inv.justified ok.2 (by omega) none, ?_⟩
    rw [refused] at after
    exact after

/-- A consumer looks at the ring while another has the only element in its hands. -/
def overlapping : List (Action Bool MsgPtr) :=
  .invoke true (.enqueue 1) :: List.replicate 8 (.access true) ++
    .invoke false .dequeue :: List.replicate 4 (.access false) ++
    .invoke true .dequeue :: List.replicate 2 (.access true)

theorem refusals_justified_overlapping :
    ∃ o next, execute (guarded (Observed.step .kernel rpcElement) Brief) (.initial fun _ => 0#16)
        overlapping = some o ∧ o.step .kernel rpcElement (.access true) = some next ∧
      (o.state.point false).inFlight = some .cons ∧ Justified o.state.history .cons ∧
      ¬next.wrote true := by
  obtain ⟨o, next, ran, edge, brief, refused, at_, flight⟩ : ∃ o next,
      execute (guarded (Observed.step .kernel rpcElement) Brief) (.initial fun _ => 0#16)
          overlapping = some o ∧ o.step .kernel rpcElement (.access true) = some next ∧
        Brief o (.access true) ∧ next.state.point true = .returned .refused ∧
        o.state.point true = .acquire .dequeue (.entries ⟨1#32, 1#32⟩) ∧
        (o.state.point false).inFlight = some .cons :=
    ⟨_, _, rfl, rfl, by decide, rfl, rfl, rfl⟩
  obtain ⟨call, ot, found, justified, unwritten⟩ :=
    refusals_justified .kernel rpcElement _ o next true (.of_execute ran) brief edge refused
  cases at_.symm.trans found
  exact ⟨o, next, ran, edge, flight, justified, unwritten⟩

end Virtioso.Ring
