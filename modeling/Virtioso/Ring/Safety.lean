import Virtioso.Ring.Preservation

/-! Every reachable state of a shared queue satisfies the ring invariant.

Steps that move one thread only are one lemma. Of the remaining four, the acquire
relies on the checks made on its snapshot and the commit on the invariant of the
marker it installs.
-/

set_option autoImplicit false

namespace Virtioso.Ring

open Foundation

variable {ι Store Data Result : Type}
variable {F : ElementFns Store Data Result} {s : State ι Store Data Result} {i : ι}

theorem Inv.snapshot (inv : Inv F s) (m : Mine) (side : Side) {known : Prop}
    (holds : known) (seen : m.seen = s.history.acquired side) :
    Snapshot s.history m side (s.queue.bound side).tail known := by
  refine ⟨Nat.le_of_eq seen, ?_, fun _ => holds⟩
  rw [(inv.bound side).tail, seen]

/-- Leaving the wait loop on a current snapshot bounds the distance to the head. -/
theorem Inv.wait_over (inv : Inv F s) {m : Mine} {side : Side} {ot : Marker}
    (snap : Snapshot s.history m side ot True)
    (near : ¬ot.pos - (s.queue.bound side).head.pos > htdMax) :
    Snapshot s.history m side ot (s.history.acquired side ≤ s.history.visible side + 8) := by
  obtain ⟨seen, form, -⟩ := snap
  refine ⟨seen, form, fun current => ?_⟩
  have bound := inv.bound side
  have visible := bound.visible_le
  have window := bound.distance
  rw [form, bound.head, stored, stored, ← current] at near
  have exact_ := toNat_distance (w := 32) visible (by omega)
  simp only [htdMax, gt_iff_lt, BitVec.lt_def, exact_, BitVec.toNat_ofNat] at near
  omega

theorem Inv.has_room (inv : Inv F s) {m : Mine} {side : Side} {ot : Marker}
    (snap : Snapshot s.history m side ot (s.history.acquired side ≤ s.history.visible side + 8))
    (entries : acquireEntries s.queue side ot ≠ 0#32) :
    Snapshot s.history m side ot
      (s.history.acquired side ≤ s.history.visible side + 8 ∧ HasRoom s.history side) := by
  obtain ⟨seen, form, near⟩ := snap
  refine ⟨seen, form, fun current => ⟨near current, ?_⟩⟩
  cases side with
  | prod =>
    -- a full ring would make the two positions meet modulo the word
    by_contra full
    have room := inv.room
    have exact_ : s.history.acquired .prod = s.history.visible .cons + bufferSize := by
      simp only [HasRoom] at full; omega
    apply entries
    have head := congrArg Marker.pos (inv.bound .cons).head
    simp only [Queue.bound] at head
    simp only [acquireEntries, acquireProdEntries, head, form, stored, ← current, exact_]
    rw [BitVec.ofNat_add, BitVec.add_comm, BitVec.sub_self]
  | cons =>
    by_contra empty
    have order := inv.order
    have exact_ : s.history.acquired .cons = s.history.visible .prod := by
      simp only [HasRoom] at empty; omega
    apply entries
    have head := congrArg Marker.pos (inv.bound .prod).head
    simp only [Queue.bound] at head
    simp only [acquireEntries, acquireConsEntries, head, form, stored, ← current, exact_]
    exact BitVec.sub_self _

/-- The element a consumer reads is the one enqueued at its position. -/
theorem Inv.read (inv : Inv F s) {m : Mine} (flight : InFlight s.history m .dequeue) :
    ∃ data, s.history.dataAt m.position = some data ∧
      F.dequeueFn s.queue.store (slotOf m.position) = some (F.deliver data) := by
  have range := (inv.bound .cons).flight_range flight.handed flight.pending
  have order := inv.order
  have room := inv.room
  have committed := (inv.bound .prod).visible_committed m.position (by omega)
  obtain ⟨data, found⟩ := (inv.bound .prod).data ((inv.bound .prod).committed_handed _ committed)
  have holds := inv.slots _ committed (by omega) data found
  exact ⟨data, found, F.dequeue_of_holds _ _ _ holds⟩

theorem Inv.next_head (inv : Inv F s) {m : Mine} {call : Call Data} {oh : Marker}
    (flight : InFlight s.history m call) (snap : HeadSnapshot s.queue s.history m call.side oh)
    (current : s.history.commits call.side = m.seen) :
    NextOk s.history m call.side (nextHead oh (s.queue.bound call.side).tail) := by
  have bound := inv.bound call.side
  have range := bound.flight_range flight.handed flight.pending
  have commits := bound.visible_le_commits
  have distance := bound.distance
  have head : oh = stored (s.history.visible call.side) (s.history.commits call.side) :=
    (snap.current current).symm.trans bound.head
  have count : oh.count + 1#32 = BitVec.ofNat 32 (s.history.commits call.side + 1) := by
    rw [head, stored, BitVec.ofNat_add]
  unfold nextHead
  split
  · next meet =>
    rw [bound.tail, stored, count] at meet
    have last := ofNat_inj_of_window (by omega) (by omega) meet
    refine ⟨count, .inl ⟨?_, bound.last_in_flight flight.handed flight.pending last⟩⟩
    rw [bound.tail, stored, last]
  · next apart =>
    refine ⟨count, .inr ⟨?_, ?_⟩⟩
    · rw [head, stored]
    · -- equal counts would have met
      have other : s.history.commits call.side + 1 ≠ s.history.acquired call.side := by
        intro eq
        apply apart
        rw [count, eq, bound.tail, stored]
      omega

theorem InFlight.reload {h : History Data} {m : Mine} {call : Call Data} (flight : InFlight h m call)
    (updates : Nat) : InFlight h { m with seen := updates } call :=
  ⟨flight.made, flight.handed, flight.pending⟩

theorem Inv.head_snapshot (inv : Inv F s) {m : Mine} {call : Call Data}
    (flight : InFlight s.history m call) (seen : m.seen = s.history.commits call.side) :
    HeadSnapshot s.queue s.history m call.side (s.queue.bound call.side).head := by
  have bound := inv.bound call.side
  have range := bound.flight_range flight.handed flight.pending
  have commits := bound.visible_le_commits
  have distance := bound.distance
  refine ⟨Nat.le_of_eq seen, ?_, fun _ => rfl, by omega⟩
  rw [bound.head, stored, seen]

/-- A commit's snapshot never gets a whole wrap old: the thread itself holds the head back. -/
theorem HeadSnapshot.window {q : Queue Store} {h : History Data} {m : Mine} {call : Call Data}
    {oh : Marker} (snap : HeadSnapshot q h m call.side oh) (bound : BoundOk q h call.side)
    (flight : InFlight h m call) : h.commits call.side - m.seen < 2 ^ 32 := by
  have range := bound.flight_range flight.handed flight.pending
  have distance := bound.distance
  have near := snap.near
  omega

theorem Inv.slot_after (inv : Inv F s) {q' : Queue Store} {h' : History Data} {m : Mine}
    (frame : Frame F s.queue s.history q' h' m) {p : Nat} (committed : p ∈ s.history.committed .prod)
    (above : h'.acquired .prod ≤ p + bufferSize) {data : Data} (found : h'.dataAt p = some data) :
    F.Holds s.queue.store (slotOf p) data := by
  obtain ⟨old, same⟩ := (inv.bound .prod).data ((inv.bound .prod).committed_handed p committed)
  cases found.symm.trans (frame.dataAt same)
  exact inv.slots p committed (Nat.le_trans (frame.acquired_le .prod) above) data same

variable [DecidableEq ι]

section
variable {point : ι → Point Data Result} {mine : ι → Mine} {calls : Nat}

theorem Owned.update (owned : Owned calls point mine) (active : point i ≠ .idle)
    {p : Point Data Result} {m : Mine} (same : m.call = (mine i).call) :
    Owned calls (Function.update point i p) (Function.update mine i m) := by
  have call (j : ι) : (Function.update mine i m j).call = (mine j).call := by
    by_cases eq : j = i
    · subst j; simpa using same
    · simp [eq]
  have was (j : ι) (now : Function.update point i p j ≠ .idle) : point j ≠ .idle := by
    by_cases eq : j = i
    · subst j; exact active
    · simpa [eq] using now
  constructor
  · intro j now
    rw [call]
    exact owned.made j (was j now)
  · intro j k ne nowj nowk
    rw [call, call]
    exact owned.distinct j k ne (was j nowj) (was k nowk)

theorem Owned.invoke (owned : Owned calls point mine) {p : Point Data Result} {m : Mine}
    (own : m.call = calls) :
    Owned (calls + 1) (Function.update point i p) (Function.update mine i m) := by
  constructor
  · intro j now
    by_cases eq : j = i
    · subst j; simp [own]
    · simp only [Function.update_of_ne eq] at now ⊢
      exact Nat.lt_succ_of_lt (owned.made j now)
  · intro j k ne nowj nowk
    by_cases eqj : j = i
    · subst j
      have other : k ≠ i := ne.symm
      simp only [Function.update_self, Function.update_of_ne other] at nowk ⊢
      have old := owned.made k nowk
      omega
    · by_cases eqk : k = i
      · subst k
        simp only [Function.update_self, Function.update_of_ne eqj] at nowj ⊢
        have old := owned.made j nowj
        omega
      · simp only [Function.update_of_ne eqj, Function.update_of_ne eqk] at nowj nowk ⊢
        exact owned.distinct j k ne nowj nowk

end

/-! ### Steps of one thread -/

/-- A step that leaves queue and history alone only has to justify its own thread. -/
theorem Inv.put (inv : Inv F s) (active : s.point i ≠ .idle) {p : Point Data Result} {m : Mine}
    (same : m.call = (s.mine i).call) (ok : ThreadOk F s.queue s.history m p) :
    Inv F (s.put i p m) where
  bound := inv.bound
  order := inv.order
  room := inv.room
  slots := inv.slots
  owned := inv.owned.update active same
  thread j := by
    by_cases eq : j = i
    · subst j; simpa [State.put] using ok
    · simpa [State.put, eq] using inv.thread j

omit [DecidableEq ι] in
/-- A step of another thread keeps this one in order, if it frames all other calls. -/
theorem Inv.thread_other (inv : Inv F s) (active : s.point i ≠ .idle) {q : Queue Store} {h : History Data} {j : ι}
    (ne : j ≠ i) (frame : ∀ m : Mine, m.call ≠ (s.mine i).call → Frame F s.queue s.history q h m) :
    ThreadOk F q h (s.mine j) (s.point j) := by
  by_cases idle : s.point j = .idle
  · rw [idle]
    trivial
  · exact (frame _ (inv.owned.distinct j i ne idle active)).thread (inv.thread j)

theorem Inv.invoke (inv : Inv F s) (call : Call Data) : Inv F (s.invoke i call) := by
  -- a call that is only now made has no position
  have unused (side : Side) : s.history.calls.length ∉ s.history.handed side := by
    intro member
    obtain ⟨_, made, _⟩ := (inv.bound side).kind _ member
    simp at made
  have calls (n : Nat) (c : Call Data) (made : s.history.calls[n]? = some c) :
      (s.history.invoke call).calls[n]? = some c := by
    have below := (List.getElem?_eq_some_iff.mp made).1
    rwa [History.invoke, List.getElem?_append_left below]
  have frame (m : Mine) : Frame F s.queue s.history s.queue (s.history.invoke call) m :=
    { calls := calls, handed := fun _ _ _ same => same, acquired_le := fun _ => Nat.le_refl _
      visible_le := fun _ => Nat.le_refl _, committed := fun _ _ member => member
      settled := fun _ _ => ⟨rfl, rfl⟩, fresh := fun _ same => same
      pending := fun _ _ same => same, kept := fun _ _ _ same => same }
  refine ⟨fun side => ?_, inv.order, inv.room, ?_, fun j => ?_, ?_⟩
  · have old := inv.bound side
    refine ⟨old.tail, old.head, old.visible_committed, old.committed_handed, old.distance,
      old.settled, old.unique, fun c member => ?_⟩
    obtain ⟨made, found, same⟩ := old.kind c member
    exact ⟨made, calls c made found, same⟩
  · exact fun p committed above data found => inv.slot_after (frame (s.mine i)) committed above found
  · by_cases eq : j = i
    · subst j
      have at_ : (s.invoke i call).point i = .acquire call .load := by simp [State.invoke]
      have mine : ((s.invoke i call).mine i).call = s.history.calls.length := by simp [State.invoke]
      rw [at_]
      refine ⟨⟨?_, ?_⟩, trivial⟩
      · rw [mine]
        simp [State.invoke, History.invoke]
      · rw [mine]
        exact unused call.side
    · simpa [State.invoke, eq] using (frame (s.mine j)).thread (inv.thread j)
  · have owned := inv.owned.invoke (i := i) (p := .acquire call .load)
      (m := { s.mine i with call := s.history.calls.length }) rfl
    simpa [State.invoke, History.invoke] using owned

/-- A compare-and-swap on the tail that succeeds inside its window hands out the
position all its checks were made for. -/
theorem Inv.acquire (inv : Inv F s) {call : Call Data} {ot : Marker}
    (at_ : s.point i = .acquire call (.cas ot)) (tail : (s.queue.bound call.side).tail = ot)
    (window : s.history.acquired call.side - (s.mine i).seen < 2 ^ 32) :
    Inv F (s.afterAcquire i call ot) := by
  have ok := inv.thread i
  rw [at_] at ok
  obtain ⟨⟨made, unused⟩, seen, form, checked⟩ := ok
  have bound := inv.bound call.side
  have current : s.history.acquired call.side = (s.mine i).seen := by
    rw [bound.tail] at tail
    exact (ofNat_inj_of_window seen window (stored_inj (form ▸ tail)).1.symm).symm
  obtain ⟨near, room⟩ := checked current
  have next : nextTail ot = stored (s.history.acquired call.side + 1) (s.history.acquired call.side + 1) := by
    rw [form, ← current, nextTail_stored]
  have active : s.point i ≠ .idle := by simp [at_]
  have frame (m : Mine) (other : m.call ≠ (s.mine i).call) : Frame F s.queue s.history
      (s.afterAcquire i call ot).queue (s.afterAcquire i call ot).history m := Frame.hand other
  refine ⟨fun side => ?_, ?_, ?_, fun p committed above data found => ?_, fun j => ?_, ?_⟩
  · by_cases eq : side = call.side
    · subst side
      simpa [State.afterAcquire, next] using bound.hand near made rfl unused
    · exact (inv.bound side).hand_of_ne eq
  · have order := inv.order
    cases call with
    | enqueue data => simpa [State.afterAcquire, Call.side, History.hand, History.acquired] using order
    | dequeue =>
      rw [State.afterAcquire, Call.side, hand_acquired]
      exact room
  · have bounded := inv.room
    cases call with
    | enqueue data =>
      rw [State.afterAcquire, Call.side, hand_acquired]
      exact room
    | dequeue => simpa [State.afterAcquire, Call.side, History.hand, History.acquired] using bounded
  · -- the slots belong to no thread: a call that nobody has made yet stands for them
    have fresh : (⟨s.history.calls.length, 0, 0⟩ : Mine).call ≠ (s.mine i).call :=
      (Nat.ne_of_lt (inv.owned.made i active)).symm
    simpa [State.afterAcquire] using inv.slot_after (frame _ fresh) committed above found
  · by_cases eq : j = i
    · subst j
      have at_ : (s.afterAcquire i call ot).point i = .element call ot.pos := by
        simp [State.afterAcquire, State.put]
      have mine : (s.afterAcquire i call ot).mine i =
          { s.mine i with position := s.history.acquired call.side } := by
        simp [State.afterAcquire, State.put]
      rw [at_, mine]
      refine ⟨⟨made, ?_, fun member => ?_⟩, ?_⟩
      · simp [State.afterAcquire, History.hand, History.acquired]
      · exact Nat.lt_irrefl _ (bound.committed_handed _ member)
      · rw [form, stored, current]
    · simpa [State.afterAcquire, State.put, eq] using inv.thread_other active eq frame
  · exact inv.owned.update active rfl

omit [DecidableEq ι] in
theorem Inv.slot_ne (inv : Inv F s) {p c r : Nat} (handed : (s.history.handed .prod)[p]? = some c)
    (pending : p ∉ s.history.committed .prod) (below : r < s.history.acquired .prod)
    (recent : s.history.acquired .prod ≤ r + bufferSize) (ne : r ≠ p) : slotOf r ≠ slotOf p := by
  have range := (inv.bound .prod).flight_range handed pending
  have distance := (inv.bound .prod).distance
  intro same
  exact ne (eq_of_slotOf same (by simp only [bufferSize] at recent ⊢; omega)
    (by simp only [bufferSize] at recent ⊢; omega))

theorem Inv.frame_write (inv : Inv F s) {data : Data} {entry : BitVec 32}
    (flight : InFlight s.history (s.mine i) (.enqueue data)) (slot : ringIndex entry = slotOf (s.mine i).position)
    {m : Mine} (other : m.call ≠ (s.mine i).call) :
    Frame F s.queue s.history (s.afterWrite i F data entry).queue s.history m where
  calls _ _ same := same
  handed _ _ _ got := got
  acquired_le _ := Nat.le_refl _
  visible_le _ := Nat.le_refl _
  committed _ _ member := member
  settled _ _ := ⟨rfl, by simp [State.afterWrite]⟩
  fresh _ unused := unused
  pending _ _ same := same
  kept d handed pending holds := by
    have range := (inv.bound .prod).flight_range handed pending
    have distance := (inv.bound .prod).distance
    have ne : m.position ≠ (s.mine i).position := by
      intro same
      have calls := handed.symm.trans (same ▸ flight.handed)
      exact other (Option.some.inj calls)
    have apart := inv.slot_ne flight.handed flight.pending range.2.1 (by simp only [bufferSize]; omega) ne
    rw [← slot] at apart
    exact F.holds_frame _ _ _ _ _ apart holds

/-- A slot write touches no slot that anyone still relies on. -/
theorem Inv.write (inv : Inv F s) {data : Data} {entry : BitVec 32}
    (at_ : s.point i = .element (.enqueue data) entry) : Inv F (s.afterWrite i F data entry) := by
  have ok := inv.thread i
  rw [at_] at ok
  obtain ⟨flight, form⟩ := ok
  have active : s.point i ≠ .idle := by simp [at_]
  have slot : ringIndex entry = slotOf (s.mine i).position := by rw [form, slotOf]
  refine ⟨fun side => ?_, inv.order, inv.room, fun p committed recent d found => ?_, fun j => ?_, ?_⟩
  · have old := inv.bound side
    exact ⟨by simpa [State.afterWrite, State.put] using old.tail,
      by simpa [State.afterWrite, State.put] using old.head, old.visible_committed, old.committed_handed, old.distance,
      old.settled, old.unique, old.kind⟩
  · have below := (inv.bound .prod).committed_handed p committed
    have ne : p ≠ (s.mine i).position := fun same => flight.pending (same ▸ committed)
    have apart := inv.slot_ne flight.handed flight.pending below recent ne
    rw [← slot] at apart
    exact F.holds_frame _ _ _ _ _ apart (inv.slots p committed recent d found)
  · by_cases eq : j = i
    · subst j
      have at_ : (s.afterWrite i F data entry).point i = .commit (.enqueue data) none .loadHead := by
        simp [State.afterWrite, State.put]
      have mine : (s.afterWrite i F data entry).mine i = s.mine i := by
        simp [State.afterWrite, State.put]
      rw [at_, mine]
      refine ⟨flight, ?_, trivial⟩
      rw [Transferred, ← slot]
      exact F.holds_enqueue _ _ _
    · have others := inv.thread_other active eq fun m other => inv.frame_write flight slot other
      simpa [State.afterWrite, State.put, eq] using others
  · exact inv.owned.update active rfl

/-- A compare-and-swap on the head installs a justified marker. -/
theorem Inv.commit (inv : Inv F s) {call : Call Data} {got : Option Result} {oh nh : Marker}
    (at_ : s.point i = .commit call got (.cas oh nh)) (head : (s.queue.bound call.side).head = oh) :
    Inv F (s.afterCommit i call got oh nh) := by
  have ok := inv.thread i
  rw [at_] at ok
  obtain ⟨flight, moved, snap, next⟩ := ok
  have bound := inv.bound call.side
  have active : s.point i ≠ .idle := by simp [at_]
  have current : s.history.commits call.side = (s.mine i).seen := by
    rw [bound.head] at head
    have counts := congrArg Marker.count head
    rw [snap.count] at counts
    exact (ofNat_inj_of_window snap.seen_le (snap.window bound flight) counts.symm).symm
  have oldPos : oh.pos = BitVec.ofNat 32 (s.history.visible call.side) := by
    rw [← head, bound.head, stored]
  have justified := bound.commit flight.handed flight.pending (next current)
  have frame (m : Mine) (other : m.call ≠ (s.mine i).call) : Frame F s.queue s.history
      (s.afterCommit i call got oh nh).queue (s.afterCommit i call got oh nh).history m := by
    refine Frame.commit_step flight.pending fun handed same => ?_
    exact other (Option.some.inj (handed.symm.trans (same ▸ flight.handed)))
  have visible (side : Side) : s.history.visible side ≤
      (s.afterCommit i call got oh nh).history.visible side := commit_visible_le
  have fresh : (⟨s.history.calls.length, 0, 0⟩ : Mine).call ≠ (s.mine i).call :=
    (Nat.ne_of_lt (inv.owned.made i active)).symm
  refine ⟨fun side => ?_, Nat.le_trans inv.order (visible .prod), ?_,
    fun p committed recent d found => ?_, fun j => ?_, ?_⟩
  · by_cases eq : side = call.side
    · subst side
      simpa [State.afterCommit, oldPos] using justified
    · exact (inv.bound side).commit_of_ne eq
  · have grow := visible .cons
    exact Nat.le_trans inv.room (Nat.add_le_add_right grow _)
  · simp only [State.afterCommit, setHead_store]
    by_cases old : p ∈ s.history.committed .prod
    · exact inv.slot_after (frame _ fresh) old recent found
    · -- the committed position is the thread's own, and its slot was written
      cases call with
      | dequeue => exact absurd (by simpa [State.afterCommit, History.commit, Call.side] using committed) old
      | enqueue data =>
        have own : p = (s.mine i).position := by
          simp only [State.afterCommit, Call.side, commit_committed, Finset.mem_insert] at committed
          exact committed.resolve_right old
        subst own
        have same := (frame _ fresh).dataAt (dataAt_eq flight.handed flight.made)
        cases found.symm.trans same
        cases got with
        | none => exact moved
        | some result => exact moved.elim
  · by_cases eq : j = i
    · subst j
      have at_ : (s.afterCommit i call got oh nh).point i = .returned (committedReturn got) := by
        simp [State.afterCommit, State.put]
      have mine : (s.afterCommit i call got oh nh).mine i = s.mine i := by
        simp [State.afterCommit, State.put]
      have own : (s.mine i).position ∈ (s.afterCommit i call got oh nh).history.committed call.side := by
        simp [State.afterCommit]
      rw [at_, mine]
      cases call with
      | enqueue data =>
        cases got with
        | none => exact ⟨flight.handed, own⟩
        | some result => exact moved.elim
      | dequeue =>
        cases got with
        | none => exact moved.elim
        | some result =>
          obtain ⟨data, found, same⟩ := moved
          exact ⟨flight.handed, own, data, (frame _ fresh).dataAt found, same⟩
    · simpa [State.afterCommit, State.put, eq] using inv.thread_other active eq frame
  · exact inv.owned.update active rfl

/-! ### Every step -/

theorem Inv.access (inv : Inv F s) {v : CasVariant} {t : State ι Store Data Result}
    (window : Windowed s (.access i)) (access : Access s i v F t) : Inv F t := by
  have ok := inv.thread i
  cases access with
  | load at_ =>
    rw [at_] at ok
    exact inv.put (by simp [at_]) rfl ⟨ok.1, inv.snapshot _ _ trivial rfl⟩
  | waitMore at_ _ =>
    rw [at_] at ok
    exact inv.put (by simp [at_]) rfl ⟨ok.1, trivial⟩
  | waitOver at_ near =>
    rw [at_] at ok
    exact inv.put (by simp [at_]) rfl ⟨ok.1, inv.wait_over ok.2 near⟩
  | @refuse call _ at_ _ =>
    rw [at_] at ok
    refine inv.put (by simp [at_]) rfl fun side member => ?_
    -- the call has no position on its own side, and the other side holds other calls
    obtain ⟨made, found, kind⟩ := (inv.bound side).kind _ member
    cases ok.1.1.symm.trans found
    exact ok.1.2 (kind ▸ member)
  | proceed at_ entries =>
    rw [at_] at ok
    exact inv.put (by simp [at_]) rfl ⟨ok.1, inv.has_room ok.2 entries⟩
  | acquire at_ tail => exact inv.acquire at_ tail (by simpa [Windowed, Ring.window, at_] using window)
  | acquireRetry at_ _ =>
    rw [at_] at ok
    cases v with
    | user => exact inv.put (by simp [at_]) rfl ⟨ok.1, inv.snapshot _ _ trivial rfl⟩
    | kernel => exact inv.put (by simp [at_]) rfl ⟨ok.1, ok.2.1, ok.2.2.1, fun _ => trivial⟩
  | write at_ => exact inv.write at_
  | read at_ got =>
    rw [at_] at ok
    obtain ⟨data, found, delivered⟩ := inv.read ok.1
    rw [ok.2] at got
    cases got.symm.trans delivered
    exact inv.put (by simp [at_]) rfl ⟨ok.1, ⟨data, found, rfl⟩, trivial⟩
  | abort at_ failed =>
    rw [at_] at ok
    obtain ⟨data, _, delivered⟩ := inv.read ok.1
    rw [ok.2] at failed
    cases failed.symm.trans delivered
  | @commitLoad call _ at_ =>
    rw [at_] at ok
    have flight := ok.1.reload (s.history.commits call.side)
    exact inv.put (by simp [at_]) rfl ⟨flight, ok.2.1, inv.head_snapshot flight rfl⟩
  | commitTail at_ =>
    rw [at_] at ok
    exact inv.put (by simp [at_]) rfl
      ⟨ok.1, ok.2.1, ok.2.2, fun current => inv.next_head ok.1 ok.2.2 current⟩
  | commit at_ head => exact inv.commit at_ head
  | @commitRetry call _ _ _ at_ _ =>
    rw [at_] at ok
    cases v with
    | user =>
      have flight := ok.1.reload (s.history.commits call.side)
      exact inv.put (by simp [at_]) rfl ⟨flight, ok.2.1, inv.head_snapshot flight rfl⟩
    | kernel => exact inv.put (by simp [at_]) rfl ⟨ok.1, ok.2.1, ok.2.2.1⟩

omit [DecidableEq ι] in
theorem Inv.initial (F : ElementFns Store Data Result) (zeroed : Store) :
    Inv F (State.initial zeroed : State ι Store Data Result) where
  bound side := by
    cases side <;>
      exact ⟨rfl, rfl, fun _ below => absurd below (Nat.not_lt_zero _),
        fun _ member => by simp [State.initial, History.empty] at member,
        Nat.zero_le _, fun _ => rfl, List.nodup_nil,
        fun _ member => by simp [State.initial, History.empty] at member⟩
  order := Nat.le_refl _
  room := Nat.zero_le _
  slots p member := by simp [State.initial, History.empty] at member
  thread _ := trivial
  owned := ⟨fun _ active => absurd rfl active, fun _ _ _ active => absurd rfl active⟩

theorem Inv.step (inv : Inv F s) {v : CasVariant} {a : Action ι Data} {t : State ι Store Data Result}
    (window : Windowed s a) (edge : step v F s a = some t) : Inv F t := by
  rcases step_cases edge with ⟨i, call, rfl, _, rfl⟩ | ⟨i, rfl, _, access⟩
  · exact inv.invoke call
  · exact inv.access window access

theorem reachable_inv {v : CasVariant} {zeroed : Store}
    (reached : Reachable v F zeroed s) : Inv F s :=
  reached.invariant (Inv.initial F zeroed) fun _ _ _ inv window edge => inv.step window edge

end Virtioso.Ring
