import Virtioso.Ring.Invariant

/-! The ring invariant is kept by every access whose window has not wrapped. -/

set_option autoImplicit false

namespace Virtioso.Ring

open Foundation

variable {ι Store Data Result : Type} [DecidableEq ι]
variable {F : ElementFns Store Data Result} {q q' : Queue Store} {h h' : History Data} {m : Mine}

section
variable {side : Side}

theorem BoundOk.commits_le (ok : BoundOk q h side) : h.commits side ≤ h.acquired side := by
  have sub : h.committed side ⊆ Finset.range (h.acquired side) :=
    fun p member => Finset.mem_range.mpr (ok.committed_handed p member)
  simpa [History.commits] using Finset.card_le_card sub

theorem BoundOk.visible_le_commits (ok : BoundOk q h side) : h.visible side ≤ h.commits side := by
  have sub : Finset.range (h.visible side) ⊆ h.committed side :=
    fun p member => ok.visible_committed p (Finset.mem_range.mp member)
  simpa [History.commits] using Finset.card_le_card sub

theorem BoundOk.visible_le (ok : BoundOk q h side) : h.visible side ≤ h.acquired side :=
  Nat.le_trans ok.visible_le_commits ok.commits_le

theorem BoundOk.flight_range (ok : BoundOk q h side) {p c : Nat}
    (handed : (h.handed side)[p]? = some c) (pending : p ∉ h.committed side) :
    h.visible side ≤ p ∧ p < h.acquired side ∧ h.commits side < h.acquired side := by
  have below : p < h.acquired side := (List.getElem?_eq_some_iff.mp handed).1
  refine ⟨Nat.le_of_not_lt fun lt => pending (ok.visible_committed p lt), below, ?_⟩
  have sub : insert p (h.committed side) ⊆ Finset.range (h.acquired side) := by
    intro r member
    rcases Finset.mem_insert.mp member with rfl | member
    · exact Finset.mem_range.mpr below
    · exact Finset.mem_range.mpr (ok.committed_handed r member)
  have card := Finset.card_le_card sub
  rw [Finset.card_insert_of_notMem pending, Finset.card_range] at card
  exact card

theorem BoundOk.last_in_flight (ok : BoundOk q h side) {p c : Nat}
    (handed : (h.handed side)[p]? = some c) (pending : p ∉ h.committed side)
    (last : h.commits side + 1 = h.acquired side) :
    insert p (h.committed side) = Finset.range (h.commits side + 1) := by
  apply Finset.eq_of_subset_of_card_le
  · intro r member
    rw [Finset.mem_range, last]
    rcases Finset.mem_insert.mp member with rfl | member
    · exact (ok.flight_range handed pending).2.1
    · exact ok.committed_handed r member
  · rw [Finset.card_range, Finset.card_insert_of_notMem pending]
    exact Nat.le_refl _

end

theorem stored_inj {p c p' c' : Nat} (same : stored p c = stored p' c') :
    BitVec.ofNat 32 p = BitVec.ofNat 32 p' ∧ BitVec.ofNat 32 c = BitVec.ofNat 32 c' := by
  simpa [stored] using same

theorem nextTail_stored (n : Nat) : nextTail (stored n n) = stored (n + 1) (n + 1) := by
  simp [nextTail, stored, BitVec.ofNat_add]

theorem dataAt_eq {p c : Nat} {data : Data} (handed : (h.handed .prod)[p]? = some c)
    (made : h.calls[c]? = some (.enqueue data)) : h.dataAt p = some data := by
  simp [History.dataAt, handed, made]

section
variable (h) (side other : Side) (call position : Nat) (distance : BitVec 32)

@[simp] theorem hand_acquired : (h.hand side call).acquired side = h.acquired side + 1 := by
  simp [History.hand, History.acquired]

@[simp] theorem commit_committed : (h.commit side position distance).committed side =
    insert position (h.committed side) := by simp [History.commit]

@[simp] theorem commit_visible : (h.commit side position distance).visible side =
    h.visible side + distance.toNat := by simp [History.commit]

variable {other side}

theorem hand_of_ne (ne : other ≠ side) : (h.hand side call).handed other = h.handed other := by
  simp [History.hand, ne]

theorem commit_committed_of_ne (ne : other ≠ side) :
    (h.commit side position distance).committed other = h.committed other := by
  simp [History.commit, ne]

theorem commit_visible_of_ne (ne : other ≠ side) :
    (h.commit side position distance).visible other = h.visible other := by
  simp [History.commit, ne]

end

theorem BoundOk.data (ok : BoundOk q h .prod) {p : Nat} (below : p < h.acquired .prod) :
    ∃ data, h.dataAt p = some data := by
  have handed : (h.handed .prod)[p]? = some (h.handed .prod)[p] := List.getElem?_eq_getElem below
  obtain ⟨call, made, side⟩ := ok.kind _ (List.getElem_mem below)
  cases call with
  | dequeue => cases side
  | enqueue data => exact ⟨data, dataAt_eq handed made⟩

/-! ### What another thread's step leaves of a thread's facts -/

/-- The step from `q`, `h` to `q'`, `h'` grows the history and keeps what the
thread with history `m` relies on. -/
structure Frame (F : ElementFns Store Data Result) (q : Queue Store) (h : History Data)
    (q' : Queue Store) (h' : History Data) (m : Mine) : Prop where
  calls : ∀ (n : Nat) call, h.calls[n]? = some call → h'.calls[n]? = some call
  handed : ∀ side (p c : Nat), (h.handed side)[p]? = some c → (h'.handed side)[p]? = some c
  acquired_le : ∀ side, h.acquired side ≤ h'.acquired side
  visible_le : ∀ side, h.visible side ≤ h'.visible side
  committed : ∀ side, h.committed side ⊆ h'.committed side
  settled : ∀ side, h'.commits side = h.commits side →
    h'.visible side = h.visible side ∧ (q'.bound side).head = (q.bound side).head
  fresh : ∀ side, m.call ∉ h.handed side → m.call ∉ h'.handed side
  pending : ∀ side, (h.handed side)[m.position]? = some m.call → m.position ∉ h.committed side →
    m.position ∉ h'.committed side
  kept : ∀ data, (h.handed .prod)[m.position]? = some m.call → m.position ∉ h.committed .prod →
    F.Holds q.store (slotOf m.position) data → F.Holds q'.store (slotOf m.position) data

theorem Frame.dataAt (frame : Frame F q h q' h' m) {p : Nat} {data : Data}
    (found : h.dataAt p = some data) : h'.dataAt p = some data := by
  simp only [History.dataAt] at found
  cases handed : (h.handed .prod)[p]? with
  | none => simp [handed] at found
  | some c =>
    simp only [handed, Option.bind_some] at found
    split at found
    · next d made =>
      cases found
      exact dataAt_eq (frame.handed _ _ _ handed) (frame.calls _ _ made)
    · cases found

theorem Frame.commits_le (frame : Frame F q h q' h' m) (side : Side) :
    h.commits side ≤ h'.commits side := Finset.card_le_card (frame.committed side)

theorem Frame.committed_eq (frame : Frame F q h q' h' m) {side : Side}
    (same : h'.commits side = h.commits side) : h'.committed side = h.committed side :=
  (Finset.eq_of_subset_of_card_le (frame.committed side) (Nat.le_of_eq same)).symm

theorem Frame.inFlight (frame : Frame F q h q' h' m) {call : Call Data}
    (ok : InFlight h m call) : InFlight h' m call :=
  ⟨frame.calls _ _ ok.made, frame.handed _ _ _ ok.handed, frame.pending _ ok.handed ok.pending⟩

/-- A snapshot that no update has followed afterwards was current before. -/
theorem Frame.snapshot (frame : Frame F q h q' h' m) {side : Side} {ot : Marker} {known known' : Prop}
    (carry : h.acquired side = h'.acquired side → known → known')
    (ok : Snapshot h m side ot known) : Snapshot h' m side ot known' := by
  obtain ⟨seen, form, current⟩ := ok
  have grow := frame.acquired_le side
  refine ⟨Nat.le_trans seen grow, form, fun same => ?_⟩
  have unchanged : h.acquired side = h'.acquired side := by omega
  exact carry unchanged (current (unchanged.trans same))

theorem Frame.acquire (frame : Frame F q h q' h' m) {side : Side} {point : Acquire}
    (ok : AcquireOk h m side point) : AcquireOk h' m side point := by
  have near (same : h.acquired side = h'.acquired side)
      (dist : h.acquired side ≤ h.visible side + 8) : h'.acquired side ≤ h'.visible side + 8 := by
    have grow := frame.visible_le side
    omega
  cases point with
  | load => trivial
  | tailWait ot => exact frame.snapshot (fun _ known => known) ok
  | entries ot => exact frame.snapshot near ok
  | cas ot =>
    refine frame.snapshot (fun same known => ⟨near same known.1, ?_⟩) ok
    have room := known.2
    cases side with
    | prod =>
      have grow := frame.visible_le .cons
      simp only [HasRoom] at room ⊢
      omega
    | cons =>
      have grow := frame.visible_le .prod
      simp only [HasRoom] at room ⊢
      omega

theorem Frame.headSnapshot (frame : Frame F q h q' h' m) {side : Side} {oh : Marker}
    (ok : HeadSnapshot q h m side oh) : HeadSnapshot q' h' m side oh := by
  have grow := frame.commits_le side
  have seen := ok.seen_le
  refine ⟨Nat.le_trans seen grow, ok.count, fun same => ?_, ok.near⟩
  have unchanged : h'.commits side = h.commits side := by omega
  exact (frame.settled side unchanged).2.trans (ok.current (unchanged.symm.trans same))

theorem Frame.commit (frame : Frame F q h q' h' m) {side : Side} {point : Commit}
    (ok : CommitOk q h m side point) : CommitOk q' h' m side point := by
  cases point with
  | loadHead => trivial
  | loadTail oh => exact frame.headSnapshot ok
  | cas oh nh =>
    refine ⟨frame.headSnapshot ok.1, fun same => ?_⟩
    have grow := frame.commits_le side
    have seen := ok.1.seen_le
    have unchanged : h'.commits side = h.commits side := by omega
    obtain ⟨count, next⟩ := ok.2 (unchanged.symm.trans same)
    have acquired := frame.acquired_le side
    unfold NextOk
    rw [unchanged, frame.committed_eq unchanged, (frame.settled side unchanged).1]
    refine ⟨count, next.imp id fun other => ⟨other.1, ?_⟩⟩
    have more := other.2
    omega

theorem Frame.thread (frame : Frame F q h q' h' m) {point : Point Data Result}
    (ok : ThreadOk F q h m point) : ThreadOk F q' h' m point := by
  cases point with
  | idle => trivial
  | aborted => exact ok
  | acquire call point =>
    exact ⟨⟨frame.calls _ _ ok.1.1, frame.fresh _ ok.1.2⟩, frame.acquire ok.2⟩
  | element call entry => exact ⟨frame.inFlight ok.1, ok.2⟩
  | commit call got point =>
    refine ⟨frame.inFlight ok.1, ?_, frame.commit ok.2.2⟩
    have moved := ok.2.1
    -- an enqueue has written its slot, a dequeue has got what its position holds
    match call, got with
    | .enqueue data, none => exact frame.kept data ok.1.handed ok.1.pending moved
    | .dequeue, some result =>
      obtain ⟨data, found, same⟩ := moved
      exact ⟨data, frame.dataAt found, same⟩
    | .enqueue _, some _ => exact moved.elim
    | .dequeue, none => exact moved.elim
  | returned value =>
    cases value with
    | refused => exact fun side => frame.fresh side (ok side)
    | enqueued => exact ⟨frame.handed _ _ _ ok.1, frame.committed _ ok.2⟩
    | dequeued result =>
      obtain ⟨handed, committed, data, found, same⟩ := ok
      exact ⟨frame.handed _ _ _ handed, frame.committed _ committed, data, frame.dataAt found, same⟩

/-! ### Handing out a position -/

section
variable {side other : Side} {call : Nat}

theorem hand_handed {p c : Nat} (got : (h.handed other)[p]? = some c) :
    ((h.hand side call).handed other)[p]? = some c := by
  by_cases eq : other = side
  · subst other
    have below := (List.getElem?_eq_some_iff.mp got).1
    simpa [History.hand, List.getElem?_append_left below] using got
  · rwa [hand_of_ne _ _ eq]

theorem hand_acquired_le : h.acquired other ≤ (h.hand side call).acquired other := by
  by_cases eq : other = side
  · subst other; simp
  · simp only [History.acquired, hand_of_ne _ _ eq, Nat.le_refl]

theorem Frame.hand {nt : Marker} (ne : m.call ≠ call) :
    Frame F q h (q.setTail side nt) (h.hand side call) m where
  calls _ _ same := same
  handed _ _ _ got := hand_handed got
  acquired_le _ := hand_acquired_le
  visible_le _ := Nat.le_refl _
  committed _ _ member := member
  settled _ _ := ⟨rfl, setTail_head ..⟩
  fresh other unused member := by
    by_cases eq : other = side
    · subst other
      simp only [History.hand, Function.update_self, List.mem_append, List.mem_singleton] at member
      exact member.elim unused ne
    · exact unused (hand_of_ne h call eq ▸ member)
  pending _ _ same := same
  kept _ _ _ same := by simpa using same

theorem BoundOk.hand (ok : BoundOk q h side) (near : h.acquired side ≤ h.visible side + 8)
    {made : Call Data} (found : h.calls[call]? = some made) (kind : made.side = side)
    (unused : call ∉ h.handed side) :
    BoundOk (q.setTail side (stored (h.acquired side + 1) (h.acquired side + 1)))
      (h.hand side call) side where
  tail := by simp
  head := by rw [setTail_head]; exact ok.head
  visible_committed := ok.visible_committed
  committed_handed p member := by
    have below := ok.committed_handed p member
    rw [hand_acquired]
    omega
  distance := by rw [hand_acquired]; exact Nat.succ_le_succ near
  settled same := by
    have le := ok.commits_le
    rw [hand_acquired] at same
    change h.commits side = h.acquired side + 1 at same
    omega
  unique := by
    have fresh : ∀ a ∈ h.handed side, a ≠ call := fun a member same => unused (same ▸ member)
    simpa [History.hand, List.nodup_append] using ⟨ok.unique, fresh⟩
  kind c member := by
    simp only [History.hand, Function.update_self, List.mem_append, List.mem_singleton] at member
    rcases member with member | rfl
    · exact ok.kind c member
    · exact ⟨made, found, kind⟩

theorem BoundOk.hand_of_ne (ok : BoundOk q h other) (ne : other ≠ side) {nt : Marker} :
    BoundOk (q.setTail side nt) (h.hand side call) other := by
  have bound : (q.setTail side nt).bound other = q.bound other := setTail_of_ne _ _ _ _ ne
  have handed : (h.hand side call).handed other = h.handed other := Ring.hand_of_ne h call ne
  have acquired : (h.hand side call).acquired other = h.acquired other := congrArg List.length handed
  exact
    { tail := by rw [bound, acquired]; exact ok.tail
      head := by rw [bound]; exact ok.head
      visible_committed := ok.visible_committed
      committed_handed := by rw [acquired]; exact ok.committed_handed
      distance := by rw [acquired]; exact ok.distance
      settled := by rw [acquired]; exact ok.settled
      unique := by rw [handed]; exact ok.unique
      kind := by rw [handed]; exact ok.kind }

end

/-! ### Committing a position -/

section
variable {side other : Side} {position : Nat} {distance : BitVec 32}

theorem commit_committed_sub : h.committed other ⊆ (h.commit side position distance).committed other := by
  by_cases eq : other = side
  · subst other; simp
  · rw [commit_committed_of_ne _ _ _ eq]

theorem commit_visible_le : h.visible other ≤ (h.commit side position distance).visible other := by
  by_cases eq : other = side
  · subst other; simp
  · rw [commit_visible_of_ne _ _ _ eq]

theorem commit_commits (pending : position ∉ h.committed side) :
    (h.commit side position distance).commits side = h.commits side + 1 := by
  simp [History.commits, Finset.card_insert_of_notMem pending]

theorem Frame.commit_step {nh : Marker} (pending : position ∉ h.committed side)
    (ne : (h.handed side)[m.position]? = some m.call → m.position ≠ position) :
    Frame F q h (q.setHead side nh) (h.commit side position distance) m where
  calls _ _ same := same
  handed _ _ _ got := got
  acquired_le _ := Nat.le_refl _
  visible_le _ := commit_visible_le
  committed _ := commit_committed_sub
  settled other same := by
    by_cases eq : other = side
    · subst other
      rw [commit_commits pending] at same
      omega
    · exact ⟨commit_visible_of_ne _ _ _ eq, by rw [setHead_of_ne _ _ _ _ eq]⟩
  fresh _ unused := unused
  pending other handed old member := by
    by_cases eq : other = side
    · subst other
      rw [commit_committed, Finset.mem_insert] at member
      exact member.elim (ne handed) old
    · exact old (commit_committed_of_ne h position distance eq ▸ member)
  kept _ _ _ same := by simpa using same

theorem BoundOk.commit (ok : BoundOk q h side) {c : Nat} {nh : Marker}
    (handed : (h.handed side)[m.position]? = some c) (pending : m.position ∉ h.committed side)
    (next : NextOk h m side nh) :
    BoundOk (q.setHead side nh)
      (h.commit side m.position (nh.pos - BitVec.ofNat 32 (h.visible side))) side := by
  have range := ok.flight_range handed pending
  have commits := ok.visible_le_commits
  have distance := ok.distance
  obtain ⟨count, follow⟩ := next
  -- either the head follows to the new count, or it stays below another call in flight
  obtain ⟨visible, pos, covered, meet⟩ : ∃ visible,
      nh.pos = BitVec.ofNat 32 visible ∧
      (h.visible side ≤ visible ∧ visible ≤ h.acquired side ∧
        ∀ p, p < visible → p ∈ insert m.position (h.committed side)) ∧
      (h.commits side + 1 = h.acquired side → visible = h.acquired side) := by
    rcases follow with ⟨pos, all⟩ | ⟨pos, more⟩
    · refine ⟨h.commits side + 1, pos, ⟨by omega, by omega, fun p below => ?_⟩, fun same => same⟩
      rw [all]
      exact Finset.mem_range.mpr below
    · refine ⟨h.visible side, pos, ⟨Nat.le_refl _, by omega, fun p below => ?_⟩, fun same => by omega⟩
      exact Finset.mem_insert_of_mem (ok.visible_committed p below)
  have moved : (h.commit side m.position (nh.pos - BitVec.ofNat 32 (h.visible side))).visible side =
      visible := by
    rw [commit_visible, pos, toNat_distance covered.1 (by omega)]
    omega
  refine ⟨?_, ?_, ?_, ?_, ?_, ?_, ok.unique, ok.kind⟩
  · rw [setHead_tail]
    exact ok.tail
  · rw [setHead_head, moved, commit_commits pending, stored, ← pos, ← count]
  · rw [moved, commit_committed]
    exact covered.2.2
  · intro p member
    rw [commit_committed, Finset.mem_insert] at member
    rcases member with rfl | member
    · exact range.2.1
    · exact ok.committed_handed p member
  · rw [moved]
    change h.acquired side ≤ visible + 9
    omega
  · rw [moved, commit_commits pending]
    exact meet

theorem BoundOk.commit_of_ne (ok : BoundOk q h other) (ne : other ≠ side) {nh : Marker} :
    BoundOk (q.setHead side nh) (h.commit side position distance) other := by
  have bound : (q.setHead side nh).bound other = q.bound other := setHead_of_ne _ _ _ _ ne
  have committed := commit_committed_of_ne h position distance ne
  have visible := commit_visible_of_ne h position distance ne
  have commits : (h.commit side position distance).commits other = h.commits other :=
    congrArg Finset.card committed
  exact
    { tail := by rw [bound]; exact ok.tail
      head := by rw [bound, visible, commits]; exact ok.head
      visible_committed := by rw [visible, committed]; exact ok.visible_committed
      committed_handed := by rw [committed]; exact ok.committed_handed
      distance := by rw [visible]; exact ok.distance
      settled := by rw [visible, commits]; exact ok.settled
      unique := ok.unique
      kind := ok.kind }

end

end Virtioso.Ring
