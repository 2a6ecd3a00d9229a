import Mathlib.Data.Finset.Range
import Virtioso.Foundation.Counter
import Virtioso.Ring.Accesses

/-! The invariant of a shared queue.

Per bound, the markers store the history's counts, everything below the head is
committed, and the head meets the tail when nothing is in flight. Across bounds,
consumers stay behind the producers' head and producers at most one ring ahead
of the consumers' head. Per thread, a snapshot that is still current carries what
was checked on it; an outdated one carries nothing and fails its compare-and-swap.
-/

set_option autoImplicit false

namespace Virtioso.Ring

open Foundation

variable {ι Store Data Result : Type} [DecidableEq ι]

def stored (p c : Nat) : Marker := ⟨BitVec.ofNat 32 p, BitVec.ofNat 32 c⟩

def slotOf (p : Nat) : Fin bufferSize := ringIndex (BitVec.ofNat 32 p)

theorem slotOf_val (p : Nat) : (slotOf p).val = p % bufferSize := ringIndex_ofNat p

theorem eq_of_slotOf {a b : Nat} (same : slotOf a = slotOf b) (above : a < b + bufferSize)
    (below : b < a + bufferSize) : a = b := by
  have residues := congrArg Fin.val same
  rw [slotOf_val, slotOf_val] at residues
  exact eq_of_slot residues above below

structure BoundOk (q : Queue Store) (h : History Data) (side : Side) : Prop where
  tail : (q.bound side).tail = stored (h.acquired side) (h.acquired side)
  head : (q.bound side).head = stored (h.visible side) (h.commits side)
  visible_committed : ∀ p, p < h.visible side → p ∈ h.committed side
  committed_handed : ∀ p ∈ h.committed side, p < h.acquired side
  distance : h.acquired side ≤ h.visible side + 9
  settled : h.commits side = h.acquired side → h.visible side = h.acquired side
  unique : (h.handed side).Nodup
  kind : ∀ c ∈ h.handed side, ∃ call, h.calls[c]? = some call ∧ call.side = side

def HasRoom (h : History Data) : Side → Prop
  | .prod => h.acquired .prod < h.visible .cons + bufferSize
  | .cons => h.acquired .cons < h.visible .prod

/-- The call has been made and has no position yet. -/
def Fresh (h : History Data) (m : Mine) (call : Call Data) : Prop :=
  h.calls[m.call]? = some call ∧ m.call ∉ h.handed call.side

/-- The call has been handed its position and has not committed it. -/
structure InFlight (h : History Data) (m : Mine) (call : Call Data) : Prop where
  made : h.calls[m.call]? = some call
  handed : (h.handed call.side)[m.position]? = some m.call
  pending : m.position ∉ h.committed call.side

/-- `ot` is the tail after `seen` updates; while no update has followed, `known` holds. -/
def Snapshot (h : History Data) (m : Mine) (side : Side) (ot : Marker) (known : Prop) : Prop :=
  m.seen ≤ h.acquired side ∧ ot = stored m.seen m.seen ∧ (h.acquired side = m.seen → known)

def AcquireOk (h : History Data) (m : Mine) (side : Side) : Acquire → Prop
  | .load => True
  | .tailWait ot => Snapshot h m side ot True
  | .entries ot => Snapshot h m side ot (h.acquired side ≤ h.visible side + 8)
  | .cas ot => Snapshot h m side ot (h.acquired side ≤ h.visible side + 8 ∧ HasRoom h side)

/-- `oh` is the head after `seen` commits, and still the head if none has followed.
The position bound keeps a wrapped window from ever arising here. -/
structure HeadSnapshot (q : Queue Store) (h : History Data) (m : Mine) (side : Side)
    (oh : Marker) : Prop where
  seen_le : m.seen ≤ h.commits side
  count : oh.count = BitVec.ofNat 32 m.seen
  current : h.commits side = m.seen → (q.bound side).head = oh
  near : m.position ≤ m.seen + 9

/-- The marker a commit is about to install, on a snapshot that is still current:
either this is the last commit in flight and the head follows, or another follows. -/
def NextOk (h : History Data) (m : Mine) (side : Side) (nh : Marker) : Prop :=
  nh.count = BitVec.ofNat 32 (h.commits side + 1) ∧
    ((nh.pos = BitVec.ofNat 32 (h.commits side + 1) ∧
        insert m.position (h.committed side) = Finset.range (h.commits side + 1)) ∨
      (nh.pos = BitVec.ofNat 32 (h.visible side) ∧ h.commits side + 1 < h.acquired side))

def CommitOk (q : Queue Store) (h : History Data) (m : Mine) (side : Side) : Commit → Prop
  | .loadHead => True
  | .loadTail oh => HeadSnapshot q h m side oh
  | .cas oh nh => HeadSnapshot q h m side oh ∧ (h.commits side = m.seen → NextOk h m side nh)

/-- The slot of an enqueue in flight is written; a dequeue got what was enqueued
at its position. -/
def Transferred (F : ElementFns Store Data Result) (q : Queue Store) (h : History Data) (m : Mine) :
    Call Data → Option Result → Prop
  | .enqueue data, none => F.Holds q.store (slotOf m.position) data
  | .dequeue, some result => ∃ data, h.dataAt m.position = some data ∧ result = F.deliver data
  | _, _ => False

def ReturnOk (F : ElementFns Store Data Result) (h : History Data) (m : Mine) : Return Result → Prop
  | .refused => ∀ side, m.call ∉ h.handed side
  | .enqueued => (h.handed .prod)[m.position]? = some m.call ∧ m.position ∈ h.committed .prod
  | .dequeued result => (h.handed .cons)[m.position]? = some m.call ∧
      m.position ∈ h.committed .cons ∧ ∃ data, h.dataAt m.position = some data ∧ result = F.deliver data

def ThreadOk (F : ElementFns Store Data Result) (q : Queue Store) (h : History Data) (m : Mine) :
    Point Data Result → Prop
  | .idle => True
  | .acquire call point => Fresh h m call ∧ AcquireOk h m call.side point
  | .element call entry => InFlight h m call ∧ entry = BitVec.ofNat 32 m.position
  | .commit call got point =>
      InFlight h m call ∧ Transferred F q h m call got ∧ CommitOk q h m call.side point
  | .returned value => ReturnOk F h m value
  | .aborted => False

structure Owned (calls : Nat) (point : ι → Point Data Result) (mine : ι → Mine) : Prop where
  made : ∀ i, point i ≠ .idle → (mine i).call < calls
  distinct : ∀ i j, i ≠ j → point i ≠ .idle → point j ≠ .idle → (mine i).call ≠ (mine j).call

structure Inv (F : ElementFns Store Data Result) (s : State ι Store Data Result) : Prop where
  bound : ∀ side, BoundOk s.queue s.history side
  order : s.history.acquired .cons ≤ s.history.visible .prod
  room : s.history.acquired .prod ≤ s.history.visible .cons + bufferSize
  slots : ∀ p ∈ s.history.committed .prod, s.history.acquired .prod ≤ p + bufferSize →
    ∀ data, s.history.dataAt p = some data → F.Holds s.queue.store (slotOf p) data
  thread : ∀ i, ThreadOk F s.queue s.history (s.mine i) (s.point i)
  owned : Owned s.history.calls.length s.point s.mine

end Virtioso.Ring
