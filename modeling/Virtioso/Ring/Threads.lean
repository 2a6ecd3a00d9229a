import Mathlib.Algebra.Group.Nat.Defs
import Mathlib.Data.Finset.Insert
import Mathlib.Data.Finset.Card
import Virtioso.Foundation.Runs
import Virtioso.Ring.Machine

/-! Any number of threads on one queue, interleaved access by access.

The machine state is the queue and the control point of every thread. Beside it
runs a history that no step consults: the calls made so far, the call each
position was handed to, the positions committed, and for every thread the number
of updates its marker snapshot had seen. Positions of the history are unbounded;
the code only ever stores them modulo `2 ^ 32`.
-/

set_option autoImplicit false

namespace Virtioso.Ring

/-- What has happened on the queue. A call is named by its index in `calls`. -/
structure History (Data : Type) where
  calls : List (Call Data)
  /-- the call that was handed position `p`, at index `p` -/
  handed : Side → List Nat
  /-- positions whose call has committed -/
  committed : Side → Finset Nat
  /-- the head position without the wrap: it moves by the word distance of each update -/
  visible : Side → Nat

/-- History of one thread: its current call, the number of updates of the marker
it last loaded at that load, and the position it was handed. -/
structure Mine where
  call : Nat
  seen : Nat
  position : Nat
  deriving DecidableEq, Repr

structure State (ι Store Data Result : Type) where
  queue : Queue Store
  point : ι → Point Data Result
  history : History Data
  mine : ι → Mine

inductive Action (ι Data : Type) where
  | invoke (i : ι) (call : Call Data)
  | access (i : ι)

variable {ι Store Data Result : Type} [DecidableEq ι]

/-- Number of updates of the tail of a bound, hence the next position to hand out. -/
def History.acquired (h : History Data) (side : Side) : Nat := (h.handed side).length

def History.commits (h : History Data) (side : Side) : Nat := (h.committed side).card

def History.dataAt (h : History Data) (p : Nat) : Option Data :=
  match (h.handed .prod)[p]?.bind (h.calls[·]?) with
  | some (.enqueue data) => some data
  | _ => none

def History.empty : History Data := ⟨[], fun _ => [], fun _ => ∅, fun _ => 0⟩

def History.invoke (h : History Data) (call : Call Data) : History Data :=
  { h with calls := h.calls ++ [call] }

def History.hand (h : History Data) (side : Side) (call : Nat) : History Data :=
  { h with handed := Function.update h.handed side (h.handed side ++ [call]) }

def History.commit (h : History Data) (side : Side) (position : Nat) (distance : BitVec 32) :
    History Data :=
  { h with
    committed := Function.update h.committed side (insert position (h.committed side))
    visible := Function.update h.visible side (h.visible side + distance.toNat) }

def State.initial (zeroed : Store) : State ι Store Data Result :=
  ⟨rpcmsgQueueInit zeroed, fun _ => .idle, .empty, fun _ => ⟨0, 0, 0⟩⟩

/-- A failed compare-and-swap is a fresh load for the builtin only. -/
def CasVariant.reload (v : CasVariant) (m : Mine) (updates : Nat) : Mine :=
  match v with
  | .user => { m with seen := updates }
  | .kernel => m

/-- What the history records of the next access of thread `i`. -/
def State.record (v : CasVariant) (s : State ι Store Data Result) (i : ι) : History Data × Mine :=
  let h := s.history
  let m := s.mine i
  match s.point i with
  | .acquire call .load => (h, { m with seen := h.acquired call.side })
  | .acquire call (.cas ot) =>
      if (s.queue.bound call.side).tail = ot then
        (h.hand call.side m.call, { m with position := h.acquired call.side })
      else (h, v.reload m (h.acquired call.side))
  | .commit call _ .loadHead => (h, { m with seen := h.commits call.side })
  | .commit call _ (.cas oh nh) =>
      if (s.queue.bound call.side).head = oh then
        (h.commit call.side m.position (nh.pos - oh.pos), m)
      else (h, v.reload m (h.commits call.side))
  | _ => (h, m)

/-- The next access of thread `i`. Queue and control point do not look at the history. -/
def State.access (v : CasVariant) (F : ElementFns Store Data Result)
    (s : State ι Store Data Result) (i : ι) : State ι Store Data Result :=
  ⟨(advance v F s.queue (s.point i)).1,
    Function.update s.point i (advance v F s.queue (s.point i)).2,
    (s.record v i).1, Function.update s.mine i (s.record v i).2⟩

def State.invoke (s : State ι Store Data Result) (i : ι) (call : Call Data) :
    State ι Store Data Result :=
  { s with
    point := Function.update s.point i (.acquire call .load)
    history := s.history.invoke call
    mine := Function.update s.mine i { s.mine i with call := s.history.calls.length } }

def Point.ready : Point Data Result → Bool
  | .idle | .returned _ => true
  | .acquire _ _ | .element _ _ | .commit _ _ _ | .aborted => false

def step (v : CasVariant) (F : ElementFns Store Data Result) (s : State ι Store Data Result) :
    Action ι Data → Option (State ι Store Data Result)
  | .invoke i call => if (s.point i).ready then some (s.invoke i call) else none
  | .access i => if (s.point i).running then some (s.access v F i) else none

/-- Tail updates since the load that a pending compare-and-swap relies on. -/
def window (h : History Data) (m : Mine) : Point Data Result → Nat
  | .acquire call (.cas _) => h.acquired call.side - m.seen
  | _ => 0

/-- The compare-and-swap of an acquire comes within `2 ^ 32` tail updates of its
load. Nothing is asked of the window of a commit. -/
def Windowed (s : State ι Store Data Result) : Action ι Data → Prop
  | .invoke _ _ => True
  | .access i => window s.history (s.mine i) (s.point i) < 2 ^ 32

instance (s : State ι Store Data Result) : (a : Action ι Data) → Decidable (Windowed s a)
  | .invoke _ _ => .isTrue trivial
  | .access _ => Nat.decLt _ _

/-- States of all runs on a zero-initialised queue without a wrapped window. -/
abbrev Reachable (v : CasVariant) (F : ElementFns Store Data Result) (zeroed : Store) :
    State ι Store Data Result → Prop :=
  Foundation.Reach (step v F) Windowed (.initial zeroed)

end Virtioso.Ring
