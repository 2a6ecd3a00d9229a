import Mathlib.Logic.Function.Basic
import Virtioso.Foundation.Runs

/-! Machines with visible and silent steps, forward simulation, and atomic objects.

What an observer sees of a run are its visible steps. A simulation matches every step of
one machine by a run of another that shows the same, so that whatever the first shows
the second shows as well. An atomic object is the specification of a shared data structure:
every call takes effect in one silent step between the call and its return.
-/

set_option autoImplicit false

namespace Virtioso.Foundation

/-- Steps from state to state with the events they show; a silent step shows none. -/
abbrev Machine (S E : Type) := S → List E → S → Prop

variable {S T E : Type}

/-- A run from `s` to `t` that shows the events `seen`. -/
inductive Shows (M : Machine S E) (s : S) : List E → S → Prop where
  | start : Shows M s [] s
  | next {seen label : List E} {t u : S} : Shows M s seen t → M t label u → Shows M s (seen ++ label) u

variable {M : Machine S E} {s t u : S} {seen later : List E}

theorem Shows.trans (first : Shows M s seen t) (rest : Shows M t later u) : Shows M s (seen ++ later) u := by
  induction rest with
  | start => rwa [List.append_nil]
  | next _ edge ih =>
    rw [← List.append_assoc]
    exact .next ih edge

theorem Shows.step {label : List E} (edge : M s label t) : Shows M s label t := .next .start edge

/-- Every step of `C` is matched by a run of `A` that shows the same. -/
def ForwardSimulation (C : Machine S E) (A : Machine T E) (R : S → T → Prop) : Prop :=
  ∀ s a label t, R s a → C s label t → ∃ b, Shows A a label b ∧ R t b

theorem ForwardSimulation.shows {C : Machine S E} {A : Machine T E} {R : S → T → Prop}
    (simulation : ForwardSimulation C A R) {a : T} (related : R s a) (run : Shows C s seen t) :
    ∃ b, Shows A a seen b ∧ R t b := by
  induction run with
  | start => exact ⟨a, .start, related⟩
  | next _ edge ih =>
    obtain ⟨b, shown, here⟩ := ih
    obtain ⟨c, more, after⟩ := simulation _ _ _ _ here edge
    exact ⟨c, shown.trans more, after⟩

section Actions
variable {Act : Type}

/-- The machine of a step function; `events` says what an action shows, in the states around it. -/
def ofSteps (step : S → Act → Option S) (allowed : S → Act → Prop) (events : S → Act → S → List E) : Machine S E :=
  fun s label t => ∃ a, allowed s a ∧ step s a = some t ∧ label = events s a t

def shownBy (step : S → Act → Option S) (events : S → Act → S → List E) : S → List Act → List E
  | _, [] => []
  | s, a :: rest =>
      match step s a with
      | some t => events s a t ++ shownBy step events t rest
      | none => []

theorem Shows.of_execute {step : S → Act → Option S} {allowed : S → Act → Prop} [∀ s a, Decidable (allowed s a)]
    (events : S → Act → S → List E) {actions : List Act}
    (executed : execute (guarded step allowed) s actions = some t) :
    Shows (ofSteps step allowed events) s (shownBy (guarded step allowed) events s actions) t := by
  induction actions generalizing s with
  | nil =>
    cases executed
    exact .start
  | cons a rest ih =>
    obtain ⟨next, edge, tail⟩ := Option.bind_eq_some_iff.mp executed
    rw [shownBy, edge]
    obtain ⟨admitted, edge⟩ := Option.ite_none_right_eq_some.mp edge
    exact (Shows.step ⟨a, admitted, edge, rfl⟩).trans (ih tail)

end Actions

/-! ### Atomic objects -/

variable {ι Op Out A : Type} [DecidableEq ι]

inductive CallEvent (ι Op Out : Type) where
  | call (i : ι) (op : Op)
  | ret (i : ι) (out : Out)
  deriving DecidableEq, Repr

/-- Where a thread stands: without a call, or in a call that has not taken effect, or has. -/
inductive CallPhase (Op Out : Type) where
  | ready
  | called (op : Op)
  | done (out : Out)
  deriving DecidableEq, Repr

structure AtomicObject (ι Op Out A : Type) where
  contents : A
  phase : ι → CallPhase Op Out

/-- The steps of an atomic object; what a call may do can depend on how far the others are. -/
inductive AtomicStep (effect : (ι → CallPhase Op Out) → A → Op → Out → A → Prop) :
    Machine (AtomicObject ι Op Out A) (CallEvent ι Op Out) where
  | call {s : AtomicObject ι Op Out A} {i : ι} {op : Op} : s.phase i = .ready →
      AtomicStep effect s [.call i op] ⟨s.contents, Function.update s.phase i (.called op)⟩
  | effect {s : AtomicObject ι Op Out A} {i : ι} {op : Op} {out : Out} {next : A} : s.phase i = .called op →
      effect s.phase s.contents op out next →
      AtomicStep effect s [] ⟨next, Function.update s.phase i (.done out)⟩
  | ret {s : AtomicObject ι Op Out A} {i : ι} {out : Out} : s.phase i = .done out →
      AtomicStep effect s [.ret i out] ⟨s.contents, Function.update s.phase i .ready⟩

end Virtioso.Foundation
