import Mathlib.Logic.Function.Iterate
import Mathlib.Tactic.Common
import Virtioso.Foundation.Runs

/-! Loops of a deterministic machine: leaving them, and being trapped in them.

A loop is a step function and an exit condition. A loop that is left at all is
here always left within a bound; a trap is a set of states closed under the step
in which the exit condition never holds.
-/

set_option autoImplicit false

namespace Virtioso.Foundation

variable {S : Type} {step : S → S} {exit : S → Prop} {s : S}

/-- At most `bound` steps lead out of the loop. -/
def LeavesWithin (step : S → S) (exit : S → Prop) (bound : Nat) (s : S) : Prop :=
  ∃ n ≤ bound, exit (step^[n] s)

theorem LeavesWithin.now (bound : Nat) (out : exit s) : LeavesWithin step exit bound s :=
  ⟨0, Nat.zero_le _, out⟩

theorem LeavesWithin.mono {m n : Nat} (le : m ≤ n) (leaves : LeavesWithin step exit m s) :
    LeavesWithin step exit n s := by
  obtain ⟨k, below, out⟩ := leaves
  exact ⟨k, Nat.le_trans below le, out⟩

theorem LeavesWithin.of_next {n : Nat} (leaves : LeavesWithin step exit n (step s)) :
    LeavesWithin step exit (n + 1) s := by
  obtain ⟨k, below, out⟩ := leaves
  refine ⟨k + 1, Nat.succ_le_succ below, ?_⟩
  rwa [Function.iterate_succ_apply]

theorem LeavesWithin.next {n : Nat} (inside : ¬exit s) (leaves : LeavesWithin step exit n s) :
    LeavesWithin step exit n (step s) := by
  obtain ⟨k, below, out⟩ := leaves
  cases k with
  | zero => exact absurd out inside
  | succ k =>
    rw [Function.iterate_succ_apply] at out
    exact ⟨k, Nat.le_of_succ_le below, out⟩

theorem iterate_invariant {P : S → Prop} (preserved : ∀ s, P s → P (step s)) (holds : P s) (n : Nat) :
    P (step^[n] s) := by
  induction n generalizing s with
  | zero => exact holds
  | succ n ih =>
    rw [Function.iterate_succ_apply]
    exact ih (preserved _ holds)

theorem not_leaves_of_trap (trap : S → Prop) (preserved : ∀ s, trap s → trap (step s))
    (inside : ∀ s, trap s → ¬exit s) (inTrap : trap s) (n : Nat) : ¬LeavesWithin step exit n s := by
  rintro ⟨k, _, out⟩
  exact inside _ (iterate_invariant preserved inTrap k) out

/-- Leaving a loop is decided by the part of the state that the loop works on. -/
theorem leaves_project {T : Type} {inner : T → T} {out : T → Prop} (proj : S → T)
    (commutes : ∀ s, proj (step s) = inner (proj s)) (n : Nat) :
    LeavesWithin step (fun s => out (proj s)) n s ↔ LeavesWithin inner out n (proj s) := by
  have iterates : ∀ k, proj (step^[k] s) = inner^[k] (proj s) := by
    intro k
    induction k generalizing s with
    | zero => rfl
    | succ k ih => rw [Function.iterate_succ_apply, Function.iterate_succ_apply, ih, commutes]
  unfold LeavesWithin
  simp only [iterates]

theorem LeavesWithin.reach {A : Type} {machine : S → A → Option S} {allowed : S → A → Prop} {region : S → Prop}
    (enabled : ∀ s, region s → ¬exit s → ∃ a, allowed s a ∧ machine s a = some (step s))
    (preserved : ∀ s, region s → ¬exit s → region (step s)) {n : Nat} (leaves : LeavesWithin step exit n s)
    (inside : region s) : ∃ t, Reach machine allowed s t ∧ region t ∧ exit t := by
  obtain ⟨k, -, later⟩ := leaves
  induction k generalizing s with
  | zero => exact ⟨s, .start, inside, later⟩
  | succ k ih =>
    by_cases out : exit s
    · exact ⟨s, .start, inside, out⟩
    · obtain ⟨a, admitted, edge⟩ := enabled s inside out
      rw [Function.iterate_succ_apply] at later
      obtain ⟨t, run, kept, left⟩ := ih (preserved s inside out) later
      exact ⟨t, .trans (.next .start admitted edge) run, kept, left⟩

end Virtioso.Foundation
