import Mathlib.Tactic.Common

/-! Sequences of complete operations, and refinement of their specification.

An implementation is a partial function from a state and an operation to the next
state and what the operation returns; `none` is an operation that does not return.
A specification is total. Simulation of every single operation gives the same
returns for every sequence.
-/

set_option autoImplicit false

namespace Virtioso.Foundation

variable {C A Op Out : Type}

def runCalls (step : C → Op → Option (C × Out)) : C → List Op → Option (C × List Out)
  | c, [] => some (c, [])
  | c, op :: rest => (step c op).bind fun (d, out) =>
      (runCalls step d rest).map fun (e, outs) => (e, out :: outs)

def runSpec (spec : A → Op → A × Out) : A → List Op → A × List Out
  | a, [] => (a, [])
  | a, op :: rest =>
      let (b, out) := spec a op
      let (c, outs) := runSpec spec b rest
      (c, out :: outs)

/-- Every operation returns what the specification says and keeps the relation. -/
def Simulates (step : C → Op → Option (C × Out)) (spec : A → Op → A × Out) (R : C → A → Prop) : Prop :=
  ∀ c a op, R c a → ∃ d, step c op = some (d, (spec a op).2) ∧ R d (spec a op).1

theorem Simulates.run {step : C → Op → Option (C × Out)} {spec : A → Op → A × Out} {R : C → A → Prop}
    (simulates : Simulates step spec R) {c : C} {a : A} (related : R c a) (ops : List Op) :
    ∃ d, runCalls step c ops = some (d, (runSpec spec a ops).2) ∧ R d (runSpec spec a ops).1 := by
  induction ops generalizing c a with
  | nil => exact ⟨c, rfl, related⟩
  | cons op rest ih =>
    obtain ⟨d, returns, keeps⟩ := simulates c a op related
    obtain ⟨e, tail, final⟩ := ih keeps
    refine ⟨e, ?_, final⟩
    simp only [runCalls, returns, Option.bind_some, tail, Option.map_some, runSpec]

end Virtioso.Foundation
