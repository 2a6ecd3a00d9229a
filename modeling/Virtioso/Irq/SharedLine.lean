import Mathlib.Logic.Function.Basic
import Mathlib.Tactic.Common

/-! A level-triggered interrupt line shared by several sources.

The line keeps one bit per source and is high while some bit is set. The mask of a
source is computed in `int` and widened to 64 bits afterwards, so that the mask of
source 31 has all the upper bits set as well.
-/

set_option autoImplicit false

namespace Virtioso.Irq

/-- `shared_irq_line_t`, without the vCPU that all lines share. -/
structure SharedIrqLine where
  irq : BitVec 32
  sources : BitVec 64
  deriving DecidableEq, Repr

/-- `1 << source`, an `int`. The machine takes the shift amount modulo the width. -/
def intShift (source : BitVec 32) : BitVec 32 := 1#32 <<< (source.toNat % 32)

/-- The update of `line->sources`. -/
def changeSources (sources : BitVec 64) (source : BitVec 32) (active : Bool) : BitVec 64 :=
  if active then sources ||| (intShift source).signExtend 64
  else sources &&& (~~~intShift source).signExtend 64

/-- What a call of `shared_irq_line_change` does: the line after it, the level passed
to `vm_set_irq_level` if that is called, and the return code. -/
structure LineChange where
  line : SharedIrqLine
  drive : Option Bool
  code : Int
  deriving DecidableEq, Repr

/-- `shared_irq_line_change`. `accepts` tells for which level `vm_set_irq_level` succeeds. -/
def sharedIrqLineChange (accepts : Bool → Bool) (line : SharedIrqLine) (source : BitVec 32)
    (active : Bool) : LineChange :=
  if source ≥ 64#32 then ⟨line, none, -1⟩
  else
    let sources := changeSources line.sources source active
    if (line.sources != 0#64) = (sources != 0#64) then ⟨{ line with sources }, none, 0⟩
    else ⟨{ line with sources }, some (sources != 0#64), if accepts (sources != 0#64) then 0 else -1⟩

theorem intShift_getLsbD (source : BitVec 32) (k : Nat) :
    (intShift source).getLsbD k = decide (source.toNat % 32 = k) := by
  have below : source.toNat % 32 < 32 := Nat.mod_lt _ (by decide)
  have bit := BitVec.getLsbD_twoPow (w := 32) (source.toNat % 32) k
  rwa [decide_eq_true below, Bool.true_and] at bit

/-- Bit `k` of an `int` widened to 64 bits: from bit 31 on it is the sign. -/
theorem signExtend_getLsbD (x : BitVec 32) {k : Nat} (inside : k < 64) :
    (x.signExtend 64).getLsbD k = x.getLsbD (min k 31) := by
  rw [BitVec.getLsbD_signExtend, decide_eq_true inside, Bool.true_and]
  by_cases low : k < 32
  · rw [if_pos low, Nat.min_eq_left (by omega)]
  · rw [if_neg low, Nat.min_eq_right (by omega), BitVec.msb_eq_getLsbD_last]

theorem sources_eq_zero {sources : BitVec 64} :
    sources = 0#64 ↔ ∀ k, k < 64 → sources.getLsbD k = false := by
  rw [BitVec.zero_iff_eq_false]
  constructor
  · exact fun clear k _ => clear k
  · intro clear k
    by_cases inside : k < 64
    · exact clear k inside
    · exact BitVec.getLsbD_of_ge sources k (Nat.le_of_not_lt inside)

theorem sources_ne_zero {sources : BitVec 64} :
    (sources != 0#64) = true ↔ ∃ k, k < 64 ∧ sources.getLsbD k = true := by
  rw [bne_iff_ne, ne_eq, sources_eq_zero]
  simp

/-- The mask stands for the set of high sources among 0 to 31, with bit 31 copied upwards. -/
def Masks (sources : BitVec 64) (high : Nat → Prop) : Prop :=
  ∀ k, k < 64 → (sources.getLsbD k = true ↔ high (min k 31))

theorem Masks.ne_zero {sources : BitVec 64} {high : Nat → Prop} (masks : Masks sources high) :
    (sources != 0#64) = true ↔ ∃ g, g < 32 ∧ high g := by
  rw [sources_ne_zero]
  constructor
  · rintro ⟨k, inside, set⟩
    exact ⟨min k 31, by omega, (masks k inside).mp set⟩
  · rintro ⟨g, below, set⟩
    refine ⟨g, by omega, (masks g (by omega)).mpr ?_⟩
    rwa [Nat.min_eq_left (by omega)]

variable {sources : BitVec 64} {high : Nat → Prop} {source : BitVec 32}

/-- The bits a call writes: those that the widened mask of its source stands for. -/
theorem changeSources_getLsbD (active : Bool) {k : Nat} (inside : k < 64) :
    (changeSources sources source active).getLsbD k =
      if min k 31 = source.toNat % 32 then active else sources.getLsbD k := by
  have low : min k 31 < 32 := by omega
  unfold changeSources
  cases active with
  | true =>
    rw [if_pos rfl, BitVec.getLsbD_or, signExtend_getLsbD _ inside, intShift_getLsbD]
    by_cases same : min k 31 = source.toNat % 32
    · simp [same]
    · simp [same, Ne.symm same]
  | false =>
    rw [if_neg (by decide), BitVec.getLsbD_and, signExtend_getLsbD _ inside, BitVec.getLsbD_not,
      intShift_getLsbD, decide_eq_true low, Bool.true_and]
    by_cases same : min k 31 = source.toNat % 32
    · simp [same]
    · simp [same, Ne.symm same]

theorem Masks.change (masks : Masks sources high) (below : source.toNat < 32) (active : Bool) :
    Masks (changeSources sources source active)
      fun g => if g = source.toNat then active = true else high g := by
  intro k inside
  rw [changeSources_getLsbD active inside, Nat.mod_eq_of_lt below]
  by_cases same : min k 31 = source.toNat
  · simp only [if_pos same]
  · simp only [if_neg same]
    exact masks k inside

theorem change_of_lt (line : SharedIrqLine) (accepts : Bool → Bool) (active : Bool)
    (below : source.toNat < 64) :
    sharedIrqLineChange accepts line source active =
      let sources := changeSources line.sources source active
      if (line.sources != 0#64) = (sources != 0#64) then ⟨{ line with sources }, none, 0⟩
      else ⟨{ line with sources }, some (sources != 0#64), if accepts (sources != 0#64) then 0 else -1⟩ := by
  refine if_neg fun large => ?_
  have wide := BitVec.le_def.mp large
  simp only [BitVec.toNat_ofNat] at wide
  omega

end Virtioso.Irq
