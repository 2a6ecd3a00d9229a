import Virtioso.Foundation.Runs
import Virtioso.Irq.Line
import Virtioso.Irq.SharedLine

/-! The wired-OR of the sources of one line, and the interrupt controller.

The specification keeps the level each of 64 sources asked for last. The mask follows
it for sources below 31; from 31 on the shift in `int` hits other bits than its own.
The level of the controller follows the mask as long as every injection succeeds.
-/

set_option autoImplicit false

namespace Virtioso.Irq

open Foundation

/-- `shared_irq_line_init`: the line is filled in before it is registered. -/
def sharedIrqLineInit (accepts : Registered → BitVec 32 → Bool) (registered : Registered) (irq : BitVec 32) :
    SharedIrqLine × Registered × Int :=
  let (registered, err) := vmRegisterIrq accepts registered irq
  (⟨irq, 0#64⟩, registered, if err ≠ 0 then -1 else 0)

/-- A call of `shared_irq_line_change`, and for which level `vm_set_irq_level` succeeds in it. -/
structure SourceCall where
  source : BitVec 32
  active : Bool
  accepts : Bool → Bool

/-- A line, the level the interrupt controller has for it, and the level that each
source asked for last. -/
structure Wired where
  line : SharedIrqLine
  level : Bool
  asked : Nat → Bool

/-- After `shared_irq_line_init`. -/
def Wired.initial (accepts : Registered → BitVec 32 → Bool) (registered : Registered) (irq : BitVec 32) : Wired :=
  ⟨(sharedIrqLineInit accepts registered irq).1, false, fun _ => false⟩

def Wired.perform (s : Wired) (call : SourceCall) : LineChange :=
  sharedIrqLineChange call.accepts s.line call.source call.active

/-- A failed injection leaves the level of the controller as it was. -/
def Wired.after (s : Wired) (call : SourceCall) : Wired where
  line := (s.perform call).line
  level := ((s.perform call).drive.filter call.accepts).getD s.level
  asked := Function.update s.asked call.source.toNat call.active

def wiredOr (asked : Nat → Bool) : Bool := (List.range 64).any asked

/-- The mask has the bit of each source at the level the source asked for. -/
def Stands (sources : BitVec 64) (asked : Nat → Bool) : Prop := ∀ k, k < 64 → sources.getLsbD k = asked k

theorem Stands.ne_zero {sources : BitVec 64} {asked : Nat → Bool} (stands : Stands sources asked) :
    (sources != 0#64) = wiredOr asked := by
  rw [Bool.eq_iff_iff, sources_ne_zero, wiredOr, List.any_eq_true]
  refine exists_congr fun k => ?_
  rw [List.mem_range]
  refine and_congr_right fun inside => ?_
  rw [stands k inside]

section Call
variable {s : Wired} {call : SourceCall}

theorem perform_beyond (beyond : 64 ≤ call.source.toNat) : s.perform call = ⟨s.line, none, -1⟩ := by
  have large : call.source ≥ 64#32 := BitVec.le_def.mpr beyond
  rw [Wired.perform, sharedIrqLineChange, if_pos large]

theorem perform_sources (inside : call.source.toNat < 64) :
    (s.perform call).line = { s.line with sources := changeSources s.line.sources call.source call.active } := by
  rw [Wired.perform, change_of_lt _ _ _ inside]
  dsimp only
  split
  · rfl
  · rfl

theorem perform_drive (inside : call.source.toNat < 64) :
    (s.perform call).drive =
      if (s.line.sources != 0#64) = ((s.perform call).line.sources != 0#64) then none
      else some ((s.perform call).line.sources != 0#64) := by
  rw [perform_sources inside, Wired.perform, change_of_lt _ _ _ inside]
  dsimp only
  split
  · rfl
  · rfl

theorem perform_code (inside : call.source.toNat < 64) :
    (s.perform call).code ≠ 0 ↔ ∃ level, (s.perform call).drive = some level ∧ call.accepts level = false := by
  rw [Wired.perform, change_of_lt _ _ _ inside]
  dsimp only
  split
  · simp
  · simp only [Option.some.injEq, exists_eq_left']
    cases call.accepts (changeSources s.line.sources call.source call.active != 0#64) <;> decide

end Call

/-! ### The level of each source -/

structure FollowsSources (s : Wired) (call : SourceCall) : Prop where
  bits : Stands (s.after call).line.sources (s.after call).asked
  refused : 64 ≤ call.source.toNat → (s.after call).line = s.line ∧ (s.perform call).code ≠ 0
  driven : (s.perform call).drive =
    if wiredOr s.asked = wiredOr (s.after call).asked then none else some (wiredOr (s.after call).asked)
  level : (s.after call).level = wiredOr (s.after call).asked

def Injects (_ : Wired) (call : SourceCall) : Prop := ∀ level, call.accepts level = true

instance (s : Wired) (call : SourceCall) : Decidable (Injects s call) :=
  inferInstanceAs (Decidable (∀ _ : Bool, _))

/-- The call does not use the wrong bits: its source is below 31 or refused, or it is switched
off and the source whose bit is cleared instead is off as well. -/
def OwnBit (s : Wired) (call : SourceCall) : Prop :=
  call.source.toNat < 31 ∨ 64 ≤ call.source.toNat ∨
    (call.active = false ∧ s.asked (call.source.toNat % 32) = false)

instance (s : Wired) (call : SourceCall) : Decidable (OwnBit s call) := inferInstanceAs (Decidable (_ ∨ _))

structure Matches (s : Wired) : Prop where
  bits : Stands s.line.sources s.asked
  level : s.level = wiredOr s.asked
  upper : ∀ k, 31 ≤ k → k < 64 → s.asked k = false

section Sources
variable {s : Wired} {call : SourceCall}

theorem after_asked (k : Nat) :
    (s.after call).asked k = if k = call.source.toNat then call.active else s.asked k :=
  Function.update_apply ..

theorem after_level : (s.after call).level = ((s.perform call).drive.filter call.accepts).getD s.level := rfl

theorem after_sources (inside : call.source.toNat < 64) {k : Nat} (bit : k < 64) :
    (s.after call).line.sources.getLsbD k =
      if min k 31 = call.source.toNat % 32 then call.active else s.line.sources.getLsbD k := by
  have line : (s.after call).line = (s.perform call).line := rfl
  rw [line, perform_sources inside, changeSources_getLsbD call.active bit]

theorem wiredOr_beyond (beyond : 64 ≤ call.source.toNat) : wiredOr (s.after call).asked = wiredOr s.asked := by
  have same : ∀ k, k < 64 → (s.after call).asked k = s.asked k := by
    intro k inside
    rw [after_asked, if_neg (by omega)]
  rw [wiredOr, wiredOr, Bool.eq_iff_iff, List.any_eq_true, List.any_eq_true]
  refine exists_congr fun k => and_congr_right fun inside => ?_
  rw [same k (List.mem_range.mp inside)]

theorem Matches.beyond (fits : Matches s) (beyond : 64 ≤ call.source.toNat) : FollowsSources s call := by
  have performed := perform_beyond (s := s) beyond
  have same := wiredOr_beyond (s := s) beyond
  have line : (s.after call).line = s.line := congrArg LineChange.line performed
  refine ⟨fun k inside => ?_, fun _ => ⟨line, ?_⟩, ?_, ?_⟩
  · rw [line, fits.bits k inside, after_asked, if_neg (by omega)]
  · rw [performed]
    exact Int.neg_ne_zero.mpr Int.one_ne_zero
  · rw [performed, same, if_pos rfl]
  · rw [after_level, performed, same, ← fits.level]
    rfl

/-- When the bits follow the sources, so does what is driven. -/
theorem Matches.follows (fits : Matches s) (injects : Injects s call) (inside : call.source.toNat < 64)
    (bits : Stands (s.after call).line.sources (s.after call).asked) : FollowsSources s call := by
  have before := fits.bits.ne_zero
  have after : ((s.perform call).line.sources != 0#64) = wiredOr (s.after call).asked := bits.ne_zero
  have driven := perform_drive (s := s) inside
  rw [before, after] at driven
  refine ⟨bits, fun beyond => absurd inside (Nat.not_lt_of_le beyond), driven, ?_⟩
  rw [after_level, driven]
  by_cases same : wiredOr s.asked = wiredOr (s.after call).asked
  · rw [if_pos same, ← same]
    exact fits.level
  · rw [if_neg same, Option.filter_some, if_pos (injects _)]
    rfl

theorem Matches.own_bits (fits : Matches s) (own : OwnBit s call) (inside : call.source.toNat < 64) :
    Stands (s.after call).line.sources (s.after call).asked := by
  intro k bit
  rw [after_sources inside bit, after_asked, fits.bits k bit]
  rcases own with low | beyond | ⟨off, other⟩
  · have slot : min k 31 = call.source.toNat % 32 ↔ k = call.source.toNat := by omega
    simp only [slot]
  · omega
  · -- the call clears bits that are clear already
    have upper := fits.upper
    rw [off]
    have here : k = call.source.toNat → s.asked k = false := by
      intro same
      by_cases low : call.source.toNat < 31
      · rw [same, ← Nat.mod_eq_of_lt (show call.source.toNat < 32 by omega)]
        exact other
      · exact upper k (by omega) bit
    have cleared : min k 31 = call.source.toNat % 32 → s.asked k = false := by
      intro hit
      by_cases low : k < 31
      · rw [← Nat.min_eq_left (Nat.le_of_lt low), hit]
        exact other
      · exact upper k (by omega) bit
    by_cases same : k = call.source.toNat
    · rw [if_pos same, here same, ite_self]
    · rw [if_neg same]
      by_cases hit : min k 31 = call.source.toNat % 32
      · rw [if_pos hit, cleared hit]
      · rw [if_neg hit]

/-- Switching a source from 31 on on sets the bits of other sources or not its own. -/
theorem Matches.own_of_follows (fits : Matches s) (follows : FollowsSources s call) : OwnBit s call := by
  by_contra wrong
  simp only [OwnBit, not_or, not_and, Nat.not_lt, Nat.not_le] at wrong
  obtain ⟨low, high, wrong⟩ := wrong
  have bits : ∀ k, k < 64 → (if min k 31 = call.source.toNat % 32 then call.active else s.asked k) =
      if k = call.source.toNat then call.active else s.asked k := by
    intro k inside
    rw [← after_asked, ← follows.bits k inside, after_sources high inside, fits.bits k inside]
  cases active : call.active with
  | false =>
    have other := bits (call.source.toNat % 32) (by omega)
    rw [if_pos (by omega), active] at other
    by_cases same : call.source.toNat % 32 = call.source.toNat
    · exact wrong active (by rw [same]; exact fits.upper _ low high)
    · rw [if_neg same] at other
      exact wrong active other.symm
  | true =>
    rw [active] at bits
    by_cases first : call.source.toNat = 31
    -- sources 31 and 63 set the bits of all sources above 30, the others the bit of one below 31
    · have next := bits 32 (by decide)
      rw [if_pos (by omega), if_neg (by omega), fits.upper 32 (by decide) (by decide)] at next
      cases next
    · by_cases last : call.source.toNat = 63
      · have before := bits 62 (by decide)
        rw [if_pos (by omega), if_neg (by omega), fits.upper 62 (by decide) (by decide)] at before
        cases before
      · have own := bits call.source.toNat high
        rw [if_neg (by omega), if_pos rfl, fits.upper _ low high] at own
        cases own

theorem Matches.follows_iff (fits : Matches s) (injects : Injects s call) : FollowsSources s call ↔ OwnBit s call := by
  refine ⟨fits.own_of_follows, fun own => ?_⟩
  by_cases inside : call.source.toNat < 64
  · exact fits.follows injects inside (fits.own_bits own inside)
  · exact fits.beyond (Nat.le_of_not_lt inside)

theorem Matches.after (fits : Matches s) (injects : Injects s call) (own : OwnBit s call) : Matches (s.after call) := by
  have follows := (fits.follows_iff injects).mpr own
  refine ⟨follows.bits, follows.level, fun k upper inside => ?_⟩
  rw [after_asked]
  by_cases same : k = call.source.toNat
  · rw [if_pos same]
    rcases own with low | beyond | ⟨off, _⟩
    · omega
    · omega
    · exact off
  · rw [if_neg same]
    exact fits.upper k upper inside

theorem matches_initial (accepts : Registered → BitVec 32 → Bool) (registered : Registered) (irq : BitVec 32) :
    Matches (.initial accepts registered irq) where
  bits k _ := BitVec.getLsbD_zero
  level := by
    rw [wiredOr]
    simp [Wired.initial]
  upper _ _ _ := rfl

end Sources

/-- Every call of a run keeps the wired-OR of 64 sources if and only if no call uses the bit of
another source: none activates a source from 31 on, and none switches one off while the
source with the same number modulo 32 is active. -/
theorem wired_or_iff (accepts : Registered → BitVec 32 → Bool) (registered : Registered) (irq : BitVec 32)
    (calls : List SourceCall) (injects : Along Wired.after Injects (.initial accepts registered irq) calls) :
    Along Wired.after FollowsSources (.initial accepts registered irq) calls ↔
      Along Wired.after OwnBit (.initial accepts registered irq) calls :=
  along_iff (I := Matches) (fun _ _ fits injects => fits.follows_iff injects)
    (fun _ _ fits injects own => fits.after injects own)
    (matches_initial accepts registered irq) injects

/-- Two sources come and go, and one that is refused. -/
def twoSources : List SourceCall :=
  [⟨3#32, true, fun _ => true⟩, ⟨30#32, true, fun _ => true⟩, ⟨3#32, false, fun _ => true⟩,
    ⟨64#32, true, fun _ => true⟩, ⟨30#32, false, fun _ => true⟩]

theorem wired_or_two_sources : Along Wired.after FollowsSources (.initial refusesSecond [] 64#32) twoSources :=
  (wired_or_iff refusesSecond [] 64#32 twoSources (by decide)).mpr (by decide)

/-- Source 32 is switched off while source 0 is active. -/
def crossing : List SourceCall :=
  [⟨0#32, true, fun _ => true⟩, ⟨32#32, false, fun _ => true⟩]

/-- The second call clears the bit of source 0 and drives the line low. -/
theorem wired_or_fails : ¬∀ calls, Along Wired.after Injects (.initial refusesSecond [] 64#32) calls →
    Along Wired.after FollowsSources (.initial refusesSecond [] 64#32) calls := by
  intro always
  obtain ⟨_, follows, _⟩ := always crossing (by decide)
  have bit := follows.bits 0 (by decide)
  revert bit
  decide

end Virtioso.Irq
