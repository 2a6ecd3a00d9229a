import Virtioso.Irq.WiredOr

/-! A shared line and the interrupt controller when injections fail.

The mask is updated before the level is injected, and is not restored when the
injection fails. Later calls decide from the mask alone whether to inject.
-/

set_option autoImplicit false

namespace Virtioso.Irq

open Foundation

/-- The controller agrees with the mask after the call, and an error leaves the mask for a
second try, in which the level is injected again. -/
structure InStep (s : Wired) (call : SourceCall) : Prop where
  level : (s.after call).level = ((s.after call).line.sources != 0#64)
  undone : (s.perform call).code ≠ 0 → (s.after call).line.sources = s.line.sources
  retried : (s.perform call).code ≠ 0 → ((s.after call).perform call).drive ≠ none

/-- The call activates the first source, or switches off the last one. -/
def Edge (line : SharedIrqLine) (source : BitVec 32) (active : Bool) : Prop :=
  line.sources = if active then 0#64 else 1#64 <<< source.toNat

instance (line : SharedIrqLine) (source : BitVec 32) (active : Bool) : Decidable (Edge line source active) :=
  inferInstanceAs (Decidable (_ = _))

def Delivered (s : Wired) (call : SourceCall) : Prop :=
  Edge s.line call.source call.active → call.accepts call.active = true

instance (s : Wired) (call : SourceCall) : Decidable (Delivered s call) := inferInstanceAs (Decidable (_ → _))

/-- The source is one whose bit the mask in `int` reaches alone. -/
def Low (_ : Wired) (call : SourceCall) : Prop := call.source.toNat < 31

instance (s : Wired) (call : SourceCall) : Decidable (Low s call) := Nat.decLt _ _

section Call
variable {s : Wired} {call : SourceCall}

theorem low_sources (low : Low s call) {k : Nat} (inside : k < 64) :
    (s.perform call).line.sources.getLsbD k =
      if k = call.source.toNat then call.active else s.line.sources.getLsbD k := by
  have source : call.source.toNat < 31 := low
  have own : min k 31 = call.source.toNat % 32 ↔ k = call.source.toNat := by omega
  have written := after_sources (s := s) (Nat.lt_trans source (by decide)) inside
  simp only [own] at written
  exact written

theorem low_active (low : Low s call) (active : call.active = true) :
    ((s.perform call).line.sources != 0#64) = true := by
  have source : call.source.toNat < 31 := low
  rw [bne_iff_ne]
  intro zero
  have bit := low_sources low (Nat.lt_trans source (by decide))
  rw [zero, BitVec.getLsbD_zero, if_pos rfl, active] at bit
  cases bit

theorem low_inactive (low : Low s call) (inactive : call.active = false) :
    (s.perform call).line.sources = 0#64 ↔ ∀ k, k < 64 → k ≠ call.source.toNat → s.line.sources.getLsbD k = false := by
  constructor
  · intro zero k inside other
    have bit := low_sources low inside
    rw [zero, BitVec.getLsbD_zero, if_neg other] at bit
    exact bit.symm
  · intro none
    apply sources_eq_zero.mpr
    intro k inside
    rw [low_sources low inside]
    by_cases own : k = call.source.toNat
    · rw [if_pos own, inactive]
    · rw [if_neg own, none k inside own]

theorem one_shiftLeft_getLsbD (source k : Nat) : (1#64 <<< source).getLsbD k = decide (source < 64 ∧ source = k) := by
  have bit := BitVec.getLsbD_twoPow (w := 64) source k
  rw [BitVec.twoPow_eq] at bit
  rw [bit, Bool.decide_and]

theorem single_iff (source : Nat) (inside : source < 64) (sources : BitVec 64) :
    sources = 1#64 <<< source ↔
      sources ≠ 0#64 ∧ ∀ k, k < 64 → k ≠ source → sources.getLsbD k = false := by
  constructor
  · rintro rfl
    constructor
    · intro zero
      have bit := one_shiftLeft_getLsbD source source
      rw [zero, BitVec.getLsbD_zero] at bit
      simp [inside] at bit
    · intro k _ other
      rw [one_shiftLeft_getLsbD]
      exact decide_eq_false fun same => other same.2.symm
  · rintro ⟨some_, others⟩
    apply BitVec.eq_of_getLsbD_eq
    intro k bit
    rw [one_shiftLeft_getLsbD]
    by_cases own : k = source
    -- the own bit is set, or no bit would be
    · subst own
      rw [decide_eq_true ⟨inside, rfl⟩]
      by_contra clear
      apply some_
      apply sources_eq_zero.mpr
      intro j below
      by_cases same : j = k
      · subst same
        exact Bool.eq_false_iff.mpr clear
      · exact others j below same
    · rw [others k bit own]
      exact (decide_eq_false fun same => own same.2.symm).symm

/-- The call injects a level exactly at an edge, and the level is the one it asks for. -/
theorem low_drive (low : Low s call) :
    (s.perform call).drive = if Edge s.line call.source call.active then some call.active else none := by
  have source : call.source.toNat < 31 := low
  have inside : call.source.toNat < 64 := Nat.lt_trans source (by decide)
  rw [perform_drive inside]
  cases active : call.active with
  | true =>
    have edge : Edge s.line call.source true ↔ s.line.sources = 0#64 := Iff.rfl
    rw [low_active low active]
    by_cases zero : s.line.sources = 0#64
    · rw [if_pos (edge.mpr zero), zero]
      rfl
    · rw [if_neg (mt edge.mp zero), bne_iff_ne.mpr zero, if_pos rfl]
  | false =>
    have edge : Edge s.line call.source false ↔ s.line.sources = 1#64 <<< call.source.toNat := Iff.rfl
    -- an edge down means that the mask was nonzero and becomes zero
    rw [single_iff call.source.toNat inside, ← low_inactive low active] at edge
    by_cases zero : s.line.sources = 0#64
    · have none : (s.perform call).line.sources = 0#64 :=
        (low_inactive low active).mpr fun k _ _ => by rw [zero, BitVec.getLsbD_zero]
      rw [if_neg fun last => (edge.mp last).1 zero, zero, none, if_pos rfl]
    · by_cases none : (s.perform call).line.sources = 0#64
      · rw [if_pos (edge.mpr ⟨zero, none⟩), bne_iff_ne.mpr zero, none]
        rfl
      · rw [if_neg fun last => none (edge.mp last).2, bne_iff_ne.mpr zero, bne_iff_ne.mpr none, if_pos rfl]

/-! ### Runs -/

theorem after_line : (s.after call).line = (s.perform call).line := rfl

/-- Away from the edges the controller keeps its level, and the mask its OR. -/
theorem inStep_of_quiet (low : Low s call) (agrees : s.level = (s.line.sources != 0#64))
    (quiet : ¬Edge s.line call.source call.active) : InStep s call := by
  have inside : call.source.toNat < 64 := Nat.lt_trans low (by decide)
  have none : (s.perform call).drive = none := by rw [low_drive low, if_neg quiet]
  have succeeds : ¬(s.perform call).code ≠ 0 := by
    rw [perform_code inside, none]
    simp
  have same : (s.line.sources != 0#64) = ((s.perform call).line.sources != 0#64) := by
    have drive := perform_drive (s := s) inside
    rw [none] at drive
    by_contra differ
    rw [if_neg differ] at drive
    cases drive
  refine ⟨?_, fun failed => absurd failed succeeds, fun failed => absurd failed succeeds⟩
  rw [after_level, none, after_line, ← same]
  exact agrees

theorem edge_level (low : Low s call) (edge : Edge s.line call.source call.active) :
    ((s.perform call).line.sources != 0#64) = call.active ∧ (s.line.sources != 0#64) ≠ call.active := by
  have inside : call.source.toNat < 64 := Nat.lt_trans low (by decide)
  have drive := perform_drive (s := s) inside
  rw [low_drive low, if_pos edge] at drive
  split at drive
  · cases drive
  · next differ =>
    have level := Option.some.inj drive
    exact ⟨level.symm, fun same => differ (same.trans level)⟩

theorem inStep_iff (low : Low s call) (agrees : s.level = (s.line.sources != 0#64)) :
    InStep s call ↔ Delivered s call := by
  have inside : call.source.toNat < 64 := Nat.lt_trans low (by decide)
  by_cases edge : Edge s.line call.source call.active
  · obtain ⟨level, differs⟩ := edge_level low edge
    have drive : (s.perform call).drive = some call.active := by rw [low_drive low, if_pos edge]
    cases accepted : call.accepts call.active with
    | true =>
      have succeeds : ¬(s.perform call).code ≠ 0 := by
        rw [perform_code inside, drive]
        rintro ⟨_, same, refused⟩
        cases same
        rw [accepted] at refused
        cases refused
      refine ⟨fun _ _ => accepted, fun _ => ⟨?_, fun failed => absurd failed succeeds,
        fun failed => absurd failed succeeds⟩⟩
      rw [after_level, drive, Option.filter_some, if_pos accepted, after_line, level]
      rfl
    | false =>
      -- the mask has changed, and the call fails
      have failed : (s.perform call).code ≠ 0 := (perform_code inside).mpr ⟨_, drive, accepted⟩
      constructor
      · intro inStep
        have same := inStep.undone failed
        rw [after_line] at same
        rw [same] at level
        exact absurd level differs
      · intro delivered
        rw [delivered edge] at accepted
        cases accepted
  · exact ⟨fun _ edge' => absurd edge' edge, fun _ => inStep_of_quiet low agrees edge⟩

end Call

/-- Every call of a run of sources below 31 leaves the controller at the level of the mask, and
an error leaves the mask as it was, if and only if no injection fails that a call makes. -/
theorem line_in_step_iff (accepts : Registered → BitVec 32 → Bool) (registered : Registered) (irq : BitVec 32)
    (calls : List SourceCall) (low : Along Wired.after Low (.initial accepts registered irq) calls) :
    Along Wired.after InStep (.initial accepts registered irq) calls ↔
      Along Wired.after Delivered (.initial accepts registered irq) calls :=
  along_iff (I := fun s => s.level = (s.line.sources != 0#64)) (fun _ _ agrees low => inStep_iff low agrees)
    (fun _ _ agrees low delivered => ((inStep_iff low agrees).mpr delivered).level) rfl low

/-- Injections may fail where no call makes one. -/
theorem line_in_step_two_sources : Along Wired.after InStep (.initial refusesSecond [] 64#32)
    [⟨3#32, true, id⟩, ⟨5#32, true, fun _ => false⟩, ⟨3#32, false, id⟩, ⟨5#32, false, not⟩] :=
  (line_in_step_iff refusesSecond [] 64#32 _ (by decide)).mpr (by decide)

/-- The injection of the first edge fails, and the second try does not inject. -/
def silenced : List SourceCall := [⟨3#32, true, fun _ => false⟩, ⟨3#32, true, fun _ => true⟩]

theorem line_out_of_step : ¬∀ calls, Along Wired.after Low (.initial refusesSecond [] 64#32) calls →
    Along Wired.after InStep (.initial refusesSecond [] 64#32) calls := by
  intro always
  obtain ⟨inStep, _⟩ := always silenced (by decide)
  have level := inStep.level
  revert level
  decide

end Virtioso.Irq
