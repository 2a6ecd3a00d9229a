import Mathlib.Algebra.Group.Nat.Defs
import Mathlib.Data.List.Range
import Virtioso.Irq.Gicv2m

/-! The two ways to raise an MSI, compared on every frame that `v2m_init` accepts.

The guest's write tests the range by an unsigned subtraction, `v2m_irq_valid` by an
unsigned addition. They agree as long as the end of the range does not wrap around,
which the test of `v2m_init` does not rule out.
-/

set_option autoImplicit false

namespace Virtioso.Irq

def Gicv2m.Unwrapped (s : Gicv2m) : Prop := s.irqBase.toNat + s.numIrq.toNat < 2 ^ 32

section Init
variable {accepts : Registered → BitVec 32 → Bool} {reserves : BitVec 64 → BitVec 64 → Bool}
variable {s t : Gicv2m} {registered after : Registered} {left i : Nat}

/-- A loop that is not left early registers the lines from `i` on and fills them in. -/
theorem initFrom_complete (complete : v2mInitFrom accepts left i s registered = (t, after, 0)) :
    (∀ k : Fin gicv2mIrqMax, i ≤ k.val → k.val < i + left → (t.irq k).irq = s.number k.val) ∧
      (∀ k : Fin gicv2mIrqMax, k.val < i → t.irq k = s.irq k) ∧
      after = ((List.range' i left).map s.number).reverse ++ registered := by
  induction left generalizing i s registered with
  | zero =>
    cases complete
    exact ⟨fun k low below => absurd below (by omega), fun _ _ => rfl, rfl⟩
  | succ left ih =>
    rw [initFrom_succ] at complete
    by_cases accepted : accepts registered (s.number i) = true
    · rw [if_pos accepted] at complete
      obtain ⟨filled, kept, log⟩ := ih complete
      have number := (sameRange_setLine s i ⟨s.number i, ()⟩).number
      refine ⟨fun k low below => ?_, fun k below => ?_, ?_⟩
      · -- line `i` is filled in now, and later turns only touch lines above it
        by_cases here : k.val = i
        · rw [kept k (by omega), setLine_at _ _ here, here]
        · rw [filled k (by omega) (by omega), number]
      · rw [kept k (by omega), setLine_of_ne _ _ (by omega)]
      · rw [log, number, List.range'_succ, List.map_cons, List.reverse_cons, List.append_assoc]
        rfl
    · rw [if_neg accepted] at complete
      cases complete

structure Accepted (s t : Gicv2m) (registered : Registered) : Prop where
  same : SameRange s t
  few : s.numIrq.toNat ≤ gicv2mIrqMax
  range : (s.irqBase + s.numIrq).toNat ≤ 1020
  line : ∀ k : Fin gicv2mIrqMax, k.val < s.numIrq.toNat → (t.irq k).irq = s.number k.val
  log : registered = ((List.range s.numIrq.toNat).map s.number).reverse

/-- An accepted frame passed both tests, and its loop was not left early. -/
theorem init_complete (complete : v2mInit accepts reserves s registered = (t, after, 0)) :
    ¬s.numIrq > BitVec.ofNat 32 gicv2mIrqMax ∧ ¬s.irqBase + s.numIrq > 1020#32 ∧
      v2mInitFrom accepts s.numIrq.toNat 0 s registered = (t, after, 0) := by
  have few : ¬s.numIrq > BitVec.ofNat 32 gicv2mIrqMax := by
    intro many
    rw [v2mInit, if_pos many] at complete
    cases complete
  have range : ¬s.irqBase + s.numIrq > 1020#32 := by
    intro high
    rw [v2mInit, if_neg few, if_pos high] at complete
    cases complete
  refine ⟨few, range, ?_⟩
  -- both tests passed, what is left is the loop over the lines
  rw [v2mInit_loop few range] at complete
  obtain ⟨loop, same⟩ : ∃ loop, v2mInitFrom accepts s.numIrq.toNat 0 s registered = loop := ⟨_, rfl⟩
  rw [same] at complete ⊢
  by_cases failed : loop.2.2 = 0
  · rw [if_neg (not_not.mpr failed)] at complete
    split at complete
    · cases complete
    · cases complete
      rw [← failed]
  · rw [if_pos failed] at complete
    exact absurd (congrArg (fun result => result.2.2) complete) failed

theorem init_lines (complete : v2mInit accepts reserves s registered = (t, after, 0)) :
    SameRange s t ∧ (∀ k : Fin gicv2mIrqMax, k.val < s.numIrq.toNat → (t.irq k).irq = s.number k.val) ∧
      after = ((List.range' 0 s.numIrq.toNat).map s.number).reverse ++ registered := by
  obtain ⟨-, -, loop⟩ := init_complete complete
  obtain ⟨filled, -, log⟩ := initFrom_complete loop
  have same := initFrom_same accepts s.numIrq.toNat 0 s registered
  rw [loop] at same
  exact ⟨same, fun k below => filled k (Nat.zero_le _) (by omega), log⟩

theorem init_accepted (complete : v2mInit accepts reserves s [] = (t, after, 0)) : Accepted s t after := by
  obtain ⟨few, range, -⟩ := init_complete complete
  obtain ⟨same, line, log⟩ := init_lines complete
  refine ⟨same, ?_, BitVec.le_def.mp (BitVec.not_lt.mp range), line, ?_⟩
  · have small := BitVec.le_def.mp (BitVec.not_lt.mp few)
    rwa [BitVec.toNat_ofNat, Nat.mod_eq_of_lt (by decide)] at small
  · rw [log, List.append_nil, ← List.range_eq_range']

end Init

section Words
variable {s : Gicv2m}

theorem toNat_number (unwrapped : s.Unwrapped) {k : Nat} (below : k < s.numIrq.toNat) :
    (s.number k).toNat = s.irqBase.toNat + k := by
  unfold Gicv2m.Unwrapped at unwrapped
  rw [Gicv2m.number, BitVec.toNat_add, BitVec.toNat_ofNat]
  omega

theorem valid_iff (unwrapped : s.Unwrapped) (irq : BitVec 32) : v2mIrqValid s irq = true ↔
    s.irqBase.toNat ≤ irq.toNat ∧ irq.toNat < s.irqBase.toNat + s.numIrq.toNat := by
  unfold Gicv2m.Unwrapped at unwrapped
  have sum : (s.irqBase + s.numIrq).toNat = s.irqBase.toNat + s.numIrq.toNat := by
    rw [BitVec.toNat_add]
    exact Nat.mod_eq_of_lt unwrapped
  simp [v2mIrqValid, BitVec.le_def, BitVec.lt_def, sum]

/-- The subtraction of the write path is in range only from the base on: a range that
does not wrap leaves no room for a difference that does. -/
theorem distance_lt_iff (unwrapped : s.Unwrapped) (irq : BitVec 32) : irq - s.irqBase < s.numIrq ↔
    s.irqBase.toNat ≤ irq.toNat ∧ irq.toNat < s.irqBase.toNat + s.numIrq.toNat := by
  unfold Gicv2m.Unwrapped at unwrapped
  have word := irq.isLt
  have base := s.irqBase.isLt
  rw [BitVec.lt_def, BitVec.toNat_sub]
  by_cases above : s.irqBase.toNat ≤ irq.toNat
  · have reduce : (2 ^ 32 - s.irqBase.toNat + irq.toNat) % 2 ^ 32 = irq.toNat - s.irqBase.toNat := by omega
    rw [reduce]
    omega
  · -- below the base the difference wraps, to a number past every range that does not
    have reduce : (2 ^ 32 - s.irqBase.toNat + irq.toNat) % 2 ^ 32 =
        2 ^ 32 - s.irqBase.toNat + irq.toNat := by omega
    rw [reduce]
    omega

theorem write_eq_inject (unwrapped : s.Unwrapped) (d : BitVec 32) :
    s.writeIndex d = s.injectIndex (d &&& 0x3ff#32) := by
  have agree : (d &&& 0x3ff#32) - s.irqBase < s.numIrq ↔ v2mIrqValid s (d &&& 0x3ff#32) = true :=
    (distance_lt_iff unwrapped _).trans (valid_iff unwrapped _).symm
  unfold Gicv2m.writeIndex Gicv2m.injectIndex
  by_cases valid : v2mIrqValid s (d &&& 0x3ff#32) = true
  · rw [if_pos valid]
    exact if_pos (agree.mpr valid)
  · rw [if_neg valid]
    exact if_neg fun below => valid (agree.mp below)

theorem injectIndex_lt (unwrapped : s.Unwrapped) {irq i : BitVec 32} (index : s.injectIndex irq = some i) :
    v2mIrqValid s irq = true ∧ i = irq - s.irqBase ∧ i.toNat < s.numIrq.toNat := by
  unfold Gicv2m.injectIndex at index
  split at index
  · next valid =>
    cases index
    have below := (distance_lt_iff unwrapped irq).mpr ((valid_iff unwrapped irq).mp valid)
    exact ⟨valid, rfl, BitVec.lt_def.mp below⟩
  · cases index

end Words

def Gicv2m.LineOf (s : Gicv2m) (irq : BitVec 32) (k : Fin gicv2mIrqMax) : Prop :=
  k.val < s.numIrq.toNat ∧ ∀ j : Fin gicv2mIrqMax, j.val < s.numIrq.toNat → ((s.irq j).irq = irq ↔ j = k)

/-- A write of `d` and `v2m_inject_irq` of its ten bits do the same: they pulse the line
registered for that interrupt if the frame has it, and nothing otherwise. -/
def PathsAgree (s : Gicv2m) (d : BitVec 32) : Prop :=
  ∀ accepts driven paddr len, paddr - s.base = v2mMsiSetspiNs → len = 2#64 ∨ len = 4#64 →
    (v2mIrqValid s (d &&& 0x3ff#32) = true → ∃ k, s.LineOf (d &&& 0x3ff#32) k ∧
      v2mWriteFault accepts s driven paddr len d = some ((irqLinePulse accepts driven (s.irq k)).1,
        (irqLinePulse accepts driven (s.irq k)).2 == 0) ∧
      v2mInjectIrq accepts s driven (d &&& 0x3ff#32) = some (irqLinePulse accepts driven (s.irq k))) ∧
    (v2mIrqValid s (d &&& 0x3ff#32) = false →
      v2mWriteFault accepts s driven paddr len d = some (driven, true) ∧
      v2mInjectIrq accepts s driven (d &&& 0x3ff#32) = some (driven, -1))

/-- No index of either path is past the range or past the array. -/
def IndexesInside (s : Gicv2m) : Prop :=
  ∀ word i, s.writeIndex word = some i ∨ s.injectIndex word = some i →
    i.toNat < s.numIrq.toNat ∧ i.toNat < gicv2mIrqMax

section Agreement
variable {s t : Gicv2m} {registered : Registered}

theorem Accepted.unwrapped (accepted : Accepted s t registered) (unwrapped : s.Unwrapped) : t.Unwrapped := by
  unfold Gicv2m.Unwrapped
  rw [accepted.same.irqBase, accepted.same.numIrq]
  exact unwrapped

theorem Accepted.lineOf (accepted : Accepted s t registered) (unwrapped : s.Unwrapped) {irq : BitVec 32}
    (valid : v2mIrqValid t irq = true) : ∃ inside : (irq - t.irqBase).toNat < gicv2mIrqMax,
      t.LineOf irq ⟨(irq - t.irqBase).toNat, inside⟩ := by
  have flat := accepted.unwrapped unwrapped
  have bounds := (valid_iff flat irq).mp valid
  have below := BitVec.lt_def.mp ((distance_lt_iff flat irq).mpr bounds)
  have distance : (irq - t.irqBase).toNat = irq.toNat - t.irqBase.toNat := by
    rw [BitVec.toNat_sub_of_le]
    exact BitVec.le_def.mpr bounds.1
  have few := accepted.few
  have same := accepted.same
  rw [← same.numIrq] at few
  refine ⟨Nat.lt_of_lt_of_le below few, below, fun j small => ?_⟩
  have number : ((t.irq j).irq).toNat = t.irqBase.toNat + j.val := by
    rw [accepted.line j (by rw [← same.numIrq]; exact small), ← same.number]
    exact toNat_number flat small
  rw [← BitVec.toNat_inj, number, Fin.ext_iff]
  simp only [distance]
  omega

theorem Accepted.agree (accepted : Accepted s t registered) (unwrapped : s.Unwrapped) (d : BitVec 32) :
    PathsAgree t d := by
  intro accepts driven paddr len register size
  have flat := accepted.unwrapped unwrapped
  have sized : ¬(len ≠ 2#64 ∧ len ≠ 4#64) := by
    rcases size with two | four
    · exact fun wrong => wrong.1 two
    · exact fun wrong => wrong.2 four
  unfold v2mWriteFault v2mInjectIrq
  rw [if_neg sized, if_pos register, write_eq_inject flat]
  constructor
  · intro valid
    obtain ⟨inside, line⟩ := accepted.lineOf unwrapped valid
    have index : t.injectIndex (d &&& 0x3ff#32) = some ((d &&& 0x3ff#32) - t.irqBase) := if_pos valid
    simp only [index, lineAt_of_lt t inside, Option.map_some]
    exact ⟨_, line, rfl, rfl⟩
  · intro invalid
    simp [Gicv2m.injectIndex, invalid]

theorem Accepted.inside (accepted : Accepted s t registered) (unwrapped : s.Unwrapped) : IndexesInside t := by
  have flat := accepted.unwrapped unwrapped
  have few := accepted.few
  rw [← accepted.same.numIrq] at few
  rintro word i (written | injected)
  · rw [write_eq_inject flat] at written
    have below := (injectIndex_lt flat written).2.2
    exact ⟨below, Nat.lt_of_lt_of_le below few⟩
  · have below := (injectIndex_lt flat injected).2.2
    exact ⟨below, Nat.lt_of_lt_of_le below few⟩

theorem Accepted.numbers (accepted : Accepted s t registered) :
    (∀ irq ∈ registered, irq.toNat < 1020) ↔ s.Unwrapped := by
  have few := accepted.few
  have range := accepted.range
  rw [accepted.log]
  simp only [List.mem_reverse, List.mem_map, List.mem_range, forall_exists_index, and_imp,
    forall_apply_eq_imp_iff₂]
  constructor
  · intro small
    by_contra wrapped
    unfold Gicv2m.Unwrapped at wrapped
    -- the base alone is past the end of the interrupts, and it is registered
    have word := s.irqBase.isLt
    have first := small 0 (by omega)
    have base : (s.number 0).toNat = s.irqBase.toNat := by simp [Gicv2m.number]
    have size : gicv2mIrqMax = 128 := rfl
    omega
  · intro unwrapped k below
    rw [toNat_number unwrapped below]
    rw [BitVec.toNat_add, Nat.mod_eq_of_lt unwrapped] at range
    omega

end Agreement

/-- On a frame that `v2m_init` accepts, the registered numbers are interrupts, the two
paths agree and no index leaves the array, if and only if the end of the range does not wrap. -/
theorem msi_paths_agree_iff_unwrapped (accepts : Registered → BitVec 32 → Bool)
    (reserves : BitVec 64 → BitVec 64 → Bool) (s t : Gicv2m) (registered : Registered)
    (accepted : v2mInit accepts reserves s [] = (t, registered, 0)) :
    ((∀ irq ∈ registered, irq.toNat < 1020) ∧ (∀ d, PathsAgree t d) ∧ IndexesInside t) ↔ s.Unwrapped := by
  have frame := init_accepted accepted
  constructor
  · rintro ⟨numbers, _, _⟩
    exact frame.numbers.mp numbers
  · intro unwrapped
    exact ⟨frame.numbers.mpr unwrapped, frame.agree unwrapped, frame.inside unwrapped⟩

instance (s : Gicv2m) : Decidable s.Unwrapped := inferInstanceAs (Decidable (_ < _))

/-- A frame as the VM's memory is zeroed, with everything external succeeding. -/
def initialised (irqBase numIrq : BitVec 32) : Gicv2m × Registered × Int :=
  v2mInit (fun _ _ => true) (fun _ _ => true) ⟨0x08021000#64, 0x1000#64, fun _ => ⟨0#32, ()⟩, irqBase, numIrq⟩ []

theorem msi_paths_agree_configured :
    (∀ irq ∈ (initialised 144#32 32#32).2.1, irq.toNat < 1020) ∧ (∀ d, PathsAgree (initialised 144#32 32#32).1 d) ∧
      IndexesInside (initialised 144#32 32#32).1 :=
  (msi_paths_agree_iff_unwrapped _ _ _ _ _ (Prod.ext rfl (Prod.ext rfl (by decide +kernel)))).mpr (by decide)

/-- A base at the top of the word passes the test of `v2m_init`: the base itself is
registered, and a write of 0 pulses a line that `v2m_irq_valid` does not accept. -/
theorem msi_paths_wrapped : (initialised 0xFFFFFFFF#32 2#32).2.2 = 0 ∧
    ¬((∀ irq ∈ (initialised 0xFFFFFFFF#32 2#32).2.1, irq.toNat < 1020) ∨
      ∀ d, PathsAgree (initialised 0xFFFFFFFF#32 2#32).1 d) := by
  refine ⟨by decide +kernel, ?_⟩
  rintro (numbers | agree)
  · exact absurd (numbers 0xFFFFFFFF#32 (by decide +kernel)) (by decide)
  · have silent := (agree 0#32 (fun _ => true) [] 0x08021040#64 4#64 (by decide +kernel) (.inr rfl)).2
      (by decide +kernel)
    have pulsed : v2mWriteFault (fun _ => true) (initialised 0xFFFFFFFF#32 2#32).1 [] 0x08021040#64 4#64 0#32 =
        some ([(0#32, false), (0#32, true)], true) := by decide +kernel
    rw [pulsed] at silent
    simp at silent

end Virtioso.Irq
