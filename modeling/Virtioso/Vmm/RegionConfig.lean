import Virtioso.Vmm.EmulatedDevice

/-! The flags of a region message.

Flags of 64 bits are tested against the complement of a 32-bit constant, so the test
does not see the upper half. A message whose upper half only is unknown is taken for an
assignment or a release.
-/

set_option autoImplicit false

namespace Virtioso.Vmm

open Irq

variable {Proxy Handle : Type} [DecidableEq Proxy] [DecidableEq Handle]

/-! ### The calls a message makes -/

/-- `emudev_mmio_config` with its calls of `mmio_res_assign` and `mmio_res_free`. -/
def traceMmioConfig (ext : VmmExternal Handle) (s : MmioState Proxy Handle) (ioProxy : Proxy)
    (addr size flags : BitVec 64) : (MmioState Proxy Handle × Int) × List (MmioCall Proxy Handle) :=
  let region : Region Proxy := ⟨addr, size, ioProxy⟩
  if flags &&& (~~~sel4MmioRegionFree).setWidth 64 ≠ 0#64 then ((s, -1), [])
  else if flags &&& sel4MmioRegionFree.setWidth 64 ≠ 0#64 then
    (s.perform (.free ext.mmio region), [.free ext.mmio region])
  else (s.perform (.assign ext.mmio region), [.assign ext.mmio region])

/-- `handle_emudev` with the same calls. -/
def traceEmudev (ext : VmmExternal Handle) (s : EmuDev Proxy Handle) (registered : Registered)
    (ioProxy : Proxy) (op : BitVec 32) (msg : Ring.Msg) :
    (EmuDev Proxy Handle × Registered × Rc) × List (MmioCall Proxy Handle) :=
  if op = qemuOpMmioRegionConfig then
    let ((mmio, err), calls) := traceMmioConfig ext s.mmio ioProxy msg.mr1 msg.mr2 msg.mr3
    (({ s with mmio }, registered, if err ≠ 0 then .error else .handled), calls)
  else (handleEmudev ext s registered ioProxy op msg, [])

theorem traceMmioConfig_erase (ext : VmmExternal Handle) (s : MmioState Proxy Handle) (ioProxy : Proxy)
    (addr size flags : BitVec 64) :
    (traceMmioConfig ext s ioProxy addr size flags).1 = emudevMmioConfig ext s ioProxy addr size flags := by
  unfold traceMmioConfig emudevMmioConfig
  split
  · rfl
  · split <;> rfl

theorem traceEmudev_erase (ext : VmmExternal Handle) (s : EmuDev Proxy Handle) (registered : Registered)
    (ioProxy : Proxy) (op : BitVec 32) (msg : Ring.Msg) :
    (traceEmudev ext s registered ioProxy op msg).1 = handleEmudev ext s registered ioProxy op msg := by
  unfold traceEmudev
  split
  · next config =>
    rw [handleEmudev, if_pos config, ← traceMmioConfig_erase]
  · rfl

structure ObeysFlags (s : EmuDev Proxy Handle) (registered : Registered) (ioProxy : Proxy) (msg : Ring.Msg)
    (result : (EmuDev Proxy Handle × Registered × Rc) × List (MmioCall Proxy Handle)) : Prop where
  assigns : ∀ ext region, .assign ext region ∈ result.2 →
    msg.mr3 = 0#64 ∧ region = ⟨msg.mr1, msg.mr2, ioProxy⟩
  frees : ∀ ext region, .free ext region ∈ result.2 →
    msg.mr3 = sel4MmioRegionFree.setWidth 64 ∧ region = ⟨msg.mr1, msg.mr2, ioProxy⟩
  unknown : msg.mr3 ≠ 0#64 → msg.mr3 ≠ sel4MmioRegionFree.setWidth 64 → result.1 = (s, registered, .error)

/-- The upper half is zero, or the lower half has a bit besides the lowest. -/
def SeenUnknown (flags : BitVec 64) : Prop := flags.toNat < 2 ^ 32 ∨ 1 < flags.toNat % 2 ^ 32

instance (flags : BitVec 64) : Decidable (SeenUnknown flags) := inferInstanceAs (Decidable (_ ∨ _))

section Flags
variable {flags : BitVec 64}

theorem unknown_flags_iff : flags &&& (~~~sel4MmioRegionFree).setWidth 64 ≠ 0#64 ↔ 1 < flags.toNat % 2 ^ 32 := by
  have bits : flags &&& (~~~sel4MmioRegionFree).setWidth 64 = 0#64 ↔ flags.setWidth 32 >>> 1 = 0#32 := by
    rw [BitVec.zero_iff_eq_false, BitVec.zero_iff_eq_false]
    have mask : ∀ k, ((~~~sel4MmioRegionFree).setWidth 64).getLsbD k = decide (1 ≤ k ∧ k < 32) := by
      intro k
      rw [BitVec.getLsbD_setWidth, BitVec.getLsbD_not, sel4MmioRegionFree, BitVec.getLsbD_one]
      by_cases low : k < 32
      · by_cases first : k = 0
        · simp [first]
        · have above : 1 ≤ k := Nat.pos_of_ne_zero first
          have inside : k < 64 := Nat.lt_trans low (by decide)
          simp [low, first, above, inside]
      · simp [low]
    constructor
    · intro clear k
      have bit := clear (1 + k)
      rw [BitVec.getLsbD_and, mask] at bit
      rw [BitVec.getLsbD_ushiftRight, BitVec.getLsbD_setWidth]
      by_cases low : 1 + k < 32
      · simpa [low] using bit
      · simp [low]
    · intro clear k
      rw [BitVec.getLsbD_and, mask]
      by_cases within : 1 ≤ k ∧ k < 32
      · have bit := clear (k - 1)
        rw [BitVec.getLsbD_ushiftRight, BitVec.getLsbD_setWidth, Nat.add_sub_cancel' within.1] at bit
        simpa [within] using bit
      · simp [within]
  rw [ne_eq, bits, ← BitVec.toNat_inj, BitVec.toNat_ushiftRight, BitVec.toNat_setWidth, Nat.shiftRight_eq_div_pow,
    BitVec.toNat_ofNat]
  omega

theorem free_flag_iff : flags &&& sel4MmioRegionFree.setWidth 64 ≠ 0#64 ↔ flags.toNat % 2 = 1 := by
  rw [ne_eq, ← BitVec.toNat_inj, BitVec.toNat_and]
  have one : (sel4MmioRegionFree.setWidth 64).toNat = 1 := by decide
  rw [one, Nat.and_one_is_mod, BitVec.toNat_ofNat]
  omega

end Flags

variable {ext : VmmExternal Handle} {s : EmuDev Proxy Handle} {registered : Registered} {ioProxy : Proxy}
  {msg : Ring.Msg}

/-- What a message does, by the lower half of its flags. -/
theorem traceEmudev_config : traceEmudev ext s registered ioProxy qemuOpMmioRegionConfig msg =
    if 1 < msg.mr3.toNat % 2 ^ 32 then ((s, registered, .error), [])
    else
      let call := if msg.mr3.toNat % 2 = 1 then .free ext.mmio ⟨msg.mr1, msg.mr2, ioProxy⟩
        else .assign ext.mmio ⟨msg.mr1, msg.mr2, ioProxy⟩
      (({ s with mmio := s.mmio.after call }, registered, if (s.mmio.perform call).2 ≠ 0 then .error else .handled),
        [call]) := by
  unfold traceEmudev traceMmioConfig
  simp only [if_true, unknown_flags_iff, free_flag_iff]
  split
  · rfl
  · split <;> rfl

/-- A region message does what its flags say, if and only if the test sees whether they are
unknown. -/
theorem mmio_config_obeys_iff (ext : VmmExternal Handle) (s : EmuDev Proxy Handle) (registered : Registered)
    (ioProxy : Proxy) (msg : Ring.Msg) :
    (traceEmudev ext s registered ioProxy qemuOpMmioRegionConfig msg).1 =
      handleEmudev ext s registered ioProxy qemuOpMmioRegionConfig msg ∧
    (ObeysFlags s registered ioProxy msg (traceEmudev ext s registered ioProxy qemuOpMmioRegionConfig msg) ↔
      SeenUnknown msg.mr3) := by
  refine ⟨traceEmudev_erase .., ?_⟩
  have zero : msg.mr3 = 0#64 ↔ msg.mr3.toNat = 0 := by rw [← BitVec.toNat_inj]; rfl
  have free : msg.mr3 = sel4MmioRegionFree.setWidth 64 ↔ msg.mr3.toNat = 1 := by rw [← BitVec.toNat_inj]; rfl
  rw [traceEmudev_config, SeenUnknown]
  by_cases unknown : 1 < msg.mr3.toNat % 2 ^ 32
  · rw [if_pos unknown]
    exact ⟨fun _ => .inr unknown, fun _ => ⟨nofun, nofun, fun _ _ => rfl⟩⟩
  · rw [if_neg unknown]
    by_cases release : msg.mr3.toNat % 2 = 1
    · simp only [if_pos release]
      constructor
      · intro obeys
        have flags := (obeys.frees _ _ List.mem_cons_self).1
        rw [free] at flags
        omega
      · intro seen
        have flags : msg.mr3.toNat = 1 := by omega
        refine ⟨fun _ _ call => by simp at call, fun _ _ call => ?_, fun _ other => absurd (free.mpr flags) other⟩
        obtain ⟨rfl, rfl⟩ := by simpa using call
        exact ⟨free.mpr flags, rfl⟩
    · simp only [if_neg release]
      constructor
      · intro obeys
        have flags := (obeys.assigns _ _ List.mem_cons_self).1
        rw [zero] at flags
        omega
      · intro seen
        have flags : msg.mr3.toNat = 0 := by omega
        refine ⟨fun _ _ call => ?_, fun _ _ call => by simp at call, fun other => absurd (zero.mpr flags) other⟩
        obtain ⟨rfl, rfl⟩ := by simpa using call
        exact ⟨zero.mpr flags, rfl⟩

/-- Only a bit above the 32 is set: the region is assigned. -/
theorem mmio_config_takes_unknown : ¬ObeysFlags (⟨[], .initial, []⟩ : EmuDev Bool Nat) [] true
    ⟨20#64, 0x1000#64, 0x1000#64, 0x100000000#64⟩
    (traceEmudev ⟨true, 0, fun _ _ => true, ⟨some 0, true, 0, 0⟩, true, none, fun _ => true⟩ ⟨[], .initial, []⟩ []
      true qemuOpMmioRegionConfig ⟨20#64, 0x1000#64, 0x1000#64, 0x100000000#64⟩) := by
  intro obeys
  have flags := (obeys.assigns ⟨some 0, true, 0, 0⟩ ⟨0x1000#64, 0x1000#64, true⟩ (by decide)).1
  revert flags
  decide

end Virtioso.Vmm
