import Virtioso.Irq.Msi
import Virtioso.Proxy.Chain
import Virtioso.Proxy.Session
import Virtioso.Vmm.Platform

/-! An interrupt message is acted on by one subsystem, once.

The ranges of the MSI frame, of the PCI slots and of the emulated devices are those of
the handlers' own tests; the handler that accepts the number ends the chain, whether
it succeeds or fails.
-/

set_option autoImplicit false

namespace Virtioso.Vmm

open Irq Rpc Proxy

def irqOf (msg : Ring.Msg) : Nat := msg.mr1.toNat % 2 ^ 32

/-- The numbers `[irq_base, irq_base + num_irq)` of a platform. -/
def InFrame (plat : Plat) (irq : Nat) : Prop :=
  let frame := v2m plat fun _ => ⟨0#32, ()⟩
  frame.irqBase.toNat ≤ irq ∧ irq < frame.irqBase.toNat + frame.numIrq.toNat

theorem toNat_irq (msg : Ring.Msg) : (msg.mr1.setWidth 32).toNat = irqOf msg := BitVec.toNat_setWidth ..

section Frame
variable (plat : Plat) (irq : Fin gicv2mIrqMax → IrqLine Unit)

theorem v2m_unwrapped : (v2m plat irq).Unwrapped := by
  cases plat with
  | rpi4 => exact (by decide : (144#32).toNat + (32#32).toNat < 2 ^ 32)
  | qemuArmVirt => exact (by decide : (96#32).toNat + (32#32).toNat < 2 ^ 32)

theorem v2m_numIrq : (v2m plat irq).numIrq.toNat < gicv2mIrqMax := by
  cases plat <;> exact (by decide : (32#32).toNat < 128)

theorem v2m_valid_iff (number : BitVec 32) : v2mIrqValid (v2m plat irq) number = true ↔ InFrame plat number.toNat := by
  rw [valid_iff (v2m_unwrapped plat irq)]
  cases plat <;> exact Iff.rfl

theorem not_inFrame_of_lt {number : Nat} (low : number < 32) : ¬InFrame plat number := by
  rintro ⟨above, _⟩
  have base : 32 ≤ (v2m plat fun _ => ⟨0#32, ()⟩).irqBase.toNat := by
    cases plat with
    | rpi4 => exact (by decide : 32 ≤ (144#32).toNat)
    | qemuArmVirt => exact (by decide : 32 ≤ (96#32).toNat)
  exact absurd (Nat.le_trans base above) (Nat.not_le_of_lt low)

end Frame

def answer (err : Int) : Rc := if err ≠ 0 then .error else .handled

theorem answer_taken (err : Int) : answer err ≠ .none := by
  unfold answer
  split <;> decide

section Msi
variable {plat : Plat} (accepts : Bool → Bool) (s : MsiState) {irq : BitVec 32} (op : BitVec 32)

theorem msi_passes (outside : ¬InFrame plat irq.toNat) : msiIrqSet plat accepts s irq op = some (s, .none) := by
  have invalid : v2mIrqValid (v2m plat s.irq) irq = false := by
    rw [← Bool.not_eq_true, v2m_valid_iff]
    exact outside
  simp [msiIrqSet, invalid]

/-- In its range the frame always answers, and never through a line past the array. -/
theorem msi_answers (inside : InFrame plat irq.toNat) :
    ∃ after rc, msiIrqSet plat accepts s irq op = some (after, rc) ∧ rc ≠ .none := by
  have valid := (v2m_valid_iff plat s.irq irq).mpr inside
  have index : (v2m plat s.irq).injectIndex irq = some (irq - (v2m plat s.irq).irqBase) := if_pos valid
  have below := (injectIndex_lt (v2m_unwrapped plat s.irq) index).2.2
  have line := lineAt_of_lt (v2m plat s.irq) (Nat.lt_trans below (v2m_numIrq plat s.irq))
  unfold msiIrqSet
  simp only [valid, Bool.not_true, Bool.false_eq_true, if_false, v2mInjectIrq, index, line, Option.map_some]
  split
  · exact ⟨_, answer _, rfl, answer_taken _⟩
  · split
    · exact ⟨s, .handled, rfl, by decide⟩
    · exact ⟨s, .error, rfl, by decide⟩

end Msi

variable {P Handle : Type} [DecidableEq P] [DecidableEq Handle]

/-- The subsystem that the number belongs to does its work once, on the state before the
message, and the state of the others stays as it was. -/
structure ActsAlone (plat : Plat) (ext : VmmExternal Handle) (self : P) (msg : Ring.Msg)
    (before after : VmmState P Handle) (rc : Rc) : Prop where
  msi : InFrame plat (irqOf msg) → after = { before with msi := after.msi } ∧ rc ≠ .none ∧
    msiIrqSet plat ext.pci.accepts before.msi (msg.mr1.setWidth 32) (msg.mr2.setWidth 32) = some (after.msi, rc)
  pci : irqOf msg < 32 → after = { before with pci := after.pci } ∧ ∃ err, rc = answer err ∧
    handlePciIntx ext.pci before.pci self ((pciDevfn msg.mr1 0#64).setWidth 32) (msg.mr2.setWidth 32) =
      (after.pci, err)
  emudev : ¬InFrame plat (irqOf msg) → 32 ≤ irqOf msg →
    after = { before with emudev := after.emudev, registered := after.registered } ∧ ∃ err, rc = answer err ∧
    emudevIrqSet ext before.emudev before.registered self (msg.mr1.setWidth 32) (msg.mr2.setWidth 32) =
      (after.emudev, after.registered, err)

section Callbacks
variable {plat : Plat} (env : Environment P Handle) (self : P) (proxy : IoProxy (Shared P Handle))
variable {msg : Ring.Msg}

omit [DecidableEq P] [DecidableEq Handle] in
theorem mmio_callback_passes : handleMmio proxy qemuOpSetIrq msg = .ok (proxy, .none) :=
  if_pos (by decide)

omit [DecidableEq P] [DecidableEq Handle] in
theorem msi_callback {msi : MsiState} {rc : Rc}
    (returns : msiIrqSet plat (env proxy.outside.vmm).pci.accepts proxy.outside.vmm.msi (msg.mr1.setWidth 32)
      (msg.mr2.setWidth 32) = some (msi, rc)) :
    msiCallback (some plat) env proxy qemuOpSetIrq msg =
      .ok ({ proxy with outside := { proxy.outside with vmm := { proxy.outside.vmm with msi } } }, rc) := by
  simp only [msiCallback, onShared, handleMsi, if_true, returns, Option.map_some]
  rfl

omit [DecidableEq Handle] in
theorem pci_callback_passes (high : 32 ≤ irqOf msg) :
    pciCallback env self proxy qemuOpSetIrq msg = .ok (proxy, .none) := by
  have other : irqIsPci (msg.mr1.setWidth 32) = false := by
    rw [irqIsPci, decide_eq_false_iff_not, BitVec.lt_def, toNat_irq]
    exact Nat.not_lt_of_le high
  simp only [pciCallback, onShared, handlePci, if_true, other, Bool.not_false]
  rfl

omit [DecidableEq Handle] in
theorem pci_callback {pci : PciState P} {err : Int} (low : irqOf msg < 32)
    (returns : handlePciIntx (env proxy.outside.vmm).pci proxy.outside.vmm.pci self
      ((pciDevfn msg.mr1 0#64).setWidth 32) (msg.mr2.setWidth 32) = (pci, err)) :
    pciCallback env self proxy qemuOpSetIrq msg =
      .ok ({ proxy with outside := { proxy.outside with vmm := { proxy.outside.vmm with pci } } }, answer err) := by
  have slot : irqIsPci (msg.mr1.setWidth 32) = true := by
    rw [irqIsPci, decide_eq_true_eq, BitVec.lt_def, toNat_irq]
    exact low
  simp only [pciCallback, onShared, handlePci, if_true, slot, Bool.not_true, Bool.false_eq_true, if_false, returns]
  rfl

theorem emudev_callback {emudev : EmuDev P Handle} {registered : Registered} {err : Int}
    (returns : emudevIrqSet (env proxy.outside.vmm) proxy.outside.vmm.emudev proxy.outside.vmm.registered self
      (msg.mr1.setWidth 32) (msg.mr2.setWidth 32) = (emudev, registered, err)) :
    emudevCallback env self proxy qemuOpSetIrq msg =
      .ok ({ proxy with
        outside := { proxy.outside with vmm := { proxy.outside.vmm with emudev, registered } } }, answer err) := by
  have other : qemuOpSetIrq ≠ qemuOpMmioRegionConfig := by decide
  simp only [emudevCallback, onShared, handleEmudev, if_neg other, if_true, returns]
  rfl

end Callbacks

section Chain
variable (plat : Plat) (env : Environment P Handle) (self : P) (proxy : IoProxy (Shared P Handle))
variable {msg : Ring.Msg}

def vmmOf (proxy : IoProxy (Shared P Handle)) (vmm : VmmState P Handle) : IoProxy (Shared P Handle) :=
  { proxy with outside := { proxy.outside with vmm } }

theorem ask_inside (inside : InFrame plat (irqOf msg)) :
    ∃ after rc, askCallbacks proxy qemuOpSetIrq msg (rpcCallbacks (some plat) env self) = .ok (vmmOf proxy after, rc) ∧
      ActsAlone plat (env proxy.outside.vmm) self msg proxy.outside.vmm after rc := by
  have high : ¬irqOf msg < 32 := fun low => not_inFrame_of_lt plat low inside
  have within : InFrame plat (msg.mr1.setWidth 32).toNat := by rwa [toNat_irq]
  obtain ⟨msi, rc, returns, taken⟩ :=
    msi_answers (env proxy.outside.vmm).pci.accepts proxy.outside.vmm.msi (msg.mr2.setWidth 32) within
  have mmio : askCallbacks proxy qemuOpSetIrq msg (rpcCallbacks (some plat) env self) =
      askCallbacks proxy qemuOpSetIrq msg (vmmCallbacks (some plat) env self) :=
    ask_passed _ (mmio_callback_passes proxy)
  have ends := ask_answered [pciCallback env self, emudevCallback env self, controlCallback]
    (msi_callback env proxy returns) taken
  refine ⟨{ proxy.outside.vmm with msi }, rc, mmio.trans ends, ?_, ?_, ?_⟩
  · exact fun _ => ⟨rfl, taken, returns⟩
  · exact fun low => absurd low high
  · exact fun outside => absurd inside outside

theorem ask_outside (outside : ¬InFrame plat (irqOf msg)) :
    askCallbacks proxy qemuOpSetIrq msg (rpcCallbacks (some plat) env self) =
      askCallbacks proxy qemuOpSetIrq msg [pciCallback env self, emudevCallback env self, controlCallback] := by
  rw [← toNat_irq] at outside
  have passes := msi_callback env proxy
    (msi_passes (env proxy.outside.vmm).pci.accepts proxy.outside.vmm.msi (msg.mr2.setWidth 32) outside)
  calc askCallbacks proxy qemuOpSetIrq msg (rpcCallbacks (some plat) env self)
      = askCallbacks proxy qemuOpSetIrq msg (vmmCallbacks (some plat) env self) :=
        ask_passed _ (mmio_callback_passes proxy)
    _ = _ := ask_passed _ passes

theorem ask_slot (outside : ¬InFrame plat (irqOf msg)) (low : irqOf msg < 32) :
    ∃ after rc, askCallbacks proxy qemuOpSetIrq msg (rpcCallbacks (some plat) env self) = .ok (vmmOf proxy after, rc) ∧
      ActsAlone plat (env proxy.outside.vmm) self msg proxy.outside.vmm after rc := by
  obtain ⟨⟨pci, err⟩, returns⟩ : ∃ result, handlePciIntx (env proxy.outside.vmm).pci proxy.outside.vmm.pci
    self ((pciDevfn msg.mr1 0#64).setWidth 32) (msg.mr2.setWidth 32) = result := ⟨_, rfl⟩
  have ends := ask_answered [emudevCallback env self, controlCallback]
    (pci_callback env self proxy low returns) (answer_taken err)
  refine ⟨{ proxy.outside.vmm with pci }, answer err, (ask_outside plat env self proxy outside).trans ends, ?_, ?_, ?_⟩
  · exact fun within => absurd within outside
  · exact fun _ => ⟨rfl, err, rfl, returns⟩
  · exact fun _ high => absurd low (Nat.not_lt_of_le high)

theorem ask_device (outside : ¬InFrame plat (irqOf msg)) (high : 32 ≤ irqOf msg) :
    ∃ after rc, askCallbacks proxy qemuOpSetIrq msg (rpcCallbacks (some plat) env self) = .ok (vmmOf proxy after, rc) ∧
      ActsAlone plat (env proxy.outside.vmm) self msg proxy.outside.vmm after rc := by
  obtain ⟨⟨emudev, registered, err⟩, returns⟩ : ∃ result, emudevIrqSet (env proxy.outside.vmm)
    proxy.outside.vmm.emudev proxy.outside.vmm.registered self (msg.mr1.setWidth 32)
    (msg.mr2.setWidth 32) = result := ⟨_, rfl⟩
  have passes : askCallbacks proxy qemuOpSetIrq msg [pciCallback env self, emudevCallback env self, controlCallback] =
      askCallbacks proxy qemuOpSetIrq msg [emudevCallback env self, controlCallback] :=
    ask_passed _ (pci_callback_passes env self proxy high)
  have ends := ask_answered [controlCallback] (emudev_callback env self proxy returns) (answer_taken err)
  refine ⟨{ proxy.outside.vmm with emudev, registered }, answer err,
    (ask_outside plat env self proxy outside).trans (passes.trans ends), ?_, ?_, ?_⟩
  · exact fun within => absurd within outside
  · exact fun low => absurd low (Nat.not_lt_of_le high)
  · exact fun _ _ => ⟨rfl, err, rfl, returns⟩

end Chain

/-- Whatever the state, `rpc_process` leaves an interrupt message to one subsystem: the MSI
frame, the PCI code or the emulated devices, by its number. -/
theorem interrupt_reaches_one_subsystem (plat : Plat) (env : Environment P Handle) (self : P)
    (proxy : IoProxy (Shared P Handle)) (msg : Ring.Msg)
    (op : (rpcMr0Op.get msg.mr0).setWidth 32 = qemuOpSetIrq) :
    ∃ after rc, rpcProcess (rpcCallbacks (some plat) env self) proxy msg =
        .ok ({ proxy with outside := { proxy.outside with vmm := after } }, processed rc) ∧
      ActsAlone plat (env proxy.outside.vmm) self msg proxy.outside.vmm after rc := by
  have asked : ∃ after rc, askCallbacks proxy qemuOpSetIrq msg (rpcCallbacks (some plat) env self) =
      .ok (vmmOf proxy after, rc) ∧ ActsAlone plat (env proxy.outside.vmm) self msg proxy.outside.vmm after rc := by
    by_cases inside : InFrame plat (irqOf msg)
    · exact ask_inside plat env self proxy inside
    · by_cases low : irqOf msg < 32
      · exact ask_slot plat env self proxy inside low
      · exact ask_device plat env self proxy inside (Nat.le_of_not_lt low)
  obtain ⟨after, rc, ends, alone⟩ := asked
  exact ⟨after, rc, process_of_ask op ends, alone⟩

/-- External functions that all succeed. -/
def calm : Environment Bool Nat := fun _ => ⟨true, 0, fun _ _ => true, ⟨some 0, true, 0, 0⟩, true, none, fun _ => true⟩

def quiet : VmmState Bool Nat := ⟨⟨fun _ => ⟨0#32, ()⟩, []⟩, Irq.irqInit 64#32, ⟨[], .initial, []⟩, []⟩

def pulse : Ring.Msg := ⟨16#64, 0x700000096#64, 2#64, 0#64⟩

def framed : VmmState Bool Nat :=
  { quiet with msi := ⟨fun k => ⟨144#32 + BitVec.ofNat 32 k.val, ()⟩, []⟩ }

/-- Line 150 of the frame is pulsed, and nothing happens elsewhere. -/
theorem interrupt_reaches_msi_frame :
    let proxy := (Session.initial (⟨framed, true, 1⟩ : Shared Bool Nat)).proxy
    ∃ after rc, rpcProcess (rpcCallbacks (some .rpi4) calm true) proxy pulse =
        .ok ({ proxy with outside := { proxy.outside with vmm := after } }, processed rc) ∧
      ActsAlone .rpi4 (calm framed) true pulse framed after rc ∧
      after.msi.driven = [(150#32, false), (150#32, true)] ∧ after = { framed with msi := after.msi } := by
  obtain ⟨after, rc, ends, alone⟩ := interrupt_reaches_one_subsystem .rpi4 calm true
    (Session.initial (⟨framed, true, 1⟩ : Shared Bool Nat)).proxy pulse (by decide)
  have ⟨msi, _, _⟩ := alone
  obtain ⟨same, -, pulsed⟩ := msi ⟨by decide, by decide⟩
  have driven : (msiIrqSet .rpi4 (calm framed).pci.accepts framed.msi (pulse.mr1.setWidth 32) (pulse.mr2.setWidth 32)).map
      (fun result => result.1.driven) = some [(150#32, false), (150#32, true)] := by decide +kernel
  have levels := congrArg (Option.map fun result => result.1.driven) pulsed
  exact ⟨after, rc, ends, alone, Option.some.inj (levels.symm.trans driven), same⟩

end Virtioso.Vmm
