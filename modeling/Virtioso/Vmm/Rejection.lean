import Virtioso.Vmm.Exclusive
import Virtioso.Vmm.Registration

/-! Interrupt messages with an operation that does not exist.

The MSI frame and the PCI code look at the operation before they do anything. The
emulated devices look at it last: an interrupt that has no record is registered with the
VM first, and there is no way back.
-/

set_option autoImplicit false

namespace Virtioso.Vmm

open Foundation Irq Rpc Proxy

variable {P Handle : Type} [DecidableEq P] [DecidableEq Handle]

structure Delivery (P Handle : Type) where
  env : Environment P Handle
  self : P
  proxy : IoProxy (Shared P Handle)
  msg : Ring.Msg

/-- `rpc_process` of the message, in this state of the VMM. -/
def Delivery.process (plat : Option Plat) (s : VmmState P Handle) (d : Delivery P Handle) :
    Except Fault (IoProxy (Shared P Handle) × Int) :=
  rpcProcess (rpcCallbacks plat d.env d.self) (vmmOf d.proxy s) d.msg

/-- The state after the message; a VMM that stops stays as it was. -/
def VmmState.deliver (plat : Option Plat) (s : VmmState P Handle) (d : Delivery P Handle) : VmmState P Handle :=
  match d.process plat s with
  | .ok (proxy, _) => proxy.outside.vmm
  | .error _ => s

/-- A `QEMU_OP_SET_IRQ` message whose operation is none of the three. -/
structure Delivery.Rejected (d : Delivery P Handle) : Prop where
  message : (rpcMr0Op.get d.msg.mr0).setWidth 32 = qemuOpSetIrq
  clr : d.msg.mr2.setWidth 32 ≠ rpcIrqClr
  set : d.msg.mr2.setWidth 32 ≠ rpcIrqSet
  pulse : d.msg.mr2.setWidth 32 ≠ rpcIrqPulse

structure SameInterrupts (before after : VmmState P Handle) : Prop where
  levels : after.msi.driven = before.msi.driven ∧ after.pci.driven = before.pci.driven ∧
    after.emudev.driven = before.emudev.driven
  masks : after.pci.pciIntx = before.pci.pciIntx
  irqs : after.emudev.irqs = before.emudev.irqs
  registered : ∀ irq, irq ∈ after.registered ↔ irq ∈ before.registered

def Harmless (plat : Option Plat) (s : VmmState P Handle) (d : Delivery P Handle) : Prop :=
  d.Rejected → (∃ proxy, d.process plat s = .ok (proxy, -1)) ∧ SameInterrupts s (s.deliver plat d)

def InMsiRange : Option Plat → Nat → Prop
  | none, _ => False
  | some plat, irq => InFrame plat irq

/-- The interrupt has no record yet, and registering it leaves something behind: it is not
known to the VM, or it gets a record. -/
def Delivery.Registers (s : VmmState P Handle) (d : Delivery P Handle) : Prop :=
  (⟨d.msg.mr1.setWidth 32, d.self⟩ : IrqLine P) ∉ s.emudev.irqs ∧ (d.env s).allocated = true ∧
    (d.env s).registers s.registered (d.msg.mr1.setWidth 32) = true ∧
    ((d.env s).appended = 0 ∨ d.msg.mr1.setWidth 32 ∉ s.registered)

/-- A rejected message is for the MSI frame or the PCI code, or it registers no interrupt. -/
def NoRegistration (plat : Option Plat) (s : VmmState P Handle) (d : Delivery P Handle) : Prop :=
  d.Rejected → InMsiRange plat (irqOf d.msg) ∨ irqOf d.msg < 32 ∨ ¬d.Registers s

section Chain
variable (plat : Option Plat) (env : Environment P Handle) (self : P) (proxy : IoProxy (Shared P Handle))
variable {msg : Ring.Msg}

theorem ask_past_msi (outside : ¬InMsiRange plat (irqOf msg)) :
    askCallbacks proxy qemuOpSetIrq msg (rpcCallbacks plat env self) =
      askCallbacks proxy qemuOpSetIrq msg [pciCallback env self, emudevCallback env self, controlCallback] := by
  cases plat with
  | none =>
    have passes : msiCallback none env proxy qemuOpSetIrq msg = .ok (proxy, .none) := rfl
    exact (ask_passed _ (mmio_callback_passes proxy)).trans (ask_passed _ passes)
  | some plat => exact ask_outside plat env self proxy outside

end Chain

section Rejection
variable {plat : Option Plat} {s : VmmState P Handle} {d : Delivery P Handle}

omit [DecidableEq P] [DecidableEq Handle] in
theorem same_interrupts (s : VmmState P Handle) : SameInterrupts s s := ⟨⟨rfl, rfl, rfl⟩, rfl, rfl, fun _ => Iff.rfl⟩

theorem deliver_of_process {proxy : IoProxy (Shared P Handle)} {code : Int}
    (ends : d.process plat s = .ok (proxy, code)) : s.deliver plat d = proxy.outside.vmm := by
  rw [VmmState.deliver, ends]

theorem reject_msi (rejected : d.Rejected) (inside : InMsiRange plat (irqOf d.msg)) :
    d.process plat s = .ok (vmmOf d.proxy s, -1) := by
  cases plat with
  | none => cases inside
  | some plat =>
    have within : InFrame plat (d.msg.mr1.setWidth 32).toNat := by rwa [toNat_irq]
    have valid := (v2m_valid_iff plat s.msi.irq _).mpr within
    have returns : msiIrqSet plat (d.env s).pci.accepts s.msi (d.msg.mr1.setWidth 32) (d.msg.mr2.setWidth 32) =
        some (s.msi, .error) := by
      simp [msiIrqSet, valid, rejected.clr, rejected.set, rejected.pulse]
    have ends := ask_answered [pciCallback d.env d.self, emudevCallback d.env d.self, controlCallback]
      (msi_callback d.env (vmmOf d.proxy s) returns) (by decide)
    exact process_of_ask rejected.message ((ask_passed _ (mmio_callback_passes (vmmOf d.proxy s))).trans ends)

theorem reject_pci (rejected : d.Rejected) (outside : ¬InMsiRange plat (irqOf d.msg)) (low : irqOf d.msg < 32) :
    d.process plat s = .ok (vmmOf d.proxy s, -1) := by
  have returns : handlePciIntx (d.env s).pci s.pci d.self ((pciDevfn d.msg.mr1 0#64).setWidth 32)
      (d.msg.mr2.setWidth 32) = (s.pci, -1) := by
    rw [handlePciIntx, if_neg rejected.set, if_neg rejected.clr, if_neg rejected.pulse]
  have ends := ask_answered [emudevCallback d.env d.self, controlCallback]
    (pci_callback d.env d.self (vmmOf d.proxy s) low returns) (by decide)
  exact process_of_ask rejected.message ((ask_past_msi plat d.env d.self (vmmOf d.proxy s) outside).trans ends)

omit [DecidableEq Handle] in
theorem emudevIrqSet_rejects (ext : VmmExternal Handle) {emudev : EmuDev P Handle} {registered : Registered}
    {self : P} {irq op : BitVec 32} (emulated : irqIsEmulatedDevice irq = true)
    (unknown : ∀ driven (line : IrqLine P), emudevIrqOp ext.pci.accepts driven line op = (driven, -1)) :
    ∃ irqs numbers, emudevIrqSet ext emudev registered self irq op = ({ emudev with irqs }, numbers, -1) ∧
      (irqs = emudev.irqs ∧ (∀ n, n ∈ numbers ↔ n ∈ registered) ↔
        ¬(⟨irq, self⟩ ∉ emudev.irqs ∧ ext.allocated = true ∧ ext.registers registered irq = true ∧
          (ext.appended = 0 ∨ irq ∉ registered))) := by
  have device : ¬(!irqIsEmulatedDevice irq) = true := by simp [emulated]
  rw [emudevIrqSet, if_neg device, irqResFind_eq]
  by_cases known : (⟨irq, self⟩ : IrqLine P) ∈ emudev.irqs
  · rw [if_pos known]
    refine ⟨emudev.irqs, registered, by simp only [unknown], ?_⟩
    simp [known]
  · rw [if_neg known, emudevIrqRegister_eq]
    by_cases accepted : ext.allocated = true ∧ ext.registers registered irq = true
    · rw [if_pos accepted]
      by_cases appended : ext.appended = 0
      · rw [if_pos appended]
        refine ⟨emudev.irqs ++ [⟨irq, self⟩], irq :: registered, by simp only [unknown], ?_⟩
        simp [known, accepted, appended]
      · -- the VM knows the interrupt, the list does not
        rw [if_neg appended]
        refine ⟨emudev.irqs, irq :: registered, rfl, ?_⟩
        simp [known, accepted, appended]
    · rw [if_neg accepted]
      refine ⟨emudev.irqs, registered, rfl, ?_⟩
      have refused : ext.allocated = true → ext.registers registered irq = false := by
        simpa using accepted
      simp only [implies_true, and_self, true_iff, iff_self]
      rintro ⟨_, allocated, registers, _⟩
      exact accepted ⟨allocated, registers⟩

/-- The emulated devices fail as well, with the registry of interrupts and the VM as the
registration leaves them. -/
theorem reject_emudev (rejected : d.Rejected) (outside : ¬InMsiRange plat (irqOf d.msg)) (high : 32 ≤ irqOf d.msg) :
    ∃ irqs registered, d.process plat s =
        .ok (vmmOf d.proxy { s with emudev := { s.emudev with irqs }, registered }, -1) ∧
      (irqs = s.emudev.irqs ∧ (∀ irq, irq ∈ registered ↔ irq ∈ s.registered) ↔ ¬d.Registers s) := by
  have emulated : irqIsEmulatedDevice (d.msg.mr1.setWidth 32) = true := by
    rw [irqIsEmulatedDevice, decide_eq_true_eq, ge_iff_le, BitVec.le_def, toNat_irq]
    exact high
  have unknown : ∀ driven (line : IrqLine P),
      emudevIrqOp (d.env s).pci.accepts driven line (d.msg.mr2.setWidth 32) = (driven, -1) := by
    intro driven line
    rw [emudevIrqOp, if_neg rejected.set, if_neg rejected.clr, if_neg rejected.pulse]
  obtain ⟨irqs, registered, returns, unchanged⟩ := emudevIrqSet_rejects (d.env s) emulated unknown
  have answered := ask_answered [controlCallback]
    (emudev_callback d.env d.self (vmmOf d.proxy s) returns) (answer_taken (-1))
  have passed := ask_passed [emudevCallback d.env d.self, controlCallback]
    (pci_callback_passes d.env d.self (vmmOf d.proxy s) high)
  have ends := (ask_past_msi plat d.env d.self (vmmOf d.proxy s) outside).trans (passed.trans answered)
  exact ⟨irqs, registered, process_of_ask rejected.message ends, unchanged⟩

theorem harmless_iff (plat : Option Plat) (s : VmmState P Handle) (d : Delivery P Handle) :
    Harmless plat s d ↔ NoRegistration plat s d := by
  refine forall_congr' fun rejected => ?_
  by_cases inside : InMsiRange plat (irqOf d.msg)
  · have ends := reject_msi (s := s) rejected inside
    exact ⟨fun _ => .inl inside, fun _ => ⟨⟨_, ends⟩, deliver_of_process ends ▸ same_interrupts s⟩⟩
  · by_cases low : irqOf d.msg < 32
    · have ends := reject_pci (s := s) rejected inside low
      exact ⟨fun _ => .inr (.inl low), fun _ => ⟨⟨_, ends⟩, deliver_of_process ends ▸ same_interrupts s⟩⟩
    · obtain ⟨irqs, registered, ends, unchanged⟩ := reject_emudev (s := s) rejected inside (Nat.le_of_not_lt low)
      have after := deliver_of_process ends
      constructor
      · rintro ⟨_, same⟩
        rw [after] at same
        exact .inr (.inr (unchanged.mp ⟨same.irqs, same.registered⟩))
      · intro quiet
        have kept := unchanged.mpr ((quiet.resolve_left inside).resolve_left low)
        refine ⟨⟨_, ends⟩, ?_⟩
        rw [after]
        exact ⟨⟨rfl, rfl, rfl⟩, rfl, kept.1, kept.2⟩

end Rejection

/-- In every run of messages, from any state and with external functions that do anything,
all rejected interrupt messages are harmless if and only if none of them gets to register
an interrupt. -/
theorem rejected_interrupts_harmless_iff (plat : Option Plat) (start : VmmState P Handle)
    (deliveries : List (Delivery P Handle)) :
    Along (VmmState.deliver plat) (Harmless plat) start deliveries ↔
      Along (VmmState.deliver plat) (NoRegistration plat) start deliveries :=
  along_congr (harmless_iff plat) start deliveries

/-- Operation 7 on interrupt 200, which no device has used yet. -/
def unknownOp : Delivery Bool Nat :=
  ⟨calm, true, (Session.initial (⟨quiet, true, 1⟩ : Shared Bool Nat)).proxy, ⟨16#64, 200#64, 7#64, 0#64⟩⟩

/-- The message fails, and the interrupt is registered. -/
theorem rejected_interrupt_registers :
    ¬Along (VmmState.deliver (some .rpi4)) (Harmless (some .rpi4)) quiet [unknownOp] := by
  rintro ⟨harmless, _⟩
  have rejected : unknownOp.Rejected := ⟨by decide, by decide, by decide, by decide⟩
  have same := ((harmless rejected).2.registered 200#32).mp (by decide +kernel)
  cases same

end Virtioso.Vmm
