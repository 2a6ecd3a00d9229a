import Virtioso.Rpc.Events
import Virtioso.Vmm.Rejection

/-! Calls of a device to the VMM.

The functions of `rpc.h` put the operation into the first word of an event and post it. The
handlers of `rpc_callbacks` decode it again; what a call asks for is stated here without
messages.
-/

set_option autoImplicit false

namespace Virtioso.Vmm

open Foundation Irq Rpc Proxy
open Virtioso.Ring (CasVariant Msg Queue EventStore eventElement)

section Post
variable (v : CasVariant) (deviceEvent : Queue EventStore) (doorbell : Bool)

/-- `device_event_tx`, of a device with its own doorbell; `none` is a call that does not return. -/
def deviceEventTx (op : BitVec 32) (mr0 mr1 mr2 mr3 : BitVec 64) : Option (Queue EventStore × Int) :=
  let mr0 := rpcMr0Op.set mr0 (op.setWidth 64)
  (rpcmsgEventTx v deviceEvent mr0 mr1 mr2 mr3).map fun (deviceEvent, err) =>
    if err ≠ 0 then (deviceEvent, err) else (deviceEvent, vsoDoorbell doorbell)

/-- `device_rpc_req_start_vm`. -/
def deviceRpcReqStartVm := deviceEventTx v deviceEvent doorbell qemuOpStartVm 0#64 0#64 0#64 0#64

/-- `device_rpc_req_create_vpci_device`. -/
def deviceRpcReqCreateVpciDevice (pcidev : BitVec 64) :=
  deviceEventTx v deviceEvent doorbell qemuOpRegisterPciDev 0#64 pcidev 0#64 0#64

/-- `device_rpc_req_mmio_region_config`. -/
def deviceRpcReqMmioRegionConfig (gpa size flags : BitVec 64) :=
  deviceEventTx v deviceEvent doorbell qemuOpMmioRegionConfig 0#64 gpa size flags

/-- `device_rpc_req_set_irqline`. -/
def deviceRpcReqSetIrqline (irq : BitVec 64) :=
  deviceEventTx v deviceEvent doorbell qemuOpSetIrq 0#64 irq (rpcIrqSet.setWidth 64) 0#64

/-- `device_rpc_req_clear_irqline`. -/
def deviceRpcReqClearIrqline (irq : BitVec 64) :=
  deviceEventTx v deviceEvent doorbell qemuOpSetIrq 0#64 irq (rpcIrqClr.setWidth 64) 0#64

/-- `device_rpc_req_pulse_irqline`. -/
def deviceRpcReqPulseIrqline (irq : BitVec 64) :=
  deviceEventTx v deviceEvent doorbell qemuOpSetIrq 0#64 irq (rpcIrqPulse.setWidth 64) 0#64

end Post

inductive DeviceCall where
  | startVm
  | createVpciDevice (pcidev : BitVec 64)
  | mmioRegionConfig (gpa size flags : BitVec 64)
  | setIrqline (irq : BitVec 64)
  | clearIrqline (irq : BitVec 64)
  | pulseIrqline (irq : BitVec 64)
  deriving DecidableEq, Repr

def DeviceCall.post (v : CasVariant) (deviceEvent : Queue EventStore) (doorbell : Bool) :
    DeviceCall → Option (Queue EventStore × Int)
  | .startVm => deviceRpcReqStartVm v deviceEvent doorbell
  | .createVpciDevice pcidev => deviceRpcReqCreateVpciDevice v deviceEvent doorbell pcidev
  | .mmioRegionConfig gpa size flags => deviceRpcReqMmioRegionConfig v deviceEvent doorbell gpa size flags
  | .setIrqline irq => deviceRpcReqSetIrqline v deviceEvent doorbell irq
  | .clearIrqline irq => deviceRpcReqClearIrqline v deviceEvent doorbell irq
  | .pulseIrqline irq => deviceRpcReqPulseIrqline v deviceEvent doorbell irq

def DeviceCall.words : DeviceCall → Msg
  | .startVm => ⟨18#64, 0#64, 0#64, 0#64⟩
  | .createVpciDevice pcidev => ⟨19#64, pcidev, 0#64, 0#64⟩
  | .mmioRegionConfig gpa size flags => ⟨20#64, gpa, size, flags⟩
  | .setIrqline irq => ⟨16#64, irq, 1#64, 0#64⟩
  | .clearIrqline irq => ⟨16#64, irq, 0#64, 0#64⟩
  | .pulseIrqline irq => ⟨16#64, irq, 2#64, 0#64⟩

/-- A call is queued, or refused when 32 calls wait; the doorbell is rung for a queued call only. -/
theorem post_eq (v : CasVariant) (deviceEvent : Queue EventStore) (doorbell : Bool) (call : DeviceCall) :
    call.post v deviceEvent doorbell =
      (rpcmsgEventTx v deviceEvent call.words.mr0 call.words.mr1 call.words.mr2 call.words.mr3).map
        fun (deviceEvent, err) => if err ≠ 0 then (deviceEvent, err) else (deviceEvent, vsoDoorbell doorbell) := by
  cases call <;> rfl

variable {P Handle : Type} [DecidableEq P] [DecidableEq Handle]

/-- The return code of `rpc_process` for that of a subsystem. -/
def reported (err : Int) : Int := if err ≠ 0 then -1 else 0

/-! ### What a call asks for -/

section Serve
variable (ext : VmmExternal Handle) (self : P) (s : VmmState P Handle)

def frameOf (plat : Option Plat) (irq : BitVec 32) : Option Plat :=
  plat.filter fun plat => v2mIrqValid (v2m plat s.msi.irq) irq

/-- A message interrupt has no level: setting it is a pulse, and clearing it nothing. -/
def serveMsi (plat : Plat) (irq op : BitVec 32) : VmmState P Handle × Int :=
  if op = rpcIrqClr then (s, 0)
  else
    match v2mInjectIrq ext.pci.accepts (v2m plat s.msi.irq) s.msi.driven irq with
    | none => (s, -1)
    | some (driven, err) => ({ s with msi := { s.msi with driven } }, reported err)

def serveSlot (irq : BitVec 64) (op : BitVec 32) : VmmState P Handle × Int :=
  let (pci, err) := handlePciIntx ext.pci s.pci self ((pciDevfn irq 0#64).setWidth 32) op
  ({ s with pci }, reported err)

def serveEmulated (irq op : BitVec 32) : VmmState P Handle × Int :=
  let (emudev, registered, err) := emudevIrqSet ext s.emudev s.registered self irq op
  ({ s with emudev, registered }, reported err)

def serveIrqline (plat : Option Plat) (irq : BitVec 64) (op : BitVec 32) : VmmState P Handle × Int :=
  match frameOf s plat (irq.setWidth 32) with
  | some plat => serveMsi ext s plat (irq.setWidth 32) op
  | none =>
      if irqIsPci (irq.setWidth 32) then serveSlot ext self s irq op
      else serveEmulated ext self s (irq.setWidth 32) op

end Serve

def DeviceCall.serve (plat : Option Plat) (env : Environment P Handle) (self : P) (s : Shared P Handle) :
    DeviceCall → Shared P Handle × Int
  | .startVm => ({ s with okToRun := true, started := s.started + 1 }, 0)
  | .createVpciDevice pcidev =>
      let (pci, err) := pcidevRegister (env s.vmm).pci s.vmm.pci self ((pciDevfn pcidev 0#64).setWidth 32)
      ({ s with vmm := { s.vmm with pci } }, reported err)
  | .mmioRegionConfig gpa size flags =>
      let (mmio, err) := emudevMmioConfig (env s.vmm) s.vmm.emudev.mmio self gpa size flags
      ({ s with vmm := { s.vmm with emudev := { s.vmm.emudev with mmio } } }, reported err)
  | .setIrqline irq => irqline irq rpcIrqSet
  | .clearIrqline irq => irqline irq rpcIrqClr
  | .pulseIrqline irq => irqline irq rpcIrqPulse
where
  irqline (irq : BitVec 64) (op : BitVec 32) : Shared P Handle × Int :=
    let (vmm, err) := serveIrqline (env s.vmm) self s.vmm plat irq op
    ({ s with vmm }, err)

/-! ### Messages and calls -/

section Process
variable (plat : Option Plat) (env : Environment P Handle) (self : P) (proxy : IoProxy (Shared P Handle))

theorem processed_answer (err : Int) : processed (answer err) = reported err := by
  unfold answer reported
  split <;> rfl

/-- An operation of `rpc.h` on an interrupt line. -/
def IsLineOp (op : BitVec 32) : Prop := op = rpcIrqSet ∨ op = rpcIrqClr ∨ op = rpcIrqPulse

omit [DecidableEq P] [DecidableEq Handle] in
theorem msi_serves {plat : Plat} (ext : VmmExternal Handle) (s : VmmState P Handle) {irq op : BitVec 32}
    (valid : v2mIrqValid (v2m plat s.msi.irq) irq = true) (known : IsLineOp op) :
    ∃ msi rc, msiIrqSet plat ext.pci.accepts s.msi irq op = some (msi, rc) ∧ rc ≠ .none ∧
      serveMsi ext s plat irq op = ({ s with msi }, processed rc) := by
  unfold msiIrqSet serveMsi
  simp only [valid, Bool.not_true, Bool.false_eq_true, if_false]
  by_cases clear : op = rpcIrqClr
  · have other : ¬(op = rpcIrqSet ∨ op = rpcIrqPulse) := by
      rw [clear]
      decide
    rw [if_neg other, if_pos clear, if_pos clear]
    exact ⟨s.msi, .handled, rfl, by decide, rfl⟩
  · have pulses : op = rpcIrqSet ∨ op = rpcIrqPulse := known.imp_right (Or.resolve_left · clear)
    have index : (v2m plat s.msi.irq).injectIndex irq = some (irq - (v2m plat s.msi.irq).irqBase) := if_pos valid
    have below := (injectIndex_lt (v2m_unwrapped plat s.msi.irq) index).2.2
    have line := lineAt_of_lt (v2m plat s.msi.irq) (Nat.lt_trans below (v2m_numIrq plat s.msi.irq))
    rw [if_pos pulses, if_neg clear]
    simp only [v2mInjectIrq, index, line, Option.map_some]
    refine ⟨_, answer _, rfl, answer_taken _, ?_⟩
    rw [processed_answer]

section Irqline
variable {irq : BitVec 64} {op : BitVec 32}

def irqWords (irq : BitVec 64) (op : BitVec 32) : Msg := ⟨16#64, irq, op.setWidth 64, 0#64⟩

theorem irqWords_op : (rpcMr0Op.get (irqWords irq op).mr0).setWidth 32 = qemuOpSetIrq := by
  have word : (irqWords irq op).mr0 = 16#64 := rfl
  rw [word]
  decide

theorem irqWords_mr2 : (irqWords irq op).mr2.setWidth 32 = op := by
  rw [irqWords, BitVec.setWidth_setWidth_of_le _ (by decide), BitVec.setWidth_eq]

omit [DecidableEq P] [DecidableEq Handle] in
theorem frameOf_eq_some {s : VmmState P Handle} {plat : Option Plat} {frame : Plat} {irq : BitVec 32} :
    frameOf s plat irq = some frame ↔ plat = some frame ∧ v2mIrqValid (v2m frame s.msi.irq) irq = true :=
  Option.filter_eq_some_iff

theorem process_irqline (known : IsLineOp op) : rpcProcess (rpcCallbacks plat env self) proxy (irqWords irq op) =
    .ok (vmmOf proxy (serveIrqline (env proxy.outside.vmm) self proxy.outside.vmm plat irq op).1,
      (serveIrqline (env proxy.outside.vmm) self proxy.outside.vmm plat irq op).2) := by
  unfold serveIrqline
  cases found : frameOf proxy.outside.vmm plat (irq.setWidth 32) with
  | some frame =>
    obtain ⟨rfl, valid⟩ := frameOf_eq_some.mp found
    obtain ⟨msi, rc, returns, taken, serves⟩ := msi_serves (env proxy.outside.vmm) proxy.outside.vmm valid known
    have message : msiIrqSet frame (env proxy.outside.vmm).pci.accepts proxy.outside.vmm.msi
        ((irqWords irq op).mr1.setWidth 32) ((irqWords irq op).mr2.setWidth 32) = some (msi, rc) := by
      rw [irqWords_mr2]
      exact returns
    have ends := ask_answered [pciCallback env self, emudevCallback env self, controlCallback]
      (msi_callback env proxy message) taken
    have asked : askCallbacks proxy qemuOpSetIrq (irqWords irq op) (rpcCallbacks (some frame) env self) =
        .ok (vmmOf proxy { proxy.outside.vmm with msi }, rc) := (ask_passed _ (mmio_callback_passes proxy)).trans ends
    rw [process_of_ask irqWords_op asked]
    simp only [serves]
  | none =>
    have outside : ¬InMsiRange plat (irqOf (irqWords irq op)) := by
      cases plat with
      | none => exact fun inside => inside
      | some plat =>
        intro inside
        have valid := (v2m_valid_iff plat proxy.outside.vmm.msi.irq (irq.setWidth 32)).mpr (by rwa [← toNat_irq] at inside)
        rw [frameOf_eq_some.mpr ⟨rfl, valid⟩] at found
        cases found
    have asked := ask_past_msi plat env self proxy outside
    have number : irqOf (irqWords irq op) = (irq.setWidth 32).toNat := (toNat_irq (irqWords irq op)).symm
    by_cases slot : irqIsPci (irq.setWidth 32) = true
    · have low : irqOf (irqWords irq op) < 32 := by
        rw [irqIsPci, decide_eq_true_eq, BitVec.lt_def] at slot
        exact number ▸ slot
      obtain ⟨⟨pci, err⟩, returns⟩ : ∃ result, handlePciIntx (env proxy.outside.vmm).pci proxy.outside.vmm.pci self
        ((pciDevfn irq 0#64).setWidth 32) op = result := ⟨_, rfl⟩
      have message : handlePciIntx (env proxy.outside.vmm).pci proxy.outside.vmm.pci self
          ((pciDevfn (irqWords irq op).mr1 0#64).setWidth 32) ((irqWords irq op).mr2.setWidth 32) = (pci, err) := by
        rw [irqWords_mr2]
        exact returns
      have ends := ask_answered [emudevCallback env self, controlCallback] (pci_callback env self proxy low message)
        (answer_taken err)
      rw [process_of_ask irqWords_op (asked.trans ends), processed_answer]
      simp only [slot, if_true, serveSlot, returns]
      rfl
    · have high : 32 ≤ irqOf (irqWords irq op) := by
        rw [irqIsPci, decide_eq_true_eq, BitVec.lt_def, ← number] at slot
        exact Nat.le_of_not_lt slot
      obtain ⟨⟨emudev, registered, err⟩, returns⟩ : ∃ result, emudevIrqSet (env proxy.outside.vmm)
        proxy.outside.vmm.emudev proxy.outside.vmm.registered self (irq.setWidth 32) op = result := ⟨_, rfl⟩
      have message : emudevIrqSet (env proxy.outside.vmm) proxy.outside.vmm.emudev proxy.outside.vmm.registered self
          ((irqWords irq op).mr1.setWidth 32) ((irqWords irq op).mr2.setWidth 32) = (emudev, registered, err) := by
        rw [irqWords_mr2]
        exact returns
      have passes := ask_passed [emudevCallback env self, controlCallback] (pci_callback_passes env self proxy high)
      have ends := ask_answered [controlCallback] (emudev_callback env self proxy message) (answer_taken err)
      rw [process_of_ask irqWords_op (asked.trans (passes.trans ends)), processed_answer]
      simp only [slot, serveEmulated, returns]
      rfl

end Irqline

section Others
variable (op : BitVec 32) (msg : Msg)

omit [DecidableEq P] [DecidableEq Handle] in
theorem msi_callback_passes {op : BitVec 32} {msg : Msg} (other : op ≠ qemuOpSetIrq) :
    msiCallback plat env proxy op msg = .ok (proxy, .none) := by
  cases plat with
  | none => rfl
  | some plat =>
    simp only [msiCallback, onShared, handleMsi, if_neg other]
    rfl

omit [DecidableEq Handle] in
theorem pci_callback_passes_other (set : op ≠ qemuOpSetIrq) (register : op ≠ qemuOpRegisterPciDev) :
    pciCallback env self proxy op msg = .ok (proxy, .none) := by
  simp only [pciCallback, onShared, handlePci, if_neg set, if_neg register]
  rfl

theorem emudev_callback_passes (set : op ≠ qemuOpSetIrq) (region : op ≠ qemuOpMmioRegionConfig) :
    emudevCallback env self proxy op msg = .ok (proxy, .none) := by
  simp only [emudevCallback, onShared, handleEmudev, if_neg set, if_neg region]
  rfl

theorem ask_from_pci {op : BitVec 32} {msg : Msg} (mmio : op ≠ qemuOpMmio) (set : op ≠ qemuOpSetIrq) :
    askCallbacks proxy op msg (rpcCallbacks plat env self) =
      askCallbacks proxy op msg [pciCallback env self, emudevCallback env self, controlCallback] :=
  (ask_passed (vmmCallbacks plat env self) (show handleMmio proxy op msg = .ok (proxy, .none) from if_pos mmio)).trans
    (ask_passed _ (msi_callback_passes plat env proxy set))

omit [DecidableEq P] [DecidableEq Handle] in
theorem control_callback : controlCallback proxy qemuOpStartVm msg = .ok ({ proxy with
    outside := { proxy.outside with okToRun := true, started := proxy.outside.started + 1 } }, .handled) := rfl

omit [DecidableEq Handle] in
theorem register_callback {pci : PciState P} {err : Int}
    (returns : pcidevRegister (env proxy.outside.vmm).pci proxy.outside.vmm.pci self
      ((pciDevfn msg.mr1 0#64).setWidth 32) = (pci, err)) :
    pciCallback env self proxy qemuOpRegisterPciDev msg =
      .ok ({ proxy with outside := { proxy.outside with vmm := { proxy.outside.vmm with pci } } }, answer err) := by
  have other : qemuOpRegisterPciDev ≠ qemuOpSetIrq := by decide
  simp only [pciCallback, onShared, handlePci, if_neg other, if_true, returns]
  rfl

theorem region_callback {mmio : MmioState P Handle} {err : Int}
    (returns : emudevMmioConfig (env proxy.outside.vmm) proxy.outside.vmm.emudev.mmio self msg.mr1 msg.mr2 msg.mr3 =
      (mmio, err)) :
    emudevCallback env self proxy qemuOpMmioRegionConfig msg =
      .ok ({ proxy with outside := { proxy.outside with vmm :=
        { proxy.outside.vmm with emudev := { proxy.outside.vmm.emudev with mmio } } } }, answer err) := by
  simp only [emudevCallback, onShared, handleEmudev, if_true, returns]
  rfl

end Others

/-- What the VMM does with the message of a call is what the call asks for. -/
theorem process_call (call : DeviceCall) : rpcProcess (rpcCallbacks plat env self) proxy call.words =
    .ok ({ proxy with outside := (call.serve plat env self proxy.outside).1 },
      (call.serve plat env self proxy.outside).2) := by
  cases call with
  | startVm =>
    have op : (rpcMr0Op.get DeviceCall.startVm.words.mr0).setWidth 32 = qemuOpStartVm := by decide
    have pci := pci_callback_passes_other env self proxy qemuOpStartVm DeviceCall.startVm.words (by decide) (by decide)
    have emudev := emudev_callback_passes env self proxy qemuOpStartVm DeviceCall.startVm.words (by decide) (by decide)
    have ends := (ask_passed [emudevCallback env self, controlCallback] pci).trans
      ((ask_passed [controlCallback] emudev).trans (ask_answered [] (control_callback proxy _) (by decide)))
    rw [process_of_ask op ((ask_from_pci plat env self proxy (by decide) (by decide)).trans ends)]
    rfl
  | createVpciDevice pcidev =>
    have op : (rpcMr0Op.get (DeviceCall.createVpciDevice pcidev).words.mr0).setWidth 32 = qemuOpRegisterPciDev := by
      have word : (DeviceCall.createVpciDevice pcidev).words.mr0 = 19#64 := rfl
      rw [word]
      decide
    obtain ⟨⟨pci, err⟩, returns⟩ : ∃ result, pcidevRegister (env proxy.outside.vmm).pci proxy.outside.vmm.pci self
      ((pciDevfn pcidev 0#64).setWidth 32) = result := ⟨_, rfl⟩
    have ends := ask_answered [emudevCallback env self, controlCallback]
      (register_callback env self proxy (DeviceCall.createVpciDevice pcidev).words returns) (answer_taken err)
    rw [process_of_ask op ((ask_from_pci plat env self proxy (by decide) (by decide)).trans ends), processed_answer]
    simp only [DeviceCall.serve, returns]
  | mmioRegionConfig gpa size flags =>
    have op : (rpcMr0Op.get (DeviceCall.mmioRegionConfig gpa size flags).words.mr0).setWidth 32 =
        qemuOpMmioRegionConfig := by
      have word : (DeviceCall.mmioRegionConfig gpa size flags).words.mr0 = 20#64 := rfl
      rw [word]
      decide
    obtain ⟨⟨mmio, err⟩, returns⟩ : ∃ result, emudevMmioConfig (env proxy.outside.vmm) proxy.outside.vmm.emudev.mmio
      self gpa size flags = result := ⟨_, rfl⟩
    have pci := pci_callback_passes_other env self proxy qemuOpMmioRegionConfig
      (DeviceCall.mmioRegionConfig gpa size flags).words (by decide) (by decide)
    have config := ask_answered [controlCallback]
      (region_callback env self proxy (DeviceCall.mmioRegionConfig gpa size flags).words returns)
      (answer_taken err)
    have ends := (ask_passed [emudevCallback env self, controlCallback] pci).trans config
    rw [process_of_ask op ((ask_from_pci plat env self proxy (by decide) (by decide)).trans ends), processed_answer]
    simp only [DeviceCall.serve, returns]
  | setIrqline irq =>
    have words : (DeviceCall.setIrqline irq).words = irqWords irq rpcIrqSet := rfl
    rw [words, process_irqline plat env self proxy (.inl rfl)]
    rfl
  | clearIrqline irq =>
    have words : (DeviceCall.clearIrqline irq).words = irqWords irq rpcIrqClr := rfl
    rw [words, process_irqline plat env self proxy (.inr (.inl rfl))]
    rfl
  | pulseIrqline irq =>
    have words : (DeviceCall.pulseIrqline irq).words = irqWords irq rpcIrqPulse := rfl
    rw [words, process_irqline plat env self proxy (.inr (.inr rfl))]
    rfl

end Process

end Virtioso.Vmm
