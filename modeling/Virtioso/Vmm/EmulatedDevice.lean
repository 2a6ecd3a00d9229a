import Virtioso.Irq.Line
import Virtioso.Irq.Pci
import Virtioso.Vmm.MmioReservations

/-! Emulated devices: interrupts registered on first use, and MMIO regions.

The registry of interrupts is the one of `irq_reservations.c`; `emulated_device.c`
serves the messages of the backends from it and from the registry of regions.
-/

set_option autoImplicit false

namespace Virtioso.Vmm

open Irq

def qemuOpMmioRegionConfig : BitVec 32 := 20#32

/-- `SEL4_MMIO_REGION_FREE`, an `unsigned int`. -/
def sel4MmioRegionFree : BitVec 32 := 1#32

/-- What external functions do while a message is handled: whether `calloc` returns memory for
an interrupt, the return code of `list_append` for it, whether `vm_register_irq` succeeds, and
what the other subsystems ask for. All levels of `vm_set_irq_level` are in `pci`. -/
structure VmmExternal (Handle : Type) where
  allocated : Bool
  appended : Int
  registers : Registered → BitVec 32 → Bool
  mmio : MmioExternal Handle
  pci : External

/-- `irqs` and `mmio_reservations`, and the levels driven for emulated devices. -/
structure EmuDev (Proxy Handle : Type) where
  irqs : List (IrqLine Proxy)
  mmio : MmioState Proxy Handle
  driven : Driven

variable {Proxy Handle : Type} [DecidableEq Proxy] [DecidableEq Handle]

/-- `irq_line_cmp`. -/
def irqLineCmp (a b : IrqLine Proxy) : Bool := !(a.irq == b.irq && a.cookie == b.cookie)

/-- `irq_res_find`. -/
def irqResFind (irqs : List (IrqLine Proxy)) (ioProxy : Proxy) (irq : BitVec 32) : Option (IrqLine Proxy) :=
  listItem irqs ⟨irq, ioProxy⟩ irqLineCmp

/-- `irq_res_assign`. -/
def irqResAssign (ext : VmmExternal Handle) (irqs : List (IrqLine Proxy)) (registered : Registered)
    (ioProxy : Proxy) (irq : BitVec 32) : List (IrqLine Proxy) × Registered × Int :=
  if !ext.allocated then (irqs, registered, -1)
  else
    let (irqLine, registered, err) := irqLineInit ext.registers registered irq ioProxy
    if err ≠ 0 then (irqs, registered, err)
    else
      let (irqs, err) := listAppend ext.appended irqs irqLine
      (irqs, registered, err)

/-- `irq_is_emulated_device`. -/
def irqIsEmulatedDevice (irq : BitVec 32) : Bool := irq ≥ 32#32

/-- `emudev_irq_register`. -/
def emudevIrqRegister (ext : VmmExternal Handle) (irqs : List (IrqLine Proxy)) (registered : Registered)
    (ioProxy : Proxy) (irq : BitVec 32) : List (IrqLine Proxy) × Registered × Option (IrqLine Proxy) :=
  let (irqs, registered, err) := irqResAssign ext irqs registered ioProxy irq
  if err ≠ 0 then (irqs, registered, none) else (irqs, registered, irqResFind irqs ioProxy irq)

/-- The `switch` of `emudev_irq_set`. -/
def emudevIrqOp (accepts : Bool → Bool) (driven : Driven) (irqLine : IrqLine Proxy) (op : BitVec 32) :
    Driven × Int :=
  if op = rpcIrqSet then irqLineChange accepts driven irqLine true
  else if op = rpcIrqClr then irqLineChange accepts driven irqLine false
  else if op = rpcIrqPulse then irqLinePulse accepts driven irqLine
  else (driven, -1)

/-- `emudev_irq_set`. -/
def emudevIrqSet (ext : VmmExternal Handle) (s : EmuDev Proxy Handle) (registered : Registered)
    (ioProxy : Proxy) (irq op : BitVec 32) : EmuDev Proxy Handle × Registered × Int :=
  if !irqIsEmulatedDevice irq then (s, registered, -1)
  else
    let (irqs, registered, irqLine) :=
      match irqResFind s.irqs ioProxy irq with
      | some irqLine => (s.irqs, registered, some irqLine)
      | none => emudevIrqRegister ext s.irqs registered ioProxy irq
    match irqLine with
    | none => ({ s with irqs }, registered, -1)
    | some irqLine =>
        let (driven, err) := emudevIrqOp ext.pci.accepts s.driven irqLine op
        ({ s with irqs, driven }, registered, err)

/-- `emudev_mmio_config`. The complement is computed in 32 bits. -/
def emudevMmioConfig (ext : VmmExternal Handle) (s : MmioState Proxy Handle) (ioProxy : Proxy)
    (addr size flags : BitVec 64) : MmioState Proxy Handle × Int :=
  if flags &&& (~~~sel4MmioRegionFree).setWidth 64 ≠ 0#64 then (s, -1)
  else if flags &&& sel4MmioRegionFree.setWidth 64 ≠ 0#64 then mmioResFree ext.mmio s ⟨addr, size, ioProxy⟩
  else mmioResAssign ext.mmio s ⟨addr, size, ioProxy⟩

/-- `handle_emudev`. -/
def handleEmudev (ext : VmmExternal Handle) (s : EmuDev Proxy Handle) (registered : Registered)
    (ioProxy : Proxy) (op : BitVec 32) (msg : Ring.Msg) : EmuDev Proxy Handle × Registered × Rc :=
  if op = qemuOpMmioRegionConfig then
    let (mmio, err) := emudevMmioConfig ext s.mmio ioProxy msg.mr1 msg.mr2 msg.mr3
    ({ s with mmio }, registered, if err ≠ 0 then .error else .handled)
  else if op = qemuOpSetIrq then
    let (s, registered, err) := emudevIrqSet ext s registered ioProxy (msg.mr1.setWidth 32) (msg.mr2.setWidth 32)
    (s, registered, if err ≠ 0 then .error else .handled)
  else (s, registered, .none)

/-! ### The registry of interrupts -/

section Registry
variable {irqs : List (IrqLine Proxy)} {ioProxy : Proxy} {irq : BitVec 32} {registered : Registered}
variable {ext : VmmExternal Handle}

omit [DecidableEq Handle] in
theorem irqLineCmp_eq_false {a b : IrqLine Proxy} : irqLineCmp a b = false ↔ a = b := by
  obtain ⟨irq, cookie⟩ := a
  obtain ⟨irq', cookie'⟩ := b
  simp [irqLineCmp]

theorem irqResFind_eq : irqResFind irqs ioProxy irq = if ⟨irq, ioProxy⟩ ∈ irqs then some ⟨irq, ioProxy⟩ else none := by
  cases found : irqResFind irqs ioProxy irq with
  | none =>
    have differs := List.find?_eq_none.mp found
    have absent : (⟨irq, ioProxy⟩ : IrqLine Proxy) ∉ irqs := by
      intro inside
      have same := differs _ inside
      rw [irqLineCmp_eq_false.mpr rfl] at same
      exact same rfl
    rw [if_neg absent]
  | some irqLine =>
    have same := List.find?_some found
    have inside := List.mem_of_find?_eq_some found
    have key : irqLine = ⟨irq, ioProxy⟩ := irqLineCmp_eq_false.mp (by simpa using same)
    subst key
    rw [if_pos inside]

omit [DecidableEq Proxy] [DecidableEq Handle] in
theorem irqResAssign_eq : irqResAssign ext irqs registered ioProxy irq =
    if ext.allocated = true ∧ ext.registers registered irq = true then
      if ext.appended = 0 then (irqs ++ [⟨irq, ioProxy⟩], irq :: registered, 0)
      else (irqs, irq :: registered, ext.appended)
    else (irqs, registered, -1) := by
  cases allocated : ext.allocated with
  | false => simp [irqResAssign, allocated]
  | true =>
    cases accepted : ext.registers registered irq with
    | false => simp [irqResAssign, allocated, irqLineInit_refused accepted]
    | true =>
      by_cases appended : ext.appended = 0
      · simp [irqResAssign, allocated, irqLineInit_accepted accepted, listAppend, appended]
      · simp [irqResAssign, allocated, irqLineInit_accepted accepted, listAppend, appended]

omit [DecidableEq Handle] in
/-- A registration ends in the record it asked for, or in none. -/
theorem emudevIrqRegister_eq : emudevIrqRegister ext irqs registered ioProxy irq =
    if ext.allocated = true ∧ ext.registers registered irq = true then
      if ext.appended = 0 then (irqs ++ [⟨irq, ioProxy⟩], irq :: registered, some ⟨irq, ioProxy⟩)
      else (irqs, irq :: registered, none)
    else (irqs, registered, none) := by
  have added : irqResFind (irqs ++ [⟨irq, ioProxy⟩]) ioProxy irq = some ⟨irq, ioProxy⟩ := by
    rw [irqResFind_eq, if_pos (List.mem_append_right _ (List.mem_singleton_self _))]
  rw [emudevIrqRegister, irqResAssign_eq]
  by_cases registers : ext.allocated = true ∧ ext.registers registered irq = true
  · rw [if_pos registers, if_pos registers]
    by_cases appended : ext.appended = 0
    · rw [if_pos appended, if_pos appended]
      simp only [ne_eq, not_true_eq_false, if_false, added]
    · rw [if_neg appended, if_neg appended]
      exact if_pos appended
  · rw [if_neg registers, if_neg registers]
    rfl

end Registry

end Virtioso.Vmm
