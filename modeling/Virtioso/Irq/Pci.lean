import Virtioso.Irq.SharedLine
import Virtioso.Ring.Queue

/-! Virtual PCI devices and their INTx interrupts, as in `libsel4vm_glue.c`.

A backend names its device by its own slot; the guest sees the device at the slot
the PCI space hands out. The guest slot selects one of the four INTx lines and is
the source on that line.
-/

set_option autoImplicit false

namespace Virtioso.Irq

open Virtioso.Ring (Msg)

/-- `RPCMSG_RC_ERROR`, `RPCMSG_RC_NONE`, `RPCMSG_RC_HANDLED`. -/
inductive Rc where
  | error
  | none
  | handled
  deriving DecidableEq, Repr

def qemuOpSetIrq : BitVec 32 := 16#32
def qemuOpRegisterPciDev : BitVec 32 := 19#32

def rpcIrqClr : BitVec 32 := 0#32
def rpcIrqSet : BitVec 32 := 1#32
def rpcIrqPulse : BitVec 32 := 2#32

/-- `PCI_NUM_AVAIL_DEVICES`: the bridge consumes one of the 32 slots. -/
def pciNumAvailDevices : Nat := 31

abbrev pciNumPins : Nat := 4

/-- `PCI_DEVFN`. -/
def pciDevfn {w : Nat} (slot func : BitVec w) : BitVec w :=
  ((slot &&& 0x1f#w) <<< 3) ||| (func &&& 0x07#w)

/-- `PCI_SLOT`. -/
def pciSlot (devfn : BitVec 32) : BitVec 32 := (devfn >>> 3) &&& 0x1f#32

/-- `pcidev_t`. -/
structure PciDev (Proxy : Type) where
  devfn : BitVec 32
  backendDevfn : BitVec 32
  ioProxy : Proxy

/-- `pci_devs` up to `pci_dev_count`, the INTx lines, and the calls of
`vm_set_irq_level` that succeeded, the latest first. -/
structure PciState (Proxy : Type) where
  pciDevs : List (PciDev Proxy)
  pciIntx : Fin pciNumPins → SharedIrqLine
  driven : List (BitVec 32 × Bool)

/-- What external functions do while a message is handled: whether `calloc` returns
memory, the slot and function `vmm_pci_add_entry` hands out, if any, and for which
level `vm_set_irq_level` succeeds. -/
structure External where
  allocated : Bool
  entry : Option (BitVec 8 × BitVec 8)
  accepts : Bool → Bool

variable {Proxy : Type} [DecidableEq Proxy]

/-- `irq_init`, with the platform's `INTERRUPT_PCI_INTX_BASE`. -/
def irqInit (base : BitVec 32) : PciState Proxy :=
  ⟨[], fun i => ⟨base + BitVec.ofNat 32 i.val, 0#64⟩, []⟩

/-- The level last driven on a guest interrupt; a line starts low. -/
def PciState.level (s : PciState Proxy) (irq : BitVec 32) : Bool :=
  ((s.driven.find? (·.1 == irq)).map Prod.snd).getD false

/-- `irq_is_pci`. -/
def irqIsPci (irq : BitVec 32) : Bool := irq < 32#32

/-- `pci_swizzle`. -/
def pciSwizzle (slot pin : Nat) : Fin pciNumPins := ⟨(slot + pin) % pciNumPins, Nat.mod_lt _ (by decide)⟩

/-- `pci_map_irq`. -/
def pciMapIrq (pcidev : PciDev Proxy) : Fin pciNumPins := pciSwizzle (pciSlot pcidev.devfn).toNat 0

def pciInterruptLine : BitVec 32 := 0x3c#32
def pciInterruptPin : BitVec 32 := 0x3d#32

/-- `pci_cfg_read8`; `read` is the value `pci_cfg_read` gets from the backend. -/
def pciCfgRead8 (base : BitVec 32) (read : BitVec 32 → BitVec 64) (pcidev : PciDev Proxy)
    (offset : BitVec 32) : BitVec 8 :=
  if offset = pciInterruptLine then (base + BitVec.ofNat 32 (pciMapIrq pcidev).val).setWidth 8
  else if offset = pciInterruptPin then BitVec.ofNat 8 ((pciMapIrq pcidev).val + 1)
  else (read offset).setWidth 8

/-- `pcidev_register`. -/
def pcidevRegister (ext : External) (s : PciState Proxy) (ioProxy : Proxy) (backendDevfn : BitVec 32) :
    PciState Proxy × Int :=
  if s.pciDevs.length ≥ pciNumAvailDevices then (s, -1)
  else if !ext.allocated then (s, -1)
  else
    match ext.entry with
    | none => (s, -1)
    | some (dev, func) =>
        let devfn := pciDevfn (dev.setWidth 32) (func.setWidth 32)
        ({ s with pciDevs := s.pciDevs ++ [⟨devfn, backendDevfn, ioProxy⟩] }, 0)

/-- `pcidev_find`: the first match in the order of registration. -/
def pcidevFind (s : PciState Proxy) (ioProxy : Proxy) (backendDevfn : BitVec 32) : Option (PciDev Proxy) :=
  s.pciDevs.find? fun dev => dev.ioProxy == ioProxy && dev.backendDevfn == backendDevfn

/-- `pcidev_intx_set`. -/
def pcidevIntxSet (ext : External) (s : PciState Proxy) (ioProxy : Proxy) (backendDevfn : BitVec 32)
    (level : Bool) : PciState Proxy × Int :=
  if !irqIsPci (pciSlot backendDevfn) then (s, -1)
  else
    match pcidevFind s ioProxy backendDevfn with
    | none => (s, -1)
    | some pcidev =>
        let i := pciMapIrq pcidev
        let change := sharedIrqLineChange ext.accepts (s.pciIntx i) (pciSlot pcidev.devfn) level
        let driven := (change.drive.filter ext.accepts).map fun level => (change.line.irq, level)
        ({ s with
          pciIntx := Function.update s.pciIntx i change.line
          driven := driven.toList ++ s.driven }, change.code)

/-- `handle_pci_intx`. -/
def handlePciIntx (ext : External) (s : PciState Proxy) (ioProxy : Proxy) (backendDevfn irqOp : BitVec 32) :
    PciState Proxy × Int :=
  if irqOp = rpcIrqSet then pcidevIntxSet ext s ioProxy backendDevfn true
  else if irqOp = rpcIrqClr then pcidevIntxSet ext s ioProxy backendDevfn false
  else if irqOp = rpcIrqPulse then
    let (s, err) := pcidevIntxSet ext s ioProxy backendDevfn true
    if err ≠ 0 then (s, err) else pcidevIntxSet ext s ioProxy backendDevfn false
  else (s, -1)

/-- `handle_pci`. The 64-bit words are cut to `uint32_t` where they are passed on. -/
def handlePci (ext : External) (s : PciState Proxy) (ioProxy : Proxy) (op : BitVec 32) (msg : Msg) :
    PciState Proxy × Rc :=
  let backendDevfn := (pciDevfn msg.mr1 0#64).setWidth 32
  if op = qemuOpSetIrq then
    if !irqIsPci (msg.mr1.setWidth 32) then (s, .none)
    else
      let (s, err) := handlePciIntx ext s ioProxy backendDevfn (msg.mr2.setWidth 32)
      (s, if err ≠ 0 then .error else .handled)
  else if op = qemuOpRegisterPciDev then
    let (s, err) := pcidevRegister ext s ioProxy backendDevfn
    (s, if err ≠ 0 then .error else .handled)
  else (s, .none)

end Virtioso.Irq
