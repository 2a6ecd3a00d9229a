import Virtioso.Irq.Gicv2m
import Virtioso.Proxy.Dispatch
import Virtioso.Vmm.EmulatedDevice

/-! The subsystems of the VMM that serve interrupt and region messages.

The MSI frame, the PCI code and the emulated devices each keep a state of their own;
the interrupts registered with the VM are shared. `rpc_callbacks` asks them in turn.
-/

set_option autoImplicit false

namespace Virtioso.Vmm

open Irq Rpc Proxy

def qemuOpStartVm : BitVec 32 := 18#32

/-- The lines of `v2m`, and the levels driven on them. -/
structure MsiState where
  irq : Fin gicv2mIrqMax → IrqLine Unit
  driven : Driven

structure VmmState (P Handle : Type) where
  msi : MsiState
  pci : PciState P
  emudev : EmuDev P Handle
  registered : Registered

structure Shared (P Handle : Type) where
  vmm : VmmState P Handle
  okToRun : Bool
  /-- posts of `backend_started` -/
  started : Nat

variable {P Handle : Type} [DecidableEq P] [DecidableEq Handle]

/-- `msi_irq_set`; `none` is an access out of bounds. -/
def msiIrqSet (plat : Plat) (accepts : Bool → Bool) (s : MsiState) (irq op : BitVec 32) : Option (MsiState × Rc) :=
  if !v2mIrqValid (v2m plat s.irq) irq then some (s, .none)
  else if op = rpcIrqSet ∨ op = rpcIrqPulse then
    (v2mInjectIrq accepts (v2m plat s.irq) s.driven irq).map fun (driven, err) =>
      ({ s with driven }, if err ≠ 0 then .error else .handled)
  else if op = rpcIrqClr then some (s, .handled)
  else some (s, .error)

/-- `handle_msi`, of a platform with an MSI frame or of `src/msi.c`. -/
def handleMsi (plat : Option Plat) (accepts : Bool → Bool) (s : MsiState) (op : BitVec 32) (msg : Ring.Msg) :
    Option (MsiState × Rc) :=
  match plat with
  | none => some (s, .none)
  | some plat =>
      if op = qemuOpSetIrq then msiIrqSet plat accepts s (msg.mr1.setWidth 32) (msg.mr2.setWidth 32)
      else some (s, .none)

/-- `handle_control`. -/
def handleControl (s : Shared P Handle) (op : BitVec 32) : Shared P Handle × Rc :=
  if op = qemuOpStartVm then ({ s with okToRun := true, started := s.started + 1 }, .handled)
  else (s, .none)

/-- What external functions do may depend on the state of the VMM they find. -/
abbrev Environment (P Handle : Type) := VmmState P Handle → VmmExternal Handle

/-- A handler as `rpc_process` calls it. -/
def onShared (handler : Shared P Handle → BitVec 32 → Ring.Msg → Option (Shared P Handle × Rc)) :
    RpcCallback (Shared P Handle) := fun proxy op msg =>
  match handler proxy.outside op msg with
  | none => throw .outOfBounds
  | some (outside, rc) => return ({ proxy with outside }, rc)

section
variable (plat : Option Plat) (env : Environment P Handle) (self : P)

def msiCallback : RpcCallback (Shared P Handle) := onShared fun s op msg =>
  (handleMsi plat (env s.vmm).pci.accepts s.vmm.msi op msg).map fun (msi, rc) =>
    ({ s with vmm := { s.vmm with msi } }, rc)

def pciCallback : RpcCallback (Shared P Handle) := onShared fun s op msg =>
  let (pci, rc) := handlePci (env s.vmm).pci s.vmm.pci self op msg
  some ({ s with vmm := { s.vmm with pci } }, rc)

def emudevCallback : RpcCallback (Shared P Handle) := onShared fun s op msg =>
  let (emudev, registered, rc) := handleEmudev (env s.vmm) s.vmm.emudev s.vmm.registered self op msg
  some ({ s with vmm := { s.vmm with emudev, registered } }, rc)

def controlCallback : RpcCallback (Shared P Handle) := onShared fun s op _ => some (handleControl s op)

/-- `rpc_callbacks` after `handle_mmio`, of the io_proxy `self`. -/
def vmmCallbacks : List (RpcCallback (Shared P Handle)) :=
  [msiCallback plat env, pciCallback env self, emudevCallback env self, controlCallback]

/-- `rpc_callbacks`. -/
def rpcCallbacks : List (RpcCallback (Shared P Handle)) := handleMmio :: vmmCallbacks plat env self

end

end Virtioso.Vmm
