import Virtioso.Vmm.Platform

/-! Several io_proxies in one VM, initialised one after the other.

`libsel4vm_io_proxy_init` runs for each of them, and with it the initialisers of the
INTx lines, the MSI frame and the two registries, which belong to the whole VMM. The
VM refuses a range that overlaps a reserved one and an interrupt registered already;
every other external call succeeds.
-/

set_option autoImplicit false

namespace Virtioso.Vmm

open Irq Rpc Proxy

structure Range where
  addr : BitVec 64
  size : BitVec 64
  deriving DecidableEq, Repr

def Range.Overlaps (a b : Range) : Prop :=
  max a.addr.toNat b.addr.toNat < min (a.addr.toNat + a.size.toNat) (b.addr.toNat + b.size.toNat)

instance (a b : Range) : Decidable (a.Overlaps b) := inferInstanceAs (Decidable (_ < _))

/-- The VMM of one VM: `done` is the static of `irq_init`, `fixed` are the ranges reserved
otherwise than for MMIO regions, and `proxies` those initialised, the latest first. -/
structure Backends (P Handle : Type) where
  vmm : VmmState P Handle
  done : Bool
  fixed : List Range
  proxies : List P

variable {P Handle : Type} [DecidableEq P] [DecidableEq Handle]

def Backends.reserved (s : Backends P Handle) : List Range :=
  s.fixed ++ s.vmm.emudev.mmio.live.map fun made => ⟨made.2.addr, made.2.size⟩

/-- `vm_reserve_memory_at` succeeds on this range. -/
def Backends.Free (s : Backends P Handle) (range : Range) : Prop := ∀ other ∈ s.reserved, ¬range.Overlaps other

instance (s : Backends P Handle) (range : Range) : Decidable (s.Free range) :=
  inferInstanceAs (Decidable (∀ other ∈ _, _))

/-- `vm_reserve_memory_at` outside the registry. -/
def Backends.reserve (s : Backends P Handle) (range : Range) : Option (Backends P Handle) :=
  if s.Free range then some { s with fixed := s.fixed ++ [range] } else none

/-- The loop of `irq_init` over the INTx lines that are left. -/
def initPins (base : BitVec 32) : List (Fin pciNumPins) → (Fin pciNumPins → SharedIrqLine) → Registered →
    (Fin pciNumPins → SharedIrqLine) × Registered × Int
  | [], lines, registered => (lines, registered, 0)
  | i :: rest, lines, registered =>
      let irq := base + BitVec.ofNat 32 i.val
      let lines := Function.update lines i ⟨irq, 0#64⟩
      let (registered, err) := vmRegisterIrq refusesSecond registered irq
      if err ≠ 0 then (lines, registered, -1) else initPins base rest lines registered

/-- `irq_init`, with the platform's `INTERRUPT_PCI_INTX_BASE`. -/
def Backends.irqInit (base : BitVec 32) (s : Backends P Handle) : Backends P Handle × Int :=
  if s.done then (s, 0)
  else
    let (pciIntx, registered, err) :=
      initPins base (List.finRange pciNumPins) s.vmm.pci.pciIntx s.vmm.registered
    let s := { s with vmm := { s.vmm with pci := { s.vmm.pci with pciIntx }, registered } }
    if err ≠ 0 then (s, -1) else ({ s with done := true }, 0)

/-- `msi_init`, of a platform with an MSI frame or of `src/msi.c`. -/
def Backends.msiInit (plat : Option Plat) (s : Backends P Handle) : Backends P Handle × Int :=
  match plat with
  | none => (s, 0)
  | some plat =>
      let frame := v2m plat s.vmm.msi.irq
      let (frame, registered, err) :=
        v2mInit refusesSecond (fun addr size => s.Free ⟨addr, size⟩) frame s.vmm.registered
      let s := { s with vmm := { s.vmm with msi := { s.vmm.msi with irq := frame.irq }, registered } }
      if err ≠ 0 then (s, err) else ({ s with fixed := s.fixed ++ [⟨frame.base, frame.size⟩] }, 0)

/-- `emudev_init`: both lists start over. -/
def Backends.emudevInit (s : Backends P Handle) : Backends P Handle :=
  { s with vmm := { s.vmm with emudev := { s.vmm.emudev with irqs := [], mmio := s.vmm.emudev.mmio.init } } }

structure Config (P : Type) where
  plat : Option Plat
  intxBase : BitVec 32
  ctrl : P → Range

/-- `libsel4vm_io_proxy_init`; `none` where the control region cannot be reserved, which
ends the VMM. What the backend sends while it starts is a message of its own. -/
def Backends.ioProxyInit (config : Config P) (s : Backends P Handle) (ioProxy : P) :
    Option (Backends P Handle × Int) := do
  let s ← s.reserve (config.ctrl ioProxy)
  let (s, err) := s.irqInit config.intxBase
  if err ≠ 0 then return (s, -1)
  let (s, err) := s.msiInit config.plat
  if err ≠ 0 then return (s, -1)
  let s := s.emudevInit
  return ({ s with proxies := ioProxy :: s.proxies }, 0)

/-- The VM answers by its reservations; `res` is the object it returns for a new one. -/
def Backends.environment (s : Backends P Handle) (msg : Ring.Msg) (res : Handle) : Environment P Handle := fun _ =>
  { allocated := true
    appended := 0
    registers := refusesSecond
    mmio := ⟨if s.Free ⟨msg.mr1, msg.mr2⟩ then some res else none, true, 0, 0⟩
    pci := ⟨true, none, fun _ => true⟩ }

/-- `rpc_process` of a message of `ioProxy`, whatever the rest of the proxy is. -/
def Backends.process (config : Config P) (s : Backends P Handle) (ioProxy : P) (proxy : IoProxy (Shared P Handle))
    (msg : Ring.Msg) (res : Handle) : Except Fault (Backends P Handle × Int) := do
  let proxy := { proxy with outside := { proxy.outside with vmm := s.vmm } }
  let (proxy, rc) ← rpcProcess (rpcCallbacks config.plat (s.environment msg res) ioProxy) proxy msg
  return ({ s with vmm := proxy.outside.vmm }, rc)

inductive BackendAction (P Handle : Type) where
  | init (ioProxy : P)
  | message (ioProxy : P) (proxy : IoProxy (Shared P Handle)) (msg : Ring.Msg) (res : Handle)

/-- The state after an action; a VMM that stops stays as it was. -/
def Backends.after (config : Config P) (s : Backends P Handle) : BackendAction P Handle → Backends P Handle
  | .init ioProxy => ((s.ioProxyInit config ioProxy).map Prod.fst).getD s
  | .message ioProxy proxy msg res =>
      match s.process config ioProxy proxy msg res with
      | .ok (t, _) => t
      | .error _ => s

/-- Before the first io_proxy: other components have reserved ranges and interrupts. -/
def Backends.start (fixed : List Range) (registered : Registered) : Backends P Handle where
  vmm := ⟨⟨fun _ => ⟨0#32, ()⟩, []⟩, ⟨[], fun _ => ⟨0#32, 0#64⟩, []⟩, ⟨[], .initial, []⟩, registered⟩
  done := false
  fixed := fixed
  proxies := []

end Virtioso.Vmm
