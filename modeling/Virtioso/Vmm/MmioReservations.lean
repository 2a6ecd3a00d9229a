import Virtioso.Foundation.Runs
import Virtioso.Vmm.Lists

/-! Reservations of guest memory for MMIO regions, as in `mmio_reservations.c`.

A region is reserved twice: with the VM, which hands out a reservation object, and in
the registry, which keeps that object until the region is freed. The objects the
VM has handed out and not taken back are part of the state.
-/

set_option autoImplicit false

namespace Virtioso.Vmm

open Foundation

/-- What identifies a reservation: the fields `mmio_res_cmp` looks at. -/
structure Region (Proxy : Type) where
  addr : BitVec 64
  size : BitVec 64
  ioProxy : Proxy
  deriving DecidableEq, Repr

/-- `mmio_reservation_t`. -/
structure MmioReservation (Proxy Handle : Type) extends Region Proxy where
  res : Handle
  deriving DecidableEq, Repr

/-- `mmio_reservations`, and the reservation objects of the VM made through it that are
not freed, each with the region it was made for. -/
structure MmioState (Proxy Handle : Type) where
  mmioReservations : List (MmioReservation Proxy Handle)
  live : List (Handle × Region Proxy)
  deriving DecidableEq, Repr

/-- What external functions do during one call: the object `vm_reserve_memory_at` returns
if it succeeds, whether `calloc` returns memory, and the return codes of `list_append` and
`vm_reservation_free`. -/
structure MmioExternal (Handle : Type) where
  reserved : Option Handle
  allocated : Bool
  appended : Int
  freed : Int
  deriving DecidableEq, Repr

variable {Proxy Handle : Type} [DecidableEq Proxy] [DecidableEq Handle]

/-- `mmio_res_cmp`. -/
def mmioResCmp (a : MmioReservation Proxy Handle) (b : Region Proxy) : Bool :=
  !(a.addr == b.addr && a.size == b.size && a.ioProxy == b.ioProxy)

/-- `mmio_res_init`. -/
def MmioState.init (s : MmioState Proxy Handle) : MmioState Proxy Handle := { s with mmioReservations := [] }

/-- `mmio_res_assign`. -/
def mmioResAssign (ext : MmioExternal Handle) (s : MmioState Proxy Handle) (region : Region Proxy) :
    MmioState Proxy Handle × Int :=
  match ext.reserved with
  | none => (s, -1)
  | some res =>
      let s := { s with live := s.live ++ [(res, region)] }
      if !ext.allocated then (s, -1)
      else
        let (mmioReservations, err) := listAppend ext.appended s.mmioReservations ⟨region, res⟩
        ({ s with mmioReservations }, err)

/-- `vm_reservation_free`. -/
def vmReservationFree (err : Int) (live : List (Handle × Region Proxy)) (res : Handle) :
    List (Handle × Region Proxy) × Int :=
  if err ≠ 0 then (live, err) else (live.filter fun made => made.1 ≠ res, 0)

/-- `mmio_res_free`. The return code of `list_remove` is only logged. -/
def mmioResFree (ext : MmioExternal Handle) (s : MmioState Proxy Handle) (region : Region Proxy) :
    MmioState Proxy Handle × Int :=
  match listItem s.mmioReservations region mmioResCmp with
  | none => (s, -1)
  | some mmio =>
      let (mmioReservations, _) := listRemove s.mmioReservations region mmioResCmp
      let (live, err) := vmReservationFree ext.freed s.live mmio.res
      (⟨mmioReservations, live⟩, err)

omit [DecidableEq Handle] in
theorem mmioResCmp_eq_false {a : MmioReservation Proxy Handle} {b : Region Proxy} :
    mmioResCmp a b = false ↔ a.toRegion = b := by
  obtain ⟨⟨addr, size, ioProxy⟩, res⟩ := a
  obtain ⟨addr', size', ioProxy'⟩ := b
  simp [mmioResCmp, and_assoc]

/-! ### Sequences of calls -/

inductive MmioCall (Proxy Handle : Type) where
  | assign (ext : MmioExternal Handle) (region : Region Proxy)
  | free (ext : MmioExternal Handle) (region : Region Proxy)
  deriving DecidableEq, Repr

def MmioState.initial : MmioState Proxy Handle := ⟨[], []⟩

def MmioState.perform (s : MmioState Proxy Handle) : MmioCall Proxy Handle → MmioState Proxy Handle × Int
  | .assign ext region => mmioResAssign ext s region
  | .free ext region => mmioResFree ext s region

def MmioState.after (s : MmioState Proxy Handle) (call : MmioCall Proxy Handle) : MmioState Proxy Handle :=
  (s.perform call).1

/-- An object that `vm_reserve_memory_at` returns is not one it has handed out already. -/
def Fresh (s : MmioState Proxy Handle) : MmioCall Proxy Handle → Prop
  | .assign ext _ => ∀ res ∈ ext.reserved, res ∉ s.live.map Prod.fst
  | .free _ _ => True

/-- The live objects are those the registry refers to, each from one entry, which
records the region it was made for. -/
def Corresponds (s : MmioState Proxy Handle) : Prop :=
  (s.live.map Prod.fst).Nodup ∧
    s.live.Perm (s.mmioReservations.map fun mmio => (mmio.res, mmio.toRegion))

/-- What a call has to leave behind. An object that is not live after the call was made
for the region that the call frees. -/
structure Kept (s : MmioState Proxy Handle) (call : MmioCall Proxy Handle) : Prop where
  corresponds : Corresponds (s.after call)
  error : (s.perform call).2 ≠ 0 → s.after call = s
  released : ∀ made ∈ s.live, made ∉ (s.after call).live → ∃ ext, call = .free ext made.2

/-- No external call fails after another one that it would have to be undone for. -/
def Undisturbed (s : MmioState Proxy Handle) : MmioCall Proxy Handle → Prop
  | .assign ext _ => ext.reserved.isSome → ext.allocated = true ∧ ext.appended = 0
  | .free ext region => (∃ mmio ∈ s.mmioReservations, mmio.toRegion = region) → ext.freed = 0

end Virtioso.Vmm
