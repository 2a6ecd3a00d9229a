import Virtioso.Irq.Routing
import Virtioso.Proxy.Completion
import Virtioso.Vmm.Backends
import Virtioso.Vmm.Rejection

/-! What one backend's messages do to the other backends.

All io_proxies share the PCI space, the INTx lines, the registry of interrupts, the
registry of regions and the reservations of the VM. A message of one of them leaves
everything the others have there as it was, whatever it contains, unless it completes the
MMIO slot behind the table of callbacks, where the program leaves its arrays.
-/

set_option autoImplicit false

namespace Virtioso.Vmm

open Foundation Irq Rpc Proxy

variable {P Handle : Type} [DecidableEq P]

def asserts (s : PciState P) (pcidev : PciDev P) : Bool :=
  (s.pciIntx (pciMapIrq pcidev)).sources.getLsbD (pciSlot pcidev.devfn).toNat

/-- All levels driven on an interrupt, by whichever part of the VMM. -/
def VmmState.drivenOn (s : VmmState P Handle) (irq : BitVec 32) : Driven :=
  (s.msi.driven ++ s.pci.driven ++ s.emudev.driven).filter fun call => call.1 = irq

/-- What the VMM has for one io_proxy: its PCI devices and whether they assert their lines,
its interrupts and the levels driven on them, its regions and their reservations. -/
structure SameFor (ioProxy : P) (s t : VmmState P Handle) : Prop where
  pciDevs : t.pci.pciDevs.filter (·.ioProxy = ioProxy) = s.pci.pciDevs.filter (·.ioProxy = ioProxy)
  asserted : ∀ pcidev ∈ s.pci.pciDevs, pcidev.ioProxy = ioProxy → asserts t.pci pcidev = asserts s.pci pcidev
  irqs : t.emudev.irqs.filter (·.cookie = ioProxy) = s.emudev.irqs.filter (·.cookie = ioProxy)
  driven : ∀ irqLine ∈ s.emudev.irqs, irqLine.cookie = ioProxy → t.drivenOn irqLine.irq = s.drivenOn irqLine.irq
  regions : t.emudev.mmio.mmioReservations.filter (·.ioProxy = ioProxy) =
    s.emudev.mmio.mmioReservations.filter (·.ioProxy = ioProxy)
  live : t.emudev.mmio.live.filter (·.2.ioProxy = ioProxy) = s.emudev.mmio.live.filter (·.2.ioProxy = ioProxy)

/-- What the external functions keep to: an interrupt is registered once, a PCI entry gets
a slot that no device has, and a reservation object is not one that is still live. -/
structure Honest (env : Environment P Handle) : Prop where
  registers : ∀ s registered irq, (env s).registers registered irq = true → irq ∉ registered
  entry : ∀ s dev func, (env s).pci.entry = some (dev, func) →
    dev.toNat < 32 ∧ func = 0#8 ∧ ∀ pcidev ∈ s.pci.pciDevs, (pciSlot pcidev.devfn).toNat ≠ dev.toNat
  reserved : ∀ s res, (env s).mmio.reserved = some res → res ∉ s.emudev.mmio.live.map Prod.fst

def VmmState.Wired (plat : Option Plat) (s : VmmState P Handle) (irq : BitVec 32) : Prop :=
  (∃ i, (s.pci.pciIntx i).irq = irq) ∨
    ∃ p ∈ plat, ∃ k : Fin gicv2mIrqMax, k.val < (v2m p s.msi.irq).numIrq.toNat ∧ (s.msi.irq k).irq = irq

structure OwnObjects (s : MmioState P Handle) : Prop where
  live : (s.live.map Prod.fst).Nodup
  objects : (s.mmioReservations.map (·.res)).Nodup
  made : ∀ mmio ∈ s.mmioReservations, (mmio.res, mmio.toRegion) ∈ s.live

structure Separate (plat : Option Plat) (s : VmmState P Handle) : Prop where
  slots : (s.pci.pciDevs.map fun pcidev => (pciSlot pcidev.devfn).toNat).Nodup
  numbers : (s.emudev.irqs.map (·.irq)).Nodup
  known : ∀ irqLine ∈ s.emudev.irqs, irqLine.irq ∈ s.registered
  taken : ∀ irq, s.Wired plat irq → irq ∈ s.registered
  apart : ∀ irqLine ∈ s.emudev.irqs, ¬s.Wired plat irqLine.irq
  mmio : OwnObjects s.emudev.mmio

def Contained (plat : Option Plat) (self : P) (s t : VmmState P Handle) : Prop :=
  Separate plat s → Separate plat t ∧ ∀ ioProxy, ioProxy ≠ self → SameFor ioProxy s t

section Relations
variable {plat : Option Plat} {self ioProxy : P} {s t u : VmmState P Handle}

theorem SameFor.refl (ioProxy : P) (s : VmmState P Handle) : SameFor ioProxy s s :=
  ⟨rfl, fun _ _ _ => rfl, rfl, fun _ _ _ => rfl, rfl, rfl⟩

theorem SameFor.trans (first : SameFor ioProxy s t) (next : SameFor ioProxy t u) : SameFor ioProxy s u where
  pciDevs := next.pciDevs.trans first.pciDevs
  asserted pcidev member own := by
    have kept : pcidev ∈ t.pci.pciDevs.filter (·.ioProxy = ioProxy) := by
      rw [first.pciDevs]
      exact List.mem_filter.mpr ⟨member, decide_eq_true own⟩
    exact (next.asserted pcidev (List.mem_filter.mp kept).1 own).trans (first.asserted pcidev member own)
  irqs := next.irqs.trans first.irqs
  driven irqLine member own := by
    have kept : irqLine ∈ t.emudev.irqs.filter (·.cookie = ioProxy) := by
      rw [first.irqs]
      exact List.mem_filter.mpr ⟨member, decide_eq_true own⟩
    exact (next.driven irqLine (List.mem_filter.mp kept).1 own).trans (first.driven irqLine member own)
  regions := next.regions.trans first.regions
  live := next.live.trans first.live

theorem Contained.refl (s : VmmState P Handle) : Contained plat self s s :=
  fun separate => ⟨separate, fun ioProxy _ => .refl ioProxy s⟩

theorem Contained.trans (first : Contained plat self s t) (next : Contained plat self t u) :
    Contained plat self s u := by
  intro separate
  obtain ⟨between, left⟩ := first separate
  obtain ⟨after, right⟩ := next between
  exact ⟨after, fun ioProxy other => (left ioProxy other).trans (right ioProxy other)⟩

end Relations

/-! ### The INTx lines -/

structure IntxOnly (owner : P) (s t : PciState P) : Prop where
  pciDevs : t.pciDevs = s.pciDevs
  irq : ∀ i, (t.pciIntx i).irq = (s.pciIntx i).irq
  sources : ∀ i slot, slot < 32 → (∀ pcidev ∈ s.pciDevs, pcidev.ioProxy = owner → (pciSlot pcidev.devfn).toNat ≠ slot) →
    (t.pciIntx i).sources.getLsbD slot = (s.pciIntx i).sources.getLsbD slot
  driven : ∃ drives, t.driven = drives ++ s.driven ∧ ∀ call ∈ drives, ∃ i, (s.pciIntx i).irq = call.1

section Intx
variable {self : P} {s t u : PciState P} (ext : External)

omit [DecidableEq P] in
theorem IntxOnly.refl (self : P) (s : PciState P) : IntxOnly self s s :=
  ⟨rfl, fun _ => rfl, fun _ _ _ _ => rfl, [], rfl, fun _ member => absurd member List.not_mem_nil⟩

omit [DecidableEq P] in
theorem IntxOnly.trans (first : IntxOnly self s t) (next : IntxOnly self t u) : IntxOnly self s u where
  pciDevs := next.pciDevs.trans first.pciDevs
  irq i := (next.irq i).trans (first.irq i)
  sources i slot below others :=
    (next.sources i slot below (first.pciDevs.symm ▸ others)).trans (first.sources i slot below others)
  driven := by
    obtain ⟨early, before, lines⟩ := first.driven
    obtain ⟨late, after, lines'⟩ := next.driven
    refine ⟨late ++ early, by rw [after, before, List.append_assoc], fun call member => ?_⟩
    rcases List.mem_append.mp member with new | old
    · obtain ⟨i, irq⟩ := lines' call new
      exact ⟨i, (first.irq i).symm.trans irq⟩
    · exact lines call old

theorem pciSlot_lt (devfn : BitVec 32) : (pciSlot devfn).toNat < 32 := by
  rw [pciSlot, BitVec.toNat_and]
  exact Nat.lt_of_le_of_lt Nat.and_le_right (by decide)

theorem intx_set_only (self : P) (backendDevfn : BitVec 32) (level : Bool) :
    IntxOnly self s (pcidevIntxSet ext s self backendDevfn level).1 := by
  unfold pcidevIntxSet
  split
  · exact .refl self s
  split
  · exact .refl self s
  · next pcidev found =>
    have own := List.find?_some found
    have member := List.mem_of_find?_eq_some found
    simp only [Bool.and_eq_true, beq_iff_eq] at own
    have below := pciSlot_lt pcidev.devfn
    have line : (sharedIrqLineChange ext.accepts (s.pciIntx (pciMapIrq pcidev)) (pciSlot pcidev.devfn) level).line =
        ⟨(s.pciIntx (pciMapIrq pcidev)).irq,
          changeSources (s.pciIntx (pciMapIrq pcidev)).sources (pciSlot pcidev.devfn) level⟩ := by
      rw [change_of_lt _ _ _ (Nat.lt_trans below (by decide))]
      dsimp only
      split <;> rfl
    refine ⟨rfl, fun i => ?_, fun i slot low others => ?_, _, rfl, fun call drives => ?_⟩
    · dsimp only
      by_cases here : i = pciMapIrq pcidev
      · rw [here, Function.update_self, line]
      · rw [Function.update_of_ne here]
    · dsimp only
      by_cases here : i = pciMapIrq pcidev
      · have apart : ¬min slot 31 = (pciSlot pcidev.devfn).toNat % 32 := by
          have different := others pcidev member own.1
          omega
        rw [here, Function.update_self, line]
        exact (changeSources_getLsbD level (by omega)).trans (if_neg apart)
      · rw [Function.update_of_ne here]
    · refine ⟨pciMapIrq pcidev, ?_⟩
      obtain ⟨driven, _, rfl⟩ := Option.map_eq_some_iff.mp (Option.mem_toList.mp drives)
      rw [line]

theorem intx_only (self : P) (backendDevfn irqOp : BitVec 32) :
    IntxOnly self s (handlePciIntx ext s self backendDevfn irqOp).1 := by
  unfold handlePciIntx
  split
  · exact intx_set_only ext self backendDevfn true
  split
  · exact intx_set_only ext self backendDevfn false
  split
  · have raised := intx_set_only (s := s) ext self backendDevfn true
    dsimp only
    split
    · exact raised
    · exact raised.trans (intx_set_only ext self backendDevfn false)
  · exact .refl self s

end Intx

/-! ### Emulated devices -/

section Devices
variable {self : P} {ext : VmmExternal Handle} {registered : Registered} {irq : BitVec 32}

theorem inject_drives {accepts : Bool → Bool} {frame : Gicv2m} (unwrapped : frame.Unwrapped) {driven after : Driven}
    {err : Int} (returns : v2mInjectIrq accepts frame driven irq = some (after, err)) :
    after = driven ∨ ∃ k : Fin gicv2mIrqMax, k.val < frame.numIrq.toNat ∧ Drives (frame.irq k).irq driven after := by
  unfold v2mInjectIrq at returns
  split at returns
  · cases returns
    exact .inl rfl
  · next i index =>
    obtain ⟨line, found, pulsed⟩ := Option.map_eq_some_iff.mp returns
    obtain ⟨_, _, below⟩ := injectIndex_lt unwrapped index
    unfold Gicv2m.lineAt at found
    split at found
    · next inside =>
      cases found
      have drives := pulse_drives accepts driven (frame.irq ⟨i.toNat, inside⟩)
      rw [pulsed] at drives
      exact .inr ⟨⟨i.toNat, inside⟩, below, drives⟩
    · cases found

structure IrqOnly (owner : P) (s t : EmuDev P Handle) (registered registered' : Registered) : Prop where
  mmio : t.mmio = s.mmio
  irqs : t.irqs = s.irqs ∧ registered ⊆ registered' ∨
    ∃ irq, t.irqs = s.irqs ++ [⟨irq, owner⟩] ∧ irq ∉ registered ∧ registered' = irq :: registered
  driven : ∃ drives, t.driven = drives ++ s.driven ∧ ∀ call ∈ drives, (⟨call.1, owner⟩ : IrqLine P) ∈ t.irqs

theorem irq_only (s : EmuDev P Handle) (op : BitVec 32)
    (refuses : ∀ registered irq, ext.registers registered irq = true → irq ∉ registered) :
    IrqOnly self s (emudevIrqSet ext s registered self irq op).1 registered
      (emudevIrqSet ext s registered self irq op).2.1 := by
  have quiet : ∃ drives : Driven, s.driven = drives ++ s.driven ∧
      ∀ call ∈ drives, (⟨call.1, self⟩ : IrqLine P) ∈ s.irqs :=
    ⟨[], rfl, fun _ member => absurd member List.not_mem_nil⟩
  unfold emudevIrqSet
  split
  · exact ⟨rfl, .inl ⟨rfl, List.Subset.refl _⟩, quiet⟩
  rw [irqResFind_eq]
  by_cases known : (⟨irq, self⟩ : IrqLine P) ∈ s.irqs
  · rw [if_pos known]
    obtain ⟨drives, returns, own⟩ := emudevIrqOp_drives ext.pci.accepts s.driven ⟨irq, self⟩ op
    exact ⟨rfl, .inl ⟨rfl, List.Subset.refl _⟩, drives, returns, fun call member => own call member ▸ known⟩
  · rw [if_neg known, emudevIrqRegister_eq]
    by_cases accepted : ext.allocated = true ∧ ext.registers registered irq = true
    · have new := refuses registered irq accepted.2
      rw [if_pos accepted]
      by_cases appended : ext.appended = 0
      · rw [if_pos appended]
        obtain ⟨drives, returns, own⟩ := emudevIrqOp_drives ext.pci.accepts s.driven ⟨irq, self⟩ op
        exact ⟨rfl, .inr ⟨irq, rfl, new, rfl⟩, drives, returns,
          fun call member => own call member ▸ List.mem_append_right _ (List.mem_singleton_self _)⟩
      · rw [if_neg appended]
        exact ⟨rfl, .inl ⟨rfl, List.subset_cons_self _ _⟩, quiet⟩
    · rw [if_neg accepted]
      exact ⟨rfl, .inl ⟨rfl, List.Subset.refl _⟩, quiet⟩

end Devices

/-! ### Regions -/

section Regions
variable {self : P} {s : MmioState P Handle} {ext : MmioExternal Handle} {region : Region P}

structure SameRegions (owner : P) (s t : MmioState P Handle) : Prop where
  own : OwnObjects t
  regions : ∀ ioProxy, ioProxy ≠ owner →
    t.mmioReservations.filter (·.ioProxy = ioProxy) = s.mmioReservations.filter (·.ioProxy = ioProxy)
  live : ∀ ioProxy, ioProxy ≠ owner → t.live.filter (·.2.ioProxy = ioProxy) = s.live.filter (·.2.ioProxy = ioProxy)

theorem assign_regions (own : OwnObjects s) (fresh : ∀ res, ext.reserved = some res → res ∉ s.live.map Prod.fst) :
    SameRegions region.ioProxy s (mmioResAssign ext s region).1 := by
  cases reserved : ext.reserved with
  | none =>
    rw [mmioResAssign, reserved]
    exact ⟨own, fun _ _ => rfl, fun _ _ => rfl⟩
  | some res =>
    have new := fresh res reserved
    have live : ((s.live ++ [(res, region)]).map Prod.fst).Nodup := by
      rw [List.map_append, List.nodup_append]
      refine ⟨own.live, List.nodup_singleton _, fun a old b only same => new ?_⟩
      have object : a = res := same.trans (List.mem_singleton.mp only)
      exact object ▸ old
    have others (ioProxy : P) (other : ioProxy ≠ region.ioProxy) :
        (s.live ++ [(res, region)]).filter (·.2.ioProxy = ioProxy) = s.live.filter (·.2.ioProxy = ioProxy) := by
      simp [Ne.symm other]
    have kept : SameRegions region.ioProxy s { s with live := s.live ++ [(res, region)] } :=
      ⟨⟨live, own.objects, fun mmio member => List.mem_append_left _ (own.made mmio member)⟩, fun _ _ => rfl, others⟩
    rw [mmioResAssign, reserved]
    dsimp only
    split
    · exact kept
    · unfold listAppend
      split
      · exact kept
      · refine ⟨⟨live, ?_, fun mmio member => ?_⟩, fun ioProxy other => by simp [Ne.symm other], others⟩
        · rw [List.map_append, List.nodup_append]
          refine ⟨own.objects, List.nodup_singleton _, fun a old b only same => new ?_⟩
          obtain ⟨mmio, member, rfl⟩ := List.mem_map.mp old
          have object : mmio.res = res := same.trans (List.mem_singleton.mp only)
          exact object ▸ List.mem_map_of_mem (own.made mmio member)
        · rcases List.mem_append.mp member with old | only
          · exact List.mem_append_left _ (own.made mmio old)
          · rw [List.mem_singleton.mp only]
            exact List.mem_append_right _ (List.mem_singleton_self _)

variable [DecidableEq Handle]

/-- The region that is removed is one of the caller, and its object belongs to no other. -/
theorem free_regions (own : OwnObjects s) : SameRegions region.ioProxy s (mmioResFree ext s region).1 := by
  unfold mmioResFree
  split
  · exact ⟨own, fun _ _ => rfl, fun _ _ => rfl⟩
  · next mmio found =>
    obtain ⟨before, after, shape, removed, equal⟩ := listItem_split found
    have region_ : mmio.toRegion = region := mmioResCmp_eq_false.mp equal
    have objects := own.objects
    rw [shape, List.map_append, List.map_cons, List.nodup_middle, List.nodup_cons, ← List.map_append] at objects
    have made (other : MmioReservation P Handle) (member : other ∈ before ++ after) :
        (other.res, other.toRegion) ∈ s.live := by
      refine own.made other ?_
      rw [shape]
      rcases List.mem_append.mp member with early | late
      · exact List.mem_append_left _ early
      · exact List.mem_append_right _ (List.mem_cons_of_mem _ late)
    have others (ioProxy : P) (other : ioProxy ≠ region.ioProxy) :
        (before ++ after).filter (·.ioProxy = ioProxy) = s.mmioReservations.filter (·.ioProxy = ioProxy) := by
      have mine : ¬mmio.ioProxy = ioProxy := fun same => other (same.symm.trans (congrArg Region.ioProxy region_))
      rw [shape]
      simp [mine]
    dsimp only
    rw [removed]
    unfold vmReservationFree
    split
    · exact ⟨⟨own.live, objects.2, made⟩, others, fun _ _ => rfl⟩
    · refine ⟨⟨?_, objects.2, fun other member => ?_⟩, others, fun ioProxy other => ?_⟩
      · exact own.live.sublist (List.filter_sublist.map Prod.fst)
      · refine List.mem_filter.mpr ⟨made other member, decide_eq_true fun same => objects.1 ?_⟩
        exact same ▸ List.mem_map_of_mem member
      · -- the object of the removed region was made for its caller
        rw [List.filter_filter]
        refine List.filter_congr fun live member => ?_
        by_cases mine : live.2.ioProxy = ioProxy
        · have elsewhere : live.1 ≠ mmio.res := by
            intro same
            have object := own.made mmio (shape ▸ List.mem_append_right _ List.mem_cons_self)
            have equal := List.inj_on_of_nodup_map own.live member object same
            rw [equal] at mine
            exact other (mine.symm.trans (congrArg Region.ioProxy region_))
          simp [mine, elsewhere]
        · simp [mine]

theorem config_regions {vmm : VmmExternal Handle} (addr size flags : BitVec 64) (own : OwnObjects s)
    (fresh : ∀ res, vmm.mmio.reserved = some res → res ∉ s.live.map Prod.fst) :
    SameRegions self s (emudevMmioConfig vmm s self addr size flags).1 := by
  unfold emudevMmioConfig
  split
  · exact ⟨own, fun _ _ => rfl, fun _ _ => rfl⟩
  split
  · exact (free_regions own : SameRegions (Region.mk addr size self).ioProxy s _)
  · exact (assign_regions own fresh : SameRegions (Region.mk addr size self).ioProxy s _)

end Regions

/-! ### One message -/

section Messages
variable {plat : Option Plat} {self : P} {s : VmmState P Handle}

theorem contained_intx {pci : PciState P} (only : IntxOnly self s.pci pci) : Contained plat self s { s with pci } := by
  intro separate
  have wired (irq : BitVec 32) : VmmState.Wired plat { s with pci } irq ↔ s.Wired plat irq := by
    simp only [VmmState.Wired, only.irq]
  refine ⟨⟨?_, separate.numbers, separate.known, fun irq is => separate.taken irq ((wired irq).mp is),
    fun irqLine member is => separate.apart irqLine member ((wired _).mp is), separate.mmio⟩,
    fun ioProxy other => ⟨?_, fun pcidev member own => ?_, rfl, fun irqLine member own => ?_, rfl, rfl⟩⟩
  · dsimp only
    rw [only.pciDevs]
    exact separate.slots
  · dsimp only
    rw [only.pciDevs]
  · refine only.sources _ _ (pciSlot_lt _) fun pcidev' member' own' same => other ?_
    rw [← own, ← own', List.inj_on_of_nodup_map separate.slots member' member same]
  · obtain ⟨drives, driven, lines⟩ := only.driven
    have elsewhere : ∀ call ∈ drives, call.1 ≠ irqLine.irq := by
      intro call drives same
      obtain ⟨i, irq⟩ := lines call drives
      exact separate.apart irqLine member (.inl ⟨i, irq.trans same⟩)
    have same := filter_drives s.pci.driven elsewhere
    rw [← driven] at same
    simp only [VmmState.drivenOn, List.filter_append, same]

theorem contained_register {ext : External} (backendDevfn : BitVec 32)
    (entry : ∀ dev func, ext.entry = some (dev, func) → dev.toNat < 32 ∧ func = 0#8 ∧
      ∀ pcidev ∈ s.pci.pciDevs, (pciSlot pcidev.devfn).toNat ≠ dev.toNat) :
    Contained plat self s { s with pci := (pcidevRegister ext s.pci self backendDevfn).1 } := by
  unfold pcidevRegister
  split
  · exact .refl s
  split
  · exact .refl s
  split
  · exact .refl s
  · next dev func address =>
    obtain ⟨below, rfl, free⟩ := entry dev func address
    have slot : (pciSlot (pciDevfn (dev.setWidth 32) ((0#8).setWidth 32))).toNat = dev.toNat := by
      have devfn := devfn_of_byte dev
      rw [Nat.mod_eq_of_lt below] at devfn
      exact (congrArg (fun devfn => (pciSlot devfn).toNat) devfn).trans (pciSlot_devfnOf below)
    intro separate
    refine ⟨⟨?_, separate.numbers, separate.known, separate.taken, separate.apart, separate.mmio⟩,
      fun ioProxy other => ⟨?_, fun _ _ _ => rfl, rfl, fun _ _ _ => rfl, rfl, rfl⟩⟩
    · rw [List.map_append, List.nodup_append]
      refine ⟨separate.slots, List.nodup_singleton _, fun a old b only same => ?_⟩
      obtain ⟨pcidev, member, rfl⟩ := List.mem_map.mp old
      exact free pcidev member (same.trans ((List.mem_singleton.mp only).trans slot))
    · simp [Ne.symm other]

theorem contained_msi {p : Plat} (inside : p ∈ plat) {accepts : Bool → Bool} {irq op : BitVec 32} {msi : MsiState}
    {rc : Rc} (returns : msiIrqSet p accepts s.msi irq op = some (msi, rc)) :
    Contained plat self s { s with msi } := by
  unfold msiIrqSet at returns
  split at returns
  · cases returns
    exact .refl s
  split at returns
  · obtain ⟨⟨driven, err⟩, injected, answered⟩ := Option.map_eq_some_iff.mp returns
    cases answered
    intro separate
    refine ⟨⟨separate.slots, separate.numbers, separate.known, separate.taken, separate.apart, separate.mmio⟩,
      fun ioProxy other => ⟨rfl, fun _ _ _ => rfl, rfl, fun irqLine member own => ?_, rfl, rfl⟩⟩
    rcases inject_drives (v2m_unwrapped p s.msi.irq) injected with rfl | ⟨k, below, drives, rfl, own'⟩
    · rfl
    · have number : ((v2m p s.msi.irq).irq k).irq = (s.msi.irq k).irq := by cases p <;> rfl
      have elsewhere : ∀ call ∈ drives, call.1 ≠ irqLine.irq := by
        intro call drives same
        exact separate.apart irqLine member
          (.inr ⟨p, inside, k, below, number.symm.trans ((own' call drives).symm.trans same)⟩)
      have same := filter_drives s.msi.driven elsewhere
      simp only [VmmState.drivenOn, List.filter_append] at same ⊢
      rw [same]
  split at returns
  · cases returns
    exact .refl s
  · cases returns
    exact .refl s

theorem contained_irq {emudev : EmuDev P Handle} {registered : Registered}
    (only : IrqOnly self s.emudev emudev s.registered registered) :
    Contained plat self s { s with emudev, registered } := by
  intro separate
  have grows : s.registered ⊆ registered := by
    rcases only.irqs with ⟨_, more⟩ | ⟨irq, _, _, rfl⟩
    · exact more
    · exact List.subset_cons_self _ _
  have taken (irq : BitVec 32) (is : s.Wired plat irq) : irq ∈ registered := grows (separate.taken irq is)
  have inside (irqLine : IrqLine P) (member : irqLine ∈ s.emudev.irqs) : irqLine ∈ emudev.irqs := by
    rcases only.irqs with ⟨same, _⟩ | ⟨irq, same, _⟩
    · exact same ▸ member
    · exact same ▸ List.mem_append_left _ member
  have numbers : (emudev.irqs.map (·.irq)).Nodup := by
    rcases only.irqs with ⟨same, _⟩ | ⟨irq, same, new, _⟩
    · exact same ▸ separate.numbers
    · rw [same, List.map_append, List.nodup_append]
      refine ⟨separate.numbers, List.nodup_singleton _, fun a old b last equal => new ?_⟩
      obtain ⟨irqLine, member, rfl⟩ := List.mem_map.mp old
      have number : irqLine.irq = irq := equal.trans (List.mem_singleton.mp last)
      exact number ▸ separate.known irqLine member
  refine ⟨⟨separate.slots, numbers, fun irqLine member => ?_, taken, fun irqLine member is => ?_, ?_⟩,
    fun ioProxy other => ⟨rfl, fun _ _ _ => rfl, ?_, fun irqLine member own => ?_, ?_, ?_⟩⟩
  · rcases only.irqs with ⟨same, more⟩ | ⟨irq, same, _, rfl⟩
    · exact more (separate.known irqLine (same ▸ member))
    · rw [same, List.mem_append, List.mem_singleton] at member
      rcases member with old | rfl
      · exact List.mem_cons_of_mem _ (separate.known irqLine old)
      · exact List.mem_cons_self
  · rcases only.irqs with ⟨same, _⟩ | ⟨irq, same, new, _⟩
    · exact separate.apart irqLine (same ▸ member) is
    · rw [same, List.mem_append, List.mem_singleton] at member
      rcases member with old | rfl
      · exact separate.apart irqLine old is
      · exact new (separate.taken _ is)
  · rw [only.mmio]
    exact separate.mmio
  · rcases only.irqs with ⟨same, _⟩ | ⟨irq, same, _⟩
    · rw [same]
    · simp [same, Ne.symm other]
  · obtain ⟨drives, driven, mine⟩ := only.driven
    have elsewhere : ∀ call ∈ drives, call.1 ≠ irqLine.irq := by
      intro call drives same
      have equal := List.inj_on_of_nodup_map numbers (mine call drives) (inside irqLine member) same
      exact other (own.symm.trans (congrArg IrqLine.cookie equal).symm)
    have same := filter_drives s.emudev.driven elsewhere
    rw [← driven] at same
    simp only [VmmState.drivenOn, List.filter_append, same]
  · rw [only.mmio]
  · rw [only.mmio]

theorem contained_config {mmio : MmioState P Handle} (same : OwnObjects s.emudev.mmio →
    SameRegions self s.emudev.mmio mmio) :
    Contained plat self s { s with emudev := { s.emudev with mmio } } := by
  intro separate
  have regions := same separate.mmio
  exact ⟨⟨separate.slots, separate.numbers, separate.known, separate.taken, separate.apart, regions.own⟩,
    fun ioProxy other => ⟨rfl, fun _ _ _ => rfl, rfl, fun _ _ _ => rfl, regions.regions ioProxy other,
      regions.live ioProxy other⟩⟩

theorem contained_pci {ext : External} (op : BitVec 32) (msg : Ring.Msg)
    (entry : ∀ dev func, ext.entry = some (dev, func) → dev.toNat < 32 ∧ func = 0#8 ∧
      ∀ pcidev ∈ s.pci.pciDevs, (pciSlot pcidev.devfn).toNat ≠ dev.toNat) :
    Contained plat self s { s with pci := (handlePci ext s.pci self op msg).1 } := by
  unfold handlePci
  dsimp only
  split
  · split
    · exact .refl s
    · exact contained_intx (intx_only ext self _ _)
  split
  · exact contained_register _ entry
  · exact .refl s

variable [DecidableEq Handle]

theorem contained_emudev {ext : VmmExternal Handle} (op : BitVec 32) (msg : Ring.Msg)
    (refuses : ∀ registered irq, ext.registers registered irq = true → irq ∉ registered)
    (fresh : ∀ res, ext.mmio.reserved = some res → res ∉ s.emudev.mmio.live.map Prod.fst) :
    Contained plat self s { s with
      emudev := (handleEmudev ext s.emudev s.registered self op msg).1
      registered := (handleEmudev ext s.emudev s.registered self op msg).2.1 } := by
  unfold handleEmudev
  split
  · exact contained_config fun own => config_regions _ _ _ own fresh
  split
  · exact contained_irq (irq_only s.emudev _ refuses)
  · exact .refl s

/-- Each handler of a message acts on its own part of the state. -/
theorem contained_callback {env : Environment P Handle} (honest : Honest env)
    {callback : RpcCallback (Shared P Handle)} (inside : callback ∈ rpcCallbacks plat env self)
    {proxy after : IoProxy (Shared P Handle)} {op : BitVec 32} {msg : Ring.Msg} {rc : Rc}
    (returns : callback proxy op msg = .ok (after, rc)) :
    Contained plat self proxy.outside.vmm after.outside.vmm := by
  simp only [rpcCallbacks, vmmCallbacks, List.mem_cons, List.not_mem_nil, or_false] at inside
  rcases inside with rfl | rfl | rfl | rfl | rfl
  · rw [handleMmio_keeps returns]
    exact .refl _
  · obtain ⟨⟨msi, answered⟩, handled, same⟩ := Option.map_eq_some_iff.mp (onShared_ok returns)
    have outside : _ = after.outside := congrArg Prod.fst same
    rw [← outside]
    unfold handleMsi at handled
    split at handled
    · cases handled
      exact .refl _
    split at handled
    · exact contained_msi rfl handled
    · cases handled
      exact .refl _
  · have outside : _ = after.outside := congrArg Prod.fst (Option.some.inj (onShared_ok returns))
    rw [← outside]
    exact contained_pci op msg (honest.entry proxy.outside.vmm)
  · have outside : _ = after.outside := congrArg Prod.fst (Option.some.inj (onShared_ok returns))
    rw [← outside]
    exact contained_emudev op msg (honest.registers proxy.outside.vmm) (honest.reserved proxy.outside.vmm)
  · have outside : _ = after.outside := congrArg Prod.fst (Option.some.inj (onShared_ok returns))
    rw [← outside]
    unfold handleControl
    split <;> exact .refl _

theorem contained_process {d : Delivery P Handle} (honest : Honest d.env)
    {after : IoProxy (Shared P Handle)} {code : Int} (processed : d.process plat s = .ok (after, code)) :
    Contained plat d.self s after.outside.vmm :=
  process_rel (R := fun a b => Contained plat d.self a.outside.vmm b.outside.vmm)
    (fun proxy => .refl proxy.outside.vmm) (fun _ _ _ => Contained.trans)
    (fun _ inside _ _ _ _ => contained_callback honest inside) processed

/-! ### Where a message stops the VMM -/

omit [DecidableEq P] [DecidableEq Handle] in
theorem mmio_fault {proxy : IoProxy (Shared P Handle)} {op : BitVec 32} {msg : Ring.Msg} {fault : Fault}
    (inTable : ¬(op = qemuOpMmio ∧ (mmioSlot msg).toNat = ioacksSize))
    (stops : handleMmio proxy op msg = .error fault) : fault = .assertion := by
  by_cases mmio : op = qemuOpMmio
  · subst mmio
    rcases Nat.lt_or_gt_of_ne fun behind => inTable ⟨rfl, behind⟩ with inside | beyond
    · have safe : SafeEnd proxy msg (handleMmio proxy qemuOpMmio msg) := end_safe_inside msg inside
      rw [stops] at safe
      exact safe
    · rw [handleMmio_finishes, finish_beyond beyond] at stops
      cases stops
      rfl
  · rw [handleMmio, if_pos mmio] at stops
    cases stops

theorem handleMsi_returns (plat : Option Plat) (accepts : Bool → Bool) (msi : MsiState) (op : BitVec 32)
    (msg : Ring.Msg) : handleMsi plat accepts msi op msg ≠ none := by
  cases plat with
  | none => exact Option.some_ne_none _
  | some p =>
    by_cases set : op = qemuOpSetIrq
    · by_cases inside : InFrame p (msg.mr1.setWidth 32).toNat
      · obtain ⟨after, rc, returns, -⟩ := msi_answers accepts msi (msg.mr2.setWidth 32) inside
        simp [handleMsi, set, returns]
      · simp [handleMsi, set, msi_passes accepts msi _ inside]
    · simp [handleMsi, set]

theorem callback_fault {env : Environment P Handle} {callback : RpcCallback (Shared P Handle)}
    (inside : callback ∈ rpcCallbacks plat env self) {proxy : IoProxy (Shared P Handle)} {op : BitVec 32} {msg : Ring.Msg}
    {fault : Fault} (inTable : ¬(op = qemuOpMmio ∧ (mmioSlot msg).toNat = ioacksSize))
    (stops : callback proxy op msg = .error fault) : fault = .assertion := by
  simp only [rpcCallbacks, vmmCallbacks, List.mem_cons, List.not_mem_nil, or_false] at inside
  rcases inside with rfl | rfl | rfl | rfl | rfl
  · exact mmio_fault inTable stops
  · cases handled : handleMsi plat (env proxy.outside.vmm).pci.accepts proxy.outside.vmm.msi op msg with
    | none => exact (handleMsi_returns plat _ _ op msg handled).elim
    | some answered =>
      simp only [msiCallback, onShared, handled, Option.map_some] at stops
      cases stops
  · cases stops
  · cases stops
  · cases stops

end Messages

/-! ### The first initialisation -/

section Boot
variable {accepts : Registered → BitVec 32 → Bool} {reserves : BitVec 64 → BitVec 64 → Bool}
variable {registered after : Registered}

theorem initPins_lines (base : BitVec 32) {pins : List (Fin pciNumPins)} {lines : Fin pciNumPins → SharedIrqLine}
    (complete : (initPins base pins lines registered).2.2 = 0) (i : Fin pciNumPins) :
    ((initPins base pins lines registered).1 i).irq =
      if i ∈ pins then base + BitVec.ofNat 32 i.val else (lines i).irq := by
  induction pins generalizing lines registered with
  | nil => rfl
  | cons pin rest ih =>
    unfold initPins at complete ⊢
    dsimp only at complete ⊢
    by_cases failed : (vmRegisterIrq refusesSecond registered (base + BitVec.ofNat 32 pin.val)).2 ≠ 0
    · rw [if_pos failed] at complete
      cases complete
    · rw [if_neg failed] at complete ⊢
      rw [ih complete]
      by_cases here : i = pin
      · subst here
        simp
      · simp [here]

theorem frame_registered {s t : Gicv2m} (complete : v2mInit accepts reserves s registered = (t, after, 0)) :
    (∀ k : Fin gicv2mIrqMax, k.val < s.numIrq.toNat → (t.irq k).irq ∈ after) ∧ registered ⊆ after := by
  obtain ⟨-, line, all⟩ := init_lines complete
  refine ⟨fun k below => ?_, fun irq member => all ▸ List.mem_append_right _ member⟩
  rw [line k below, all]
  refine List.mem_append_left _ (List.mem_reverse.mpr (List.mem_map_of_mem ?_))
  exact List.mem_range'.mpr ⟨k.val, below, by omega⟩

omit [DecidableEq P] in
theorem irqInit_lines {s : Backends P Handle} (base : BitVec 32) (new : s.done = false)
    (succeeds : (s.irqInit base).2 = 0) :
    (s.irqInit base).1.vmm.pci.pciDevs = s.vmm.pci.pciDevs ∧ (s.irqInit base).1.vmm.emudev = s.vmm.emudev ∧
      ∀ i, ((s.irqInit base).1.vmm.pci.pciIntx i).irq ∈ (s.irqInit base).1.vmm.registered := by
  have registered := irqInit_registers base succeeds
  unfold Backends.irqInit at succeeds registered ⊢
  rw [new] at succeeds registered ⊢
  dsimp only at succeeds registered ⊢
  by_cases failed : (initPins base (List.finRange pciNumPins) s.vmm.pci.pciIntx s.vmm.registered).2.2 = 0
  · have lines := initPins_lines base failed
    simp only [failed, Bool.false_eq_true, if_false, ne_eq, not_true_eq_false] at registered ⊢
    refine ⟨trivial, trivial, fun i => (registered _).mpr (.inl ⟨trivial, ?_⟩)⟩
    rw [lines i, if_pos (List.mem_finRange i)]
    exact List.mem_map_of_mem (List.mem_finRange i)
  · simp [failed] at succeeds

omit [DecidableEq P] in
theorem msiInit_lines {s : Backends P Handle} {plat : Option Plat} (succeeds : (s.msiInit plat).2 = 0) :
    (s.msiInit plat).1.vmm.pci = s.vmm.pci ∧ s.vmm.registered ⊆ (s.msiInit plat).1.vmm.registered ∧
      ∀ p ∈ plat, ∀ k : Fin gicv2mIrqMax, k.val < (v2m p s.vmm.msi.irq).numIrq.toNat →
        ((s.msiInit plat).1.vmm.msi.irq k).irq ∈ (s.msiInit plat).1.vmm.registered := by
  cases plat with
  | none => exact ⟨rfl, List.Subset.refl _, nofun⟩
  | some p =>
    unfold Backends.msiInit at succeeds ⊢
    obtain ⟨⟨frame, registered, err⟩, init⟩ : ∃ result, v2mInit refusesSecond
      (fun addr size => s.Free ⟨addr, size⟩) (v2m p s.vmm.msi.irq) s.vmm.registered = result := ⟨_, rfl⟩
    simp only [init] at succeeds ⊢
    by_cases failed : err = 0
    · subst failed
      obtain ⟨lines, grows⟩ := frame_registered init
      exact ⟨rfl, grows, fun q same => by cases same; exact lines⟩
    · rw [if_pos failed] at succeeds
      exact absurd succeeds failed

variable {fixed : List Range} {config : Config P} {first : P} {booted : Backends P Handle}

omit [DecidableEq P] in
/-- The lines and the frame have registered their interrupts, and no backend has anything yet. -/
theorem separate_boot
    (boot : (Backends.start fixed registered : Backends P Handle).ioProxyInit config first = some (booted, 0)) :
    Separate config.plat booted.vmm := by
  by_cases free : (Backends.start fixed registered : Backends P Handle).Free (config.ctrl first)
  · rw [ioProxyInit_reserved free] at boot
    dsimp only at boot
    split at boot
    · cases boot
    · next pins =>
      obtain ⟨devices, emudev, lines⟩ := irqInit_lines config.intxBase rfl (not_not.mp pins)
      split at boot
      · cases boot
      · next frame =>
        obtain ⟨pci, grows, numbers⟩ := msiInit_lines (not_not.mp frame)
        have taken (irq : BitVec 32) (is : booted.vmm.Wired config.plat irq) : irq ∈ booted.vmm.registered := by
          cases boot
          rcases is with ⟨i, rfl⟩ | ⟨p, inside, k, below, rfl⟩
          · refine grows ?_
            have line := lines i
            rw [← pci] at line
            exact line
          · exact numbers p inside k (by cases p <;> exact below)
        have devices : booted.vmm.pci.pciDevs = [] := by
          cases boot
          exact (congrArg PciState.pciDevs pci).trans devices
        have vacant : booted.vmm.emudev.irqs = [] ∧ booted.vmm.emudev.mmio = ⟨[], []⟩ := by
          cases boot
          exact ⟨rfl, congrArg (fun emudev => emudev.mmio.init) ((msiInit_leaves config.plat).1.trans emudev)⟩
        refine ⟨?_, ?_, ?_, taken, ?_, ?_⟩
        · simp [devices]
        · simp [vacant.1]
        · simp [vacant.1]
        · simp [vacant.1]
        · rw [vacant.2]
          exact ⟨List.nodup_nil, List.nodup_nil, nofun⟩
  · rw [ioProxyInit_refused free] at boot
    cases boot

end Boot

variable [DecidableEq Handle]

/-- A message of the MMIO operation for the slot behind the table of callbacks. -/
def Delivery.BehindTable (d : Delivery P Handle) : Prop :=
  (rpcMr0Op.get d.msg.mr0).setWidth 32 = qemuOpMmio ∧ (mmioSlot d.msg).toNat = ioacksSize

/-- Nothing of the other io_proxies changes, or the VMM stops at an assertion. -/
def LeavesOthers (plat : Option Plat) (s : VmmState P Handle) (d : Delivery P Handle) : Prop :=
  match d.process plat s with
  | .ok (after, _) => ∀ ioProxy, ioProxy ≠ d.self → SameFor ioProxy s after.outside.vmm
  | .error fault => fault = .assertion

theorem process_contained {plat : Option Plat} {s : VmmState P Handle} {d : Delivery P Handle}
    (separate : Separate plat s) (honest : Honest d.env) (inTable : ¬d.BehindTable) :
    LeavesOthers plat s d ∧ Separate plat (s.deliver plat d) := by
  unfold LeavesOthers VmmState.deliver
  cases processed : d.process plat s with
  | error fault =>
    obtain ⟨callback, inside, before, stops⟩ := process_fault processed
    exact ⟨callback_fault inside inTable stops, separate⟩
  | ok result =>
    obtain ⟨after, code⟩ := result
    obtain ⟨apart, others⟩ := contained_process honest processed separate
    exact ⟨others, apart⟩

theorem separate_along {plat : Option Plat} {s : VmmState P Handle} (separate : Separate plat s)
    {deliveries : List (Delivery P Handle)} (honest : ∀ d ∈ deliveries, Honest d.env)
    (inTable : ∀ d ∈ deliveries, ¬d.BehindTable) :
    Along (VmmState.deliver plat) (LeavesOthers plat) s deliveries := by
  induction deliveries generalizing s with
  | nil => trivial
  | cons d rest ih =>
    obtain ⟨others, after⟩ := process_contained separate (honest d List.mem_cons_self) (inTable d List.mem_cons_self)
    exact ⟨others, ih after (fun later member => honest later (List.mem_cons_of_mem _ member))
      fun later member => inTable later (List.mem_cons_of_mem _ member)⟩

/-- After the first initialisation, no message of a backend touches what another one has or
leaves the arrays of the VMM: for every content of the messages but the MMIO slot behind the
table, and from every state that messages lead to. -/
theorem backends_isolated (config : Config P) (fixed : List Range) (registered : Registered) (first : P)
    (booted : Backends P Handle) (boot : (Backends.start fixed registered).ioProxyInit config first = some (booted, 0))
    (deliveries : List (Delivery P Handle)) (honest : ∀ d ∈ deliveries, Honest d.env)
    (inTable : ∀ d ∈ deliveries, ¬d.BehindTable) :
    Along (VmmState.deliver config.plat) (LeavesOthers config.plat) booted.vmm deliveries :=
  separate_along (separate_boot boot) honest inTable

/-- External functions that hand out the first slot and the first object that are free. -/
def careful : Environment Bool Nat := fun s =>
  { allocated := true
    appended := 0
    registers := refusesSecond
    mmio := ⟨if 7 ∈ s.emudev.mmio.live.map Prod.fst then none else some 7, true, 0, 0⟩
    pci := ⟨true, ((List.range 32).find? fun slot =>
      s.pci.pciDevs.all fun pcidev => (pciSlot pcidev.devfn).toNat != slot).map fun slot =>
        (BitVec.ofNat 8 slot, 0#8), fun _ => true⟩ }

theorem careful_honest : Honest careful where
  registers s registered irq accepted := by simpa [careful, refusesSecond] using accepted
  entry s dev func address := by
    obtain ⟨slot, found, same⟩ := Option.map_eq_some_iff.mp address
    cases same
    have below := List.mem_range.mp (List.mem_of_find?_eq_some found)
    have free := List.find?_some found
    have number : (BitVec.ofNat 8 slot).toNat = slot := by
      rw [BitVec.toNat_ofNat]
      exact Nat.mod_eq_of_lt (by omega)
    rw [number]
    exact ⟨below, rfl, by simpa using free⟩
  reserved s res reserved := by
    simp only [careful] at reserved
    split at reserved
    · cases reserved
    · next free => exact Option.some.inj reserved ▸ free

def sent (self : Bool) (msg : Ring.Msg) : Delivery Bool Nat :=
  ⟨careful, self, (Session.initial ⟨quiet, true, 1⟩).proxy, msg⟩

/-- Both register a device and raise their interrupts, and one asks for all the other has:
its interrupt, its region, and the slot of its device. Then it answers a request that
nobody made. -/
theorem backends_isolated_two : ∃ booted : Backends Bool Nat,
    (Backends.start [] []).ioProxyInit (pair (some .rpi4)) true = some (booted, 0) ∧
      Along (VmmState.deliver (some .rpi4)) (LeavesOthers (some .rpi4)) booted.vmm
        [sent true ⟨19#64, 3#64, 0#64, 0#64⟩, sent false ⟨19#64, 3#64, 0#64, 0#64⟩,
          sent true ⟨16#64, 3#64, 1#64, 0#64⟩, sent true ⟨16#64, 200#64, 1#64, 0#64⟩,
          sent true ⟨20#64, 0x10000000#64, 0x1000#64, 0#64⟩, sent false ⟨16#64, 3#64, 0#64, 0#64⟩,
          sent false ⟨16#64, 200#64, 0#64, 0#64⟩, sent false ⟨20#64, 0x10000000#64, 0x1000#64, 1#64⟩,
          sent false ⟨0x100#64, 0#64, 5#64, 0#64⟩] := by
  have available : Available (pair (some .rpi4)) (Backends.start [] [] : Backends Bool Nat) true := by
    refine ⟨by decide +kernel, fun _ => apart_of_all (by decide +kernel), fun p inside => ?_⟩
    cases inside
    refine ⟨fun irq member => ⟨List.not_mem_nil, fun _ => ?_⟩, by decide +kernel, by decide +kernel⟩
    have above : 144 ≤ irq.toNat := by
      obtain ⟨k, below, rfl⟩ := List.mem_map.mp member
      rw [toNat_number (v2m_unwrapped .rpi4 _) (List.mem_range.mp below)]
      exact Nat.le_add_right _ _
    intro pin
    obtain ⟨i, _, rfl⟩ := List.mem_map.mp pin
    revert above
    revert i
    decide
  obtain ⟨booted, boot⟩ := ioProxyInit_succeeds.mpr available
  refine ⟨booted, boot, backends_isolated (pair (some .rpi4)) [] [] true booted boot _ (fun d member => ?_)
    fun d member => ?_⟩
  · simp only [List.mem_cons, List.not_mem_nil, or_false] at member
    rcases member with rfl | rfl | rfl | rfl | rfl | rfl | rfl | rfl | rfl <;> exact careful_honest
  · simp only [List.mem_cons, List.not_mem_nil, or_false] at member
    rw [Delivery.BehindTable]
    rcases member with rfl | rfl | rfl | rfl | rfl | rfl | rfl | rfl | rfl <;> decide +kernel

end Virtioso.Vmm
