import Mathlib.Data.List.FinRange
import Mathlib.Data.List.Nodup
import Virtioso.Irq.Msi
import Virtioso.Vmm.Correspondence
import Virtioso.Vmm.Exclusive
import Virtioso.Vmm.Initialisation

/-! Which initialisations succeed, and what they leave of earlier io_proxies.

An initialisation asks for its ranges and for the interrupts of the INTx lines and of
the MSI frame; only the INTx lines are guarded against a second run. It empties both
registries. What an earlier io_proxy has there is lost.
-/

set_option autoImplicit false

namespace Virtioso.Vmm

open Foundation Irq Rpc Proxy

variable {P Handle : Type} [DecidableEq P] [DecidableEq Handle]

/-! ### Owners of reservations -/

structure OwnedBy (owners : List P) (s : EmuDev P Handle) : Prop where
  irqs : ∀ irqLine ∈ s.irqs, irqLine.cookie ∈ owners
  mmio : ∀ mmio ∈ s.mmio.mmioReservations, mmio.ioProxy ∈ owners

section Owners
variable {owners : List P} {s : EmuDev P Handle} {ext : VmmExternal Handle} {self : P}

omit [DecidableEq P] [DecidableEq Handle] in
theorem listAppend_mem {α : Type} {err : Int} {l : List α} {data item : α}
    (inside : item ∈ (listAppend err l data).1) : item ∈ l ∨ item = data := by
  unfold listAppend at inside
  split at inside
  · exact .inl inside
  · simpa using inside

omit [DecidableEq Handle] in
theorem emudevIrqSet_owned (owned : OwnedBy owners s) (registered : Registered) (member : self ∈ owners)
    (irq op : BitVec 32) : OwnedBy owners (emudevIrqSet ext s registered self irq op).1 := by
  have grows : ∀ irqLine ∈ (emudevIrqRegister ext s.irqs registered self irq).1, irqLine.cookie ∈ owners := by
    intro irqLine inside
    rw [emudevIrqRegister_eq] at inside
    split at inside
    · split at inside
      · rcases List.mem_append.mp inside with old | new
        · exact owned.irqs irqLine old
        · rw [List.mem_singleton.mp new]
          exact member
      · exact owned.irqs irqLine inside
    · exact owned.irqs irqLine inside
  unfold emudevIrqSet
  split
  · exact owned
  · cases irqResFind s.irqs self irq with
    | some irqLine => exact ⟨owned.irqs, owned.mmio⟩
    | none =>
      simp only
      split
      · exact ⟨grows, owned.mmio⟩
      · exact ⟨grows, owned.mmio⟩

theorem emudevMmioConfig_mem {s : MmioState P Handle} {addr size flags : BitVec 64}
    {mmio : MmioReservation P Handle}
    (inside : mmio ∈ (emudevMmioConfig ext s self addr size flags).1.mmioReservations) :
    mmio ∈ s.mmioReservations ∨ mmio.ioProxy = self := by
  unfold emudevMmioConfig at inside
  split at inside
  · exact .inl inside
  · split at inside
    · unfold mmioResFree at inside
      split at inside
      · exact .inl inside
      -- a free only removes, an assignment appends a record of the caller
      · left
        simp only [listRemove] at inside
        split at inside
        · exact List.mem_of_mem_eraseP inside
        · exact inside
    · unfold mmioResAssign at inside
      split at inside
      · exact .inl inside
      · simp only at inside
        split at inside
        · exact .inl inside
        · rcases listAppend_mem inside with old | rfl
          · exact .inl old
          · exact .inr rfl

theorem handleEmudev_owned (owned : OwnedBy owners s) (registered : Registered) (member : self ∈ owners)
    (op : BitVec 32) (msg : Ring.Msg) : OwnedBy owners (handleEmudev ext s registered self op msg).1 := by
  unfold handleEmudev
  split
  · refine ⟨owned.irqs, fun mmio inside => ?_⟩
    rcases emudevMmioConfig_mem inside with old | new
    · exact owned.mmio mmio old
    · exact new ▸ member
  · split
    · exact emudevIrqSet_owned owned registered member _ _
    · exact owned

end Owners

/-! ### What an initialisation asks for -/

def pinNumbers (base : BitVec 32) : List (BitVec 32) :=
  (List.finRange pciNumPins).map fun i => base + BitVec.ofNat 32 i.val

def frameNumbers (plat : Plat) : List (BitVec 32) :=
  let frame := v2m plat fun _ => ⟨0#32, ()⟩
  (List.range frame.numIrq.toNat).map frame.number

def frameRange (plat : Plat) : Range :=
  let frame := v2m plat fun _ => ⟨0#32, ()⟩
  ⟨frame.base, frame.size⟩

/-- What the initialisation of `ioProxy` asks for is taken neither by others nor by itself. -/
structure Available (config : Config P) (s : Backends P Handle) (ioProxy : P) : Prop where
  ctrl : s.Free (config.ctrl ioProxy)
  pins : s.done = false → ∀ irq ∈ pinNumbers config.intxBase, irq ∉ s.vmm.registered
  frame : ∀ plat ∈ config.plat, (∀ irq ∈ frameNumbers plat, irq ∉ s.vmm.registered ∧
      (s.done = false → irq ∉ pinNumbers config.intxBase)) ∧
    s.Free (frameRange plat) ∧ ¬(frameRange plat).Overlaps (config.ctrl ioProxy)

structure Vacant (s : EmuDev P Handle) : Prop where
  irqs : s.irqs = []
  mmio : s.mmio.mmioReservations = []

structure InPlace (s t : Backends P Handle) : Prop where
  mmio : ∀ region mmio, region.ioProxy ∈ s.proxies →
    listItem s.vmm.emudev.mmio.mmioReservations region mmioResCmp = some mmio →
    listItem t.vmm.emudev.mmio.mmioReservations region mmioResCmp = some mmio
  irq : ∀ ioProxy irq irqLine, ioProxy ∈ s.proxies → irqResFind s.vmm.emudev.irqs ioProxy irq = some irqLine →
    irqResFind t.vmm.emudev.irqs ioProxy irq = some irqLine

def Unharmed (config : Config P) (s : Backends P Handle) : BackendAction P Handle → Prop
  | .init ioProxy => ∃ t, s.ioProxyInit config ioProxy = some (t, 0) ∧ InPlace s t
  | .message _ _ _ _ => True

/-- The runs in question: io_proxies with control regions apart from each other, and messages
about regions and interrupts from those that are initialised. -/
def Orderly (config : Config P) (s : Backends P Handle) : BackendAction P Handle → Prop
  | .init ioProxy => ioProxy ∉ s.proxies ∧ ∀ other ∈ s.proxies, ¬(config.ctrl ioProxy).Overlaps (config.ctrl other)
  | .message ioProxy _ msg _ => ioProxy ∈ s.proxies ∧
      ((rpcMr0Op.get msg.mr0).setWidth 32 = qemuOpMmioRegionConfig ∨
        (rpcMr0Op.get msg.mr0).setWidth 32 = qemuOpSetIrq)

def Clear (config : Config P) (s : Backends P Handle) : BackendAction P Handle → Prop
  | .init ioProxy => Available config s ioProxy ∧ Vacant s.vmm.emudev
  | .message _ _ _ _ => True

section Numbers

theorem pinNumbers_nodup (base : BitVec 32) : (pinNumbers base).Nodup := by
  refine (List.nodup_finRange _).map fun i j same => ?_
  have offsets := congrArg (fun number => (number - base).toNat) same
  have first := i.isLt
  have second := j.isLt
  have pins : pciNumPins = 4 := rfl
  simp only [BitVec.add_comm base, BitVec.add_sub_cancel, BitVec.toNat_ofNat] at offsets
  exact Fin.ext (by omega)

theorem frameNumbers_nodup (plat : Plat) : (frameNumbers plat).Nodup := by
  refine List.nodup_range.map_on fun i first j second same => ?_
  rw [List.mem_range] at first second
  have values := congrArg BitVec.toNat same
  rw [toNat_number (v2m_unwrapped plat _) first, toNat_number (v2m_unwrapped plat _) second] at values
  omega

omit [DecidableEq P] in
theorem initPins_registers (base : BitVec 32) (pins : List (Fin pciNumPins))
    (lines : Fin pciNumPins → SharedIrqLine) (registered : Registered) :
    (initPins base pins lines registered).2 =
      registerAll refusesSecond (pins.map fun i => base + BitVec.ofNat 32 i.val) registered := by
  induction pins generalizing lines registered with
  | nil => rfl
  | cons i rest ih =>
    unfold initPins
    rw [List.map_cons, registerAll]
    simp only
    split
    · rfl
    · exact ih _ _

end Numbers

section Parts
variable {s : Backends P Handle} {config : Config P}

omit [DecidableEq P] [DecidableEq Handle] in
theorem irqInit_succeeds (base : BitVec 32) : (s.irqInit base).2 = 0 ↔
    (s.done = false → ∀ irq ∈ pinNumbers base, irq ∉ s.vmm.registered) := by
  unfold Backends.irqInit
  cases done : s.done with
  | true => simp
  | false =>
    have registers := initPins_registers base (List.finRange pciNumPins) s.vmm.pci.pciIntx s.vmm.registered
    have all := registerAll_refusesSecond (pinNumbers base) s.vmm.registered
    rw [pinNumbers, ← registers, ← pinNumbers] at all
    simp only [Bool.false_eq_true, if_false, ne_eq, forall_const]
    rw [← and_iff_right (pinNumbers_nodup base) (b := ∀ irq ∈ pinNumbers base, irq ∉ s.vmm.registered), ← all]
    by_cases failed : (initPins base (List.finRange pciNumPins) s.vmm.pci.pciIntx s.vmm.registered).2.2 = 0
    · simp [failed]
    · simp [failed]

omit [DecidableEq P] [DecidableEq Handle] in
theorem irqInit_keeps (base : BitVec 32) :
    (s.irqInit base).1.vmm.emudev = s.vmm.emudev ∧ (s.irqInit base).1.proxies = s.proxies ∧
      (s.irqInit base).1.fixed = s.fixed := by
  unfold Backends.irqInit
  split
  · exact ⟨rfl, rfl, rfl⟩
  · simp only
    split <;> exact ⟨rfl, rfl, rfl⟩

omit [DecidableEq P] [DecidableEq Handle] in
theorem irqInit_registers (base : BitVec 32) (succeeds : (s.irqInit base).2 = 0) (irq : BitVec 32) :
    irq ∈ (s.irqInit base).1.vmm.registered ↔
      (s.done = false ∧ irq ∈ pinNumbers base) ∨ irq ∈ s.vmm.registered := by
  unfold Backends.irqInit at succeeds ⊢
  cases done : s.done with
  | true => simp
  | false =>
    have registers := initPins_registers base (List.finRange pciNumPins) s.vmm.pci.pciIntx s.vmm.registered
    rw [done] at succeeds
    simp only [Bool.false_eq_true, if_false, ne_eq] at succeeds ⊢
    by_cases failed : (initPins base (List.finRange pciNumPins) s.vmm.pci.pciIntx s.vmm.registered).2.2 = 0
    · have log := registerAll_complete (registers ▸ failed)
      rw [← registers] at log
      simp only [failed, not_true_eq_false, if_false, log, List.mem_append, List.mem_reverse, true_and]
      exact Iff.rfl
    · simp [failed] at succeeds

theorem v2mInit_succeeds (plat : Plat) (irq : Fin gicv2mIrqMax → IrqLine Unit) (registered : Registered)
    (reserves : BitVec 64 → BitVec 64 → Bool) :
    (v2mInit refusesSecond reserves (v2m plat irq) registered).2.2 = 0 ↔
      (∀ irq ∈ frameNumbers plat, irq ∉ registered) ∧ reserves (frameRange plat).addr (frameRange plat).size = true := by
  have few : ¬(v2m plat irq).numIrq > BitVec.ofNat 32 gicv2mIrqMax := by
    cases plat <;> exact (by decide : ¬32#32 > BitVec.ofNat 32 gicv2mIrqMax)
  have range : ¬(v2m plat irq).irqBase + (v2m plat irq).numIrq > 1020#32 := by
    cases plat with
    | rpi4 => exact (by decide : ¬144#32 + 32#32 > 1020#32)
    | qemuArmVirt => exact (by decide : ¬96#32 + 32#32 > 1020#32)
  have numbers : frameNumbers plat = (List.range (v2m plat irq).numIrq.toNat).map (v2m plat irq).number := by
    cases plat <;> rfl
  have window : (⟨(v2m plat irq).base, (v2m plat irq).size⟩ : Range) = frameRange plat := by cases plat <;> rfl
  have registers := initFrom_registers refusesSecond (v2m plat irq).numIrq.toNat 0 (v2m plat irq) registered
  have all := registerAll_refusesSecond (frameNumbers plat) registered
  rw [numbers, List.range_eq_range', ← registers, ← List.range_eq_range', ← numbers,
    and_iff_right (frameNumbers_nodup plat)] at all
  rw [v2mInit_loop few range, ← all, ← window]
  by_cases failed : (v2mInitFrom refusesSecond (v2m plat irq).numIrq.toNat 0 (v2m plat irq) registered).2.2 = 0
  · cases reserves (v2m plat irq).base (v2m plat irq).size <;> simp [failed]
  · simp [failed]

omit [DecidableEq P] [DecidableEq Handle] in
theorem msiInit_succeeds (plat : Option Plat) : (s.msiInit plat).2 = 0 ↔
    ∀ p ∈ plat, (∀ irq ∈ frameNumbers p, irq ∉ s.vmm.registered) ∧ s.Free (frameRange p) := by
  cases plat with
  | none => simp [Backends.msiInit]
  | some plat =>
    have frame := v2mInit_succeeds plat s.vmm.msi.irq s.vmm.registered fun addr size => s.Free ⟨addr, size⟩
    simp only [Option.mem_def, Option.some.injEq, forall_eq']
    rw [decide_eq_true_eq] at frame
    rw [← frame]
    unfold Backends.msiInit
    simp only
    split
    · next failed => simp [failed]
    · next failed => simpa using failed

omit [DecidableEq P] [DecidableEq Handle] in
theorem msiInit_leaves (plat : Option Plat) :
    (s.msiInit plat).1.vmm.emudev = s.vmm.emudev ∧ (s.msiInit plat).1.proxies = s.proxies := by
  unfold Backends.msiInit
  cases plat with
  | none => exact ⟨rfl, rfl⟩
  | some plat =>
    simp only
    split <;> exact ⟨rfl, rfl⟩

end Parts

/-! ### A whole initialisation -/

section Whole
variable {s t : Backends P Handle} {config : Config P} {ioProxy : P}

omit [DecidableEq P] [DecidableEq Handle] in
theorem ioProxyInit_refused (taken : ¬s.Free (config.ctrl ioProxy)) : s.ioProxyInit config ioProxy = none := by
  unfold Backends.ioProxyInit Backends.reserve
  rw [if_neg taken]
  rfl

omit [DecidableEq P] [DecidableEq Handle] in
/-- With the control region reserved, the parts run up to the first that fails. -/
theorem ioProxyInit_reserved (free : s.Free (config.ctrl ioProxy)) :
    s.ioProxyInit config ioProxy =
      let reserved : Backends P Handle := { s with fixed := s.fixed ++ [config.ctrl ioProxy] }
      let pins := reserved.irqInit config.intxBase
      let frame := pins.1.msiInit config.plat
      if pins.2 ≠ 0 then some (pins.1, -1)
      else if frame.2 ≠ 0 then some (frame.1, -1)
      else some ({ frame.1.emudevInit with proxies := ioProxy :: frame.1.proxies }, 0) := by
  unfold Backends.ioProxyInit Backends.reserve
  rw [if_pos free]
  simp only [Option.bind_eq_bind, Option.bind_some]
  split
  · rfl
  · split <;> rfl

omit [DecidableEq P] [DecidableEq Handle] in
theorem free_after (range other : Range) :
    Backends.Free { s with fixed := s.fixed ++ [other] } range ↔ s.Free range ∧ ¬range.Overlaps other := by
  unfold Backends.Free Backends.reserved
  simp only [List.mem_append, List.mem_singleton]
  constructor
  · exact fun apart => ⟨fun taken inside => apart taken (inside.imp_left .inl), apart other (.inl (.inr rfl))⟩
  · rintro ⟨apart, new⟩ taken ((inside | rfl) | live)
    · exact apart taken (.inl inside)
    · exact new
    · exact apart taken (.inr live)

structure Initialised (s t : Backends P Handle) (ioProxy : P) : Prop where
  proxies : t.proxies = ioProxy :: s.proxies
  vacant : Vacant t.vmm.emudev

omit [DecidableEq P] [DecidableEq Handle] in
/-- After the INTx lines, the frame is as free as before, apart from the control region and
the interrupts of the lines. -/
theorem frame_available (free : s.Free (config.ctrl ioProxy))
    (pins : (Backends.irqInit config.intxBase { s with fixed := s.fixed ++ [config.ctrl ioProxy] }).2 = 0) :
    ((Backends.irqInit config.intxBase { s with fixed := s.fixed ++ [config.ctrl ioProxy] }).1.msiInit
      config.plat).2 = 0 ↔ Available config s ioProxy := by
  have registered := irqInit_registers config.intxBase pins
  have lines := (irqInit_succeeds config.intxBase).mp pins
  rw [msiInit_succeeds]
  have same (range : Range) :
      Backends.Free (Backends.irqInit config.intxBase { s with fixed := s.fixed ++ [config.ctrl ioProxy] }).1 range ↔
        s.Free range ∧ ¬range.Overlaps (config.ctrl ioProxy) := by
    obtain ⟨emudev, _, fixed⟩ := irqInit_keeps (s := { s with fixed := s.fixed ++ [config.ctrl ioProxy] })
      config.intxBase
    rw [← free_after]
    unfold Backends.Free Backends.reserved
    rw [fixed, emudev]
  have parts : Available config s ioProxy ↔ ∀ plat ∈ config.plat,
      (∀ irq ∈ frameNumbers plat, irq ∉ s.vmm.registered ∧ (s.done = false → irq ∉ pinNumbers config.intxBase)) ∧
        s.Free (frameRange plat) ∧ ¬(frameRange plat).Overlaps (config.ctrl ioProxy) :=
    ⟨Available.frame, fun frame => ⟨free, lines, frame⟩⟩
  rw [parts]
  -- an interrupt is free after `irq_init` if it was before and is not one it has just registered
  refine forall₂_congr fun plat present => and_congr (forall₂_congr fun irq inside => ?_) (same _)
  rw [registered irq]
  tauto

omit [DecidableEq P] [DecidableEq Handle] in
theorem ioProxyInit_succeeds : (∃ t, s.ioProxyInit config ioProxy = some (t, 0)) ↔ Available config s ioProxy := by
  by_cases free : s.Free (config.ctrl ioProxy)
  · rw [ioProxyInit_reserved free]
    have lines := irqInit_succeeds (s := { s with fixed := s.fixed ++ [config.ctrl ioProxy] }) config.intxBase
    simp only
    split
    · next failed =>
      refine ⟨fun ⟨t, wrong⟩ => ?_, fun available => absurd (lines.mpr available.pins) failed⟩
      cases wrong
    · next pins =>
      rw [← frame_available free (not_not.mp pins)]
      split
      · next failed =>
        refine ⟨fun ⟨t, wrong⟩ => ?_, fun complete => absurd complete failed⟩
        cases wrong
      · next frame => exact ⟨fun _ => not_not.mp frame, fun _ => ⟨_, rfl⟩⟩
  · rw [ioProxyInit_refused free]
    refine ⟨fun ⟨t, wrong⟩ => ?_, fun available => absurd available.ctrl free⟩
    cases wrong

omit [DecidableEq P] [DecidableEq Handle] in
theorem ioProxyInit_leaves {err : Int} (returns : s.ioProxyInit config ioProxy = some (t, err)) :
    err = 0 ∧ Initialised s t ioProxy ∨ err = -1 ∧ t.vmm.emudev = s.vmm.emudev ∧ t.proxies = s.proxies := by
  by_cases free : s.Free (config.ctrl ioProxy)
  · have lines := irqInit_keeps (s := { s with fixed := s.fixed ++ [config.ctrl ioProxy] }) config.intxBase
    have frame := msiInit_leaves (s := (Backends.irqInit config.intxBase
      { s with fixed := s.fixed ++ [config.ctrl ioProxy] }).1) config.plat
    rw [ioProxyInit_reserved free] at returns
    simp only at returns
    split at returns
    · cases returns
      exact .inr ⟨rfl, lines.1, lines.2.1⟩
    · split at returns
      · cases returns
        exact .inr ⟨rfl, frame.1.trans lines.1, frame.2.trans lines.2.1⟩
      · cases returns
        refine .inl ⟨rfl, ?_, rfl, rfl⟩
        rw [frame.2, lines.2.1]
  · rw [ioProxyInit_refused free] at returns
    cases returns

omit [DecidableEq Handle] in
theorem irq_found {irqs : List (IrqLine P)} {irqLine : IrqLine P} (inside : irqLine ∈ irqs) :
    ∃ found, irqResFind irqs irqLine.cookie irqLine.irq = some found :=
  ⟨irqLine, by rw [irqResFind_eq, if_pos inside]⟩

omit [DecidableEq Handle] in
theorem region_found {mmio : MmioState P Handle} {reservation : MmioReservation P Handle}
    (inside : reservation ∈ mmio.mmioReservations) :
    ∃ found, listItem mmio.mmioReservations reservation.toRegion mmioResCmp = some found := by
  cases found : listItem mmio.mmioReservations reservation.toRegion mmioResCmp with
  | none => exact absurd ⟨reservation, inside, rfl⟩ (find_missing.mp found)
  | some other => exact ⟨other, rfl⟩

omit [DecidableEq Handle] in
theorem inPlace_iff (owned : OwnedBy s.proxies s.vmm.emudev) (complete : Initialised s t ioProxy) :
    InPlace s t ↔ Vacant s.vmm.emudev := by
  obtain ⟨_, irqs, mmio⟩ := complete
  constructor
  · intro inPlace
    -- what is in a registry is found by an owner before, but not in the empty one afterwards
    constructor
    · refine List.eq_nil_iff_forall_not_mem.mpr fun irqLine inside => ?_
      obtain ⟨other, found⟩ := irq_found inside
      have kept := inPlace.irq _ _ _ (owned.irqs irqLine inside) found
      rw [irqs] at kept
      cases kept
    · refine List.eq_nil_iff_forall_not_mem.mpr fun reservation inside => ?_
      obtain ⟨other, found⟩ := region_found inside
      have kept := inPlace.mmio _ _ (owned.mmio reservation inside) found
      rw [mmio] at kept
      cases kept
  · rintro ⟨noIrqs, noMmio⟩
    constructor
    · intro region reservation _ found
      rw [noMmio] at found
      cases found
    · intro owner irq irqLine _ found
      rw [noIrqs] at found
      cases found

omit [DecidableEq Handle] in
theorem unharmed_init (owned : OwnedBy s.proxies s.vmm.emudev) :
    Unharmed config s (.init ioProxy) ↔ Clear config s (.init ioProxy) := by
  have leaves (t : Backends P Handle) (complete : s.ioProxyInit config ioProxy = some (t, 0)) :
      Initialised s t ioProxy := by
    rcases ioProxyInit_leaves complete with ⟨_, initialised⟩ | ⟨failed, _⟩
    · exact initialised
    · cases failed
  constructor
  · rintro ⟨t, complete, inPlace⟩
    exact ⟨ioProxyInit_succeeds.mp ⟨t, complete⟩, (inPlace_iff owned (leaves t complete)).mp inPlace⟩
  · rintro ⟨available, vacant⟩
    obtain ⟨t, complete⟩ := ioProxyInit_succeeds.mpr available
    exact ⟨t, complete, (inPlace_iff owned (leaves t complete)).mpr vacant⟩

end Whole

/-! ### Owners over a run -/

section Messages

def KeepsOwners (self : P) (before after : IoProxy (Shared P Handle)) : Prop :=
  ∀ owners, self ∈ owners → OwnedBy owners before.outside.vmm.emudev → OwnedBy owners after.outside.vmm.emudev

omit [DecidableEq P] [DecidableEq Handle] in
theorem onShared_ok {handler : Shared P Handle → BitVec 32 → Ring.Msg → Option (Shared P Handle × Rc)}
    {proxy after : IoProxy (Shared P Handle)} {op : BitVec 32} {msg : Ring.Msg} {rc : Rc}
    (returns : onShared handler proxy op msg = .ok (after, rc)) :
    handler proxy.outside op msg = some (after.outside, rc) := by
  unfold onShared at returns
  cases handled : handler proxy.outside op msg with
  | none =>
    rw [handled] at returns
    cases returns
  | some result =>
    rw [handled] at returns
    cases returns
    rfl

theorem callbacks_keep_owners (plat : Option Plat) (env : Environment P Handle) (self : P)
    {callback : RpcCallback (Shared P Handle)} (inside : callback ∈ rpcCallbacks plat env self)
    {proxy after : IoProxy (Shared P Handle)} {op : BitVec 32} {msg : Ring.Msg} {rc : Rc}
    (returns : callback proxy op msg = .ok (after, rc)) : KeepsOwners self proxy after := by
  intro owners member owned
  simp only [rpcCallbacks, vmmCallbacks, List.mem_cons, List.not_mem_nil, or_false] at inside
  rcases inside with rfl | rfl | rfl | rfl | rfl
  · rw [handleMmio_keeps returns]
    exact owned
  · obtain ⟨⟨msi, answered⟩, _, same⟩ := Option.map_eq_some_iff.mp (onShared_ok returns)
    have outside : _ = after.outside := congrArg Prod.fst same
    rw [← outside]
    exact owned
  · have outside : _ = after.outside := congrArg Prod.fst (Option.some.inj (onShared_ok returns))
    rw [← outside]
    exact owned
  · have outside : _ = after.outside := congrArg Prod.fst (Option.some.inj (onShared_ok returns))
    rw [← outside]
    exact handleEmudev_owned owned _ member _ _
  · have outside : _ = after.outside := congrArg Prod.fst (Option.some.inj (onShared_ok returns))
    rw [← outside]
    unfold handleControl
    split <;> exact owned

theorem process_keeps_owners {config : Config P} {s t : Backends P Handle} {self : P}
    {proxy : IoProxy (Shared P Handle)} {msg : Ring.Msg} {res : Handle} {err : Int}
    (returns : s.process config self proxy msg res = .ok (t, err)) (member : self ∈ s.proxies)
    (owned : OwnedBy s.proxies s.vmm.emudev) : OwnedBy t.proxies t.vmm.emudev := by
  unfold Backends.process at returns
  obtain ⟨start, started⟩ : ∃ start : IoProxy (Shared P Handle),
      { proxy with outside := { proxy.outside with vmm := s.vmm } } = start := ⟨_, rfl⟩
  have begins : start.outside.vmm = s.vmm := by rw [← started]
  rw [started] at returns
  cases processed : rpcProcess (rpcCallbacks config.plat (s.environment msg res) self) start msg with
  | error fault =>
    simp only [processed] at returns
    cases returns
  | ok result =>
    simp only [processed] at returns
    cases returns
    have keeps : KeepsOwners self start result.1 :=
      process_rel (R := KeepsOwners self) (fun _ _ _ owned => owned)
        (fun _ _ _ first next owners member owned => next owners member (first owners member owned))
        (fun callback inside op proxy after rc => callbacks_keep_owners config.plat _ self inside) processed
    exact keeps s.proxies member (begins ▸ owned)

end Messages

omit [DecidableEq P] [DecidableEq Handle] in
theorem owned_of_vacant {owners : List P} {s : EmuDev P Handle} (vacant : Vacant s) : OwnedBy owners s := by
  constructor
  · intro irqLine inside
    rw [vacant.irqs] at inside
    cases inside
  · intro mmio inside
    rw [vacant.mmio] at inside
    cases inside

theorem owned_after {config : Config P} {s : Backends P Handle} (action : BackendAction P Handle)
    (orderly : Orderly config s action) (owned : OwnedBy s.proxies s.vmm.emudev) :
    OwnedBy (s.after config action).proxies (s.after config action).vmm.emudev := by
  cases action with
  | init ioProxy =>
    cases returned : s.ioProxyInit config ioProxy with
    | none =>
      have same : s.after config (.init ioProxy) = s := by simp [Backends.after, returned]
      rwa [same]
    | some result =>
      have next : s.after config (.init ioProxy) = result.1 := by simp [Backends.after, returned]
      rw [next]
      -- an initialisation empties both registries, or fails before it touches them
      rcases ioProxyInit_leaves returned with ⟨_, initialised⟩ | ⟨_, emudev, proxies⟩
      · exact owned_of_vacant initialised.vacant
      · rw [emudev, proxies]
        exact owned
  | message self proxy msg res =>
    cases returned : s.process config self proxy msg res with
    | error fault =>
      have same : s.after config (.message self proxy msg res) = s := by simp [Backends.after, returned]
      rwa [same]
    | ok result =>
      have next : s.after config (.message self proxy msg res) = result.1 := by simp [Backends.after, returned]
      rw [next]
      exact process_keeps_owners returned orderly.1 owned

/-- Every initialisation of a run succeeds and leaves the reservations of earlier io_proxies
in place, if and only if each finds what it asks for unclaimed and both registries empty. -/
theorem initialisations_unharmed_iff_clear (config : Config P) (fixed : List Range) (registered : Registered)
    (actions : List (BackendAction P Handle))
    (orderly : Along (Backends.after config) (Orderly config) (.start fixed registered) actions) :
    Along (Backends.after config) (Unharmed config) (.start fixed registered) actions ↔
      Along (Backends.after config) (Clear config) (.start fixed registered) actions := by
  have start : OwnedBy (Backends.start fixed registered : Backends P Handle).proxies
      (Backends.start fixed registered : Backends P Handle).vmm.emudev := owned_of_vacant ⟨rfl, rfl⟩
  refine along_iff (I := fun s => OwnedBy s.proxies s.vmm.emudev) (fun s action owned _ => ?_)
    (fun s action owned orderly _ => owned_after action orderly owned) start orderly
  cases action with
  | init ioProxy => exact unharmed_init owned
  | message _ _ _ _ => exact Iff.rfl

instance (config : Config P) (s : Backends P Handle) :
    (action : BackendAction P Handle) → Decidable (Orderly config s action)
  | .init _ => inferInstanceAs (Decidable (_ ∧ _))
  | .message _ _ _ _ => inferInstanceAs (Decidable (_ ∧ _))

theorem apart_of_all {irqs : List (BitVec 32)} {registered : Registered}
    (all : (irqs.all fun irq => refusesSecond registered irq) = true) : ∀ irq ∈ irqs, irq ∉ registered := by
  intro irq inside
  simpa [refusesSecond] using List.all_eq_true.mp all irq inside

/-- Two io_proxies next to each other, in a VM with interrupts from 64 on for INTx. -/
def pair (plat : Option Plat) : Config Bool where
  plat
  intxBase := 64#32
  ctrl self := if self then ⟨0x3f000000#64, 0x2000#64⟩ else ⟨0x3f002000#64, 0x2000#64⟩

def mapping (self : Bool) : BackendAction Bool Nat :=
  .message self (Session.initial ⟨(Backends.start [] []).vmm, true, 1⟩).proxy
    ⟨20#64, 0x10000000#64, 0x1000#64, 0#64⟩ 7

/-- Without an MSI frame two can start one after the other, as long as no backend talks before. -/
theorem initialisations_unharmed_silent :
    Along (Backends.after (pair none)) (Unharmed (pair none)) (.start [⟨0x40000000#64, 0x8000000#64⟩] [33#32])
      [.init true, .init false, mapping true, mapping false] := by
  refine (initialisations_unharmed_iff_clear (pair none) _ _ _ (by decide +kernel)).mpr ?_
  have vacant : Available (pair none) (.start [⟨0x40000000#64, 0x8000000#64⟩] [33#32] : Backends Bool Nat) true :=
    ⟨by decide +kernel, fun _ => apart_of_all (by decide +kernel), by rintro plat ⟨⟩⟩
  have next : Available (pair none) (Backends.after (pair none)
      (.start [⟨0x40000000#64, 0x8000000#64⟩] [33#32] : Backends Bool Nat) (.init true)) false :=
    ⟨by decide +kernel, fun undone => absurd undone (by decide +kernel), by rintro plat ⟨⟩⟩
  exact ⟨⟨vacant, rfl, rfl⟩, ⟨next, by decide +kernel, by decide +kernel⟩, trivial, trivial, trivial⟩

/-- With a frame, the second initialisation fails; without one, it drops the region that the
first backend has reserved. -/
theorem initialisations_harmed :
    Along (Backends.after (pair (some .rpi4))) (Orderly (pair (some .rpi4))) (.start [] [] : Backends Bool Nat)
        [.init true, .init false] ∧
      ¬Along (Backends.after (pair (some .rpi4))) (Unharmed (pair (some .rpi4))) (.start [] [] : Backends Bool Nat)
        [.init true, .init false] ∧
      Along (Backends.after (pair none)) (Orderly (pair none)) (.start [] []) [.init true, mapping true, .init false] ∧
      ¬Along (Backends.after (pair none)) (Unharmed (pair none)) (.start [] [])
        [.init true, mapping true, .init false] := by
  refine ⟨by decide +kernel, ?_, by decide +kernel, ?_⟩
  · rintro ⟨_, ⟨t, complete, _⟩, _⟩
    have code := congrArg (Option.map Prod.snd) complete
    simp only [Option.map_some] at code
    revert code
    decide +kernel
  · rintro ⟨_, _, ⟨t, complete, inPlace⟩, _⟩
    have kept := inPlace.mmio ⟨0x10000000#64, 0x1000#64, true⟩ ⟨⟨0x10000000#64, 0x1000#64, true⟩, 7⟩
      (by decide +kernel) (by decide +kernel)
    -- the registry of regions is initialised again
    have lost := congrArg (Option.map fun result => result.1.vmm.emudev.mmio.mmioReservations) complete
    rw [Option.map_some] at lost
    have none_ : t.vmm.emudev.mmio.mmioReservations = [] := by
      refine (Option.some.inj lost).symm.trans ?_
      decide +kernel
    rw [none_] at kept
    cases kept

end Virtioso.Vmm
