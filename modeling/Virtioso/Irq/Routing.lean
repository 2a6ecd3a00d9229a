import Mathlib.Data.List.Find
import Mathlib.Data.List.Nodup
import Virtioso.Foundation.Runs
import Virtioso.Irq.Pci

/-! INTx routing: each line carries the wired-OR of the devices mapped to it.

The specification keeps the list of registrations and the level last asked for by
each pair of a backend and one of its slots. The code's masks, lines and calls are
related to it message by message.
-/

set_option autoImplicit false

namespace Virtioso.Irq

open Foundation
open Virtioso.Ring (Msg)

/-- Registrations as io_proxy, backend slot and guest slot, and the level last asked
for by an accepted message of a pair. -/
structure Routing (Proxy : Type) where
  devices : List (Proxy × Nat × Nat)
  asked : Proxy → Nat → Bool

structure PciMessage (Proxy : Type) where
  ext : External
  ioProxy : Proxy
  op : BitVec 32
  msg : Msg

def PciMessage.slot {Proxy : Type} (m : PciMessage Proxy) : Nat := m.msg.mr1.toNat % 32

variable {Proxy : Type} [DecidableEq Proxy]

def Routing.initial : Routing Proxy := ⟨[], fun _ _ => false⟩

def Routing.guest (r : Routing Proxy) (ioProxy : Proxy) (slot : Nat) : Option Nat :=
  (r.devices.find? fun d => d.1 == ioProxy && d.2.1 == slot).map (·.2.2)

def Routing.ask (r : Routing Proxy) (ioProxy : Proxy) (slot : Nat) (level : Bool) : Routing Proxy :=
  { r with
    asked := fun other at_ => if other = ioProxy ∧ at_ = slot then level else r.asked other at_ }

def Routing.granted (r : Routing Proxy) (ext : External) : Option Nat :=
  if r.devices.length < pciNumAvailDevices ∧ ext.allocated = true then ext.entry.map (·.1.toNat) else none

/-- A pulse counts as cleared. -/
def askedLevel (irqOp : BitVec 32) : Option Bool :=
  if irqOp = rpcIrqSet then some true
  else if irqOp = rpcIrqClr ∨ irqOp = rpcIrqPulse then some false
  else none

def Routing.observe (r : Routing Proxy) (m : PciMessage Proxy) : Routing Proxy :=
  if m.op = qemuOpSetIrq ∧ irqIsPci (m.msg.mr1.setWidth 32) = true then
    match r.guest m.ioProxy m.slot, askedLevel (m.msg.mr2.setWidth 32) with
    | some _, some level => r.ask m.ioProxy m.slot level
    | _, _ => r
  else if m.op = qemuOpRegisterPciDev then
    match r.granted m.ext with
    | some guest => { r with devices := r.devices ++ [(m.ioProxy, m.slot, guest)] }
    | none => r
  else r

/-- Some pair asks for a high level of the device at this guest slot, on this line. -/
def Routing.High (r : Routing Proxy) (i : Fin pciNumPins) (guest : Nat) : Prop :=
  guest % pciNumPins = i.val ∧
    ∃ ioProxy slot, r.guest ioProxy slot = some guest ∧ r.asked ioProxy slot = true

def devfnOf (slot : Nat) : BitVec 32 := BitVec.ofNat 32 (slot * 8)

section Devfn

theorem toNat_devfn {w : Nat} (x : BitVec w) (wide : 8 ≤ w) :
    (pciDevfn x 0#w).toNat = x.toNat % 32 * 8 := by
  have room : 2 ^ 8 ≤ 2 ^ w := Nat.pow_le_pow_right (by decide) wide
  have mask : (0x1f#w).toNat = 2 ^ 5 - 1 := by
    rw [BitVec.toNat_ofNat]
    exact Nat.mod_eq_of_lt (by omega)
  rw [pciDevfn, BitVec.zero_and, BitVec.or_zero, BitVec.toNat_shiftLeft, BitVec.toNat_and, mask,
    Nat.and_two_pow_sub_one_eq_mod, Nat.shiftLeft_eq]
  exact Nat.mod_eq_of_lt (by omega)

theorem devfn_of_word (x : BitVec 64) :
    (pciDevfn x 0#64).setWidth 32 = devfnOf (x.toNat % 32) := by
  apply BitVec.eq_of_toNat_eq
  rw [BitVec.toNat_setWidth, toNat_devfn x (by decide), devfnOf, BitVec.toNat_ofNat]

theorem devfn_of_byte (x : BitVec 8) : pciDevfn (x.setWidth 32) 0#32 = devfnOf (x.toNat % 32) := by
  have byte := x.isLt
  apply BitVec.eq_of_toNat_eq
  rw [toNat_devfn _ (by decide), BitVec.toNat_setWidth, devfnOf, BitVec.toNat_ofNat]
  omega

theorem pciSlot_devfnOf {slot : Nat} (below : slot < 32) : (pciSlot (devfnOf slot)).toNat = slot := by
  have mask : (0x1f#32).toNat = 2 ^ 5 - 1 := by decide
  rw [pciSlot, BitVec.toNat_and, BitVec.toNat_ushiftRight, devfnOf, BitVec.toNat_ofNat, mask,
    Nat.and_two_pow_sub_one_eq_mod, Nat.shiftRight_eq_div_pow]
  omega

theorem devfnOf_inj {a b : Nat} (first : a < 32) (second : b < 32) : devfnOf a = devfnOf b ↔ a = b := by
  refine ⟨fun same => ?_, fun same => by rw [same]⟩
  have slots := congrArg (fun devfn => (pciSlot devfn).toNat) same
  simpa only [pciSlot_devfnOf first, pciSlot_devfnOf second] using slots

end Devfn

def deviceOf (d : Proxy × Nat × Nat) : PciDev Proxy := ⟨devfnOf d.2.2, devfnOf d.2.1, d.1⟩

structure Routed (base : BitVec 32) (s : PciState Proxy) (r : Routing Proxy) : Prop where
  devices : s.pciDevs = r.devices.map deviceOf
  slots : ∀ d ∈ r.devices, d.2.1 < 32 ∧ d.2.2 < 32
  distinct : (r.devices.map (·.2.2)).Nodup
  irq : ∀ i, (s.pciIntx i).irq = base + BitVec.ofNat 32 i.val
  masks : ∀ i, Masks (s.pciIntx i).sources (r.High i)
  /-- only registered pairs have asked for a level -/
  known : ∀ ioProxy slot, r.asked ioProxy slot = true → ∃ guest, r.guest ioProxy slot = some guest
  level : ∀ i, s.level (base + BitVec.ofNat 32 i.val) = ((s.pciIntx i).sources != 0#64)

variable {base : BitVec 32} {s : PciState Proxy} {r : Routing Proxy}

theorem routed_initial : Routed base (irqInit base : PciState Proxy) .initial where
  devices := rfl
  slots d member := by cases member
  distinct := List.nodup_nil
  irq _ := rfl
  masks i := by
    intro k _
    simp [irqInit, Routing.High, Routing.guest, Routing.initial]
  known _ _ asked := by cases asked
  level i := rfl

theorem guest_mem {ioProxy : Proxy} {slot guest : Nat} (found : r.guest ioProxy slot = some guest) :
    (ioProxy, slot, guest) ∈ r.devices := by
  obtain ⟨d, first, rfl⟩ := Option.map_eq_some_iff.mp found
  have member := List.mem_of_find?_eq_some first
  have matches_ := List.find?_some first
  simp only [Bool.and_eq_true, beq_iff_eq] at matches_
  obtain ⟨rfl, rfl⟩ := matches_
  exact member

theorem Routed.find (routed : Routed base s r) (ioProxy : Proxy) {slot : Nat} (below : slot < 32) :
    pcidevFind s ioProxy (devfnOf slot) =
      (r.guest ioProxy slot).map fun guest => deviceOf (ioProxy, slot, guest) := by
  rw [pcidevFind, routed.devices, List.find?_map, Routing.guest, Option.map_map]
  have same : r.devices.find? ((fun dev : PciDev Proxy =>
        dev.ioProxy == ioProxy && dev.backendDevfn == devfnOf slot) ∘ deviceOf) =
      r.devices.find? fun d => d.1 == ioProxy && d.2.1 == slot := by
    apply List.find?_congr
    intro d member
    have slots := devfnOf_inj (routed.slots d member).1 below
    rw [Bool.eq_iff_iff]
    simp only [Function.comp_apply, deviceOf, Bool.and_eq_true, beq_iff_eq, slots]
  rw [same]
  cases first : r.devices.find? fun d => d.1 == ioProxy && d.2.1 == slot with
  | none => rfl
  | some d =>
    have matches_ := List.find?_some first
    simp only [Bool.and_eq_true, beq_iff_eq] at matches_
    obtain ⟨rfl, rfl⟩ := matches_
    rfl

/-- Guest slots are distinct, so a guest slot belongs to one pair at most. -/
theorem Routed.owner (routed : Routed base s r) {a b : Proxy} {at_ slot guest : Nat}
    (first : r.guest a at_ = some guest) (second : r.guest b slot = some guest) :
    a = b ∧ at_ = slot := by
  have same := List.inj_on_of_nodup_map routed.distinct (guest_mem first) (guest_mem second) rfl
  cases same
  exact ⟨rfl, rfl⟩

theorem Routed.high_ask (routed : Routed base s r) {ioProxy : Proxy} {slot guest : Nat}
    (found : r.guest ioProxy slot = some guest) (level : Bool) (i : Fin pciNumPins) (x : Nat) :
    (r.ask ioProxy slot level).High i x ↔
      if x = guest ∧ guest % pciNumPins = i.val then level = true else r.High i x := by
  unfold Routing.High
  by_cases here : x = guest
  · subst here
    by_cases line : x % pciNumPins = i.val
    · rw [if_pos ⟨rfl, line⟩]
      constructor
      · rintro ⟨_, other, at_, same, asked⟩
        obtain ⟨rfl, rfl⟩ := routed.owner found same
        simpa [Routing.ask] using asked
      · intro high
        exact ⟨line, ioProxy, slot, found, by simpa [Routing.ask] using high⟩
    · simp [line]
  · rw [if_neg fun both => here both.1]
    -- every pair behind another guest slot is another pair
    have same : ∀ other at_, r.guest other at_ = some x →
        (r.ask ioProxy slot level).asked other at_ = r.asked other at_ := by
      intro other at_ there
      refine if_neg ?_
      rintro ⟨rfl, rfl⟩
      exact here (Option.some.inj (there.symm.trans found))
    constructor
    · rintro ⟨line, other, at_, there, asked⟩
      exact ⟨line, other, at_, there, same other at_ there ▸ asked⟩
    · rintro ⟨line, other, at_, there, asked⟩
      exact ⟨line, other, at_, there, (same other at_ there).trans asked⟩

def PciState.change (s : PciState Proxy) (i : Fin pciNumPins) (sources : BitVec 64) : PciState Proxy :=
  { s with
    pciIntx := Function.update s.pciIntx i ⟨(s.pciIntx i).irq, sources⟩
    driven :=
      if ((s.pciIntx i).sources != 0#64) = (sources != 0#64) then s.driven
      else ((s.pciIntx i).irq, sources != 0#64) :: s.driven }

omit [DecidableEq Proxy] in
theorem change_level (s : PciState Proxy) (i : Fin pciNumPins) (sources : BitVec 64) (irq : BitVec 32) :
    (s.change i sources).level irq =
      if irq = (s.pciIntx i).irq ∧ ((s.pciIntx i).sources != 0#64) ≠ (sources != 0#64) then sources != 0#64
      else s.level irq := by
  unfold PciState.level PciState.change
  by_cases same : ((s.pciIntx i).sources != 0#64) = (sources != 0#64)
  · simp [same]
  · by_cases here : irq = (s.pciIntx i).irq
    · simp [same, here]
    · simp [same, here, Ne.symm here]

theorem line_irq_inj {i j : Fin pciNumPins}
    (same : base + BitVec.ofNat 32 i.val = base + BitVec.ofNat 32 j.val) : i = j := by
  have values := congrArg BitVec.toNat ((BitVec.add_right_inj base).mp same)
  have first := i.isLt
  have second := j.isLt
  have pins : pciNumPins = 4 := rfl
  simp only [BitVec.toNat_ofNat] at values
  omega

theorem Routed.intx_set (routed : Routed base s r) {ioProxy : Proxy} {slot guest : Nat} (below : slot < 32)
    (found : r.guest ioProxy slot = some guest) {ext : External} (accepts : ext.accepts = fun _ => true)
    (level : Bool) :
    ∃ i : Fin pciNumPins, guest % pciNumPins = i.val ∧
      pcidevIntxSet ext s ioProxy (devfnOf slot) level =
        (s.change i (changeSources (s.pciIntx i).sources (pciSlot (devfnOf guest)) level), 0) := by
  have inside := (routed.slots _ (guest_mem found)).2
  have source : (pciSlot (devfnOf guest)).toNat = guest := pciSlot_devfnOf inside
  have pci : irqIsPci (pciSlot (devfnOf slot)) = true := by
    simp only [irqIsPci, decide_eq_true_eq, BitVec.lt_def, pciSlot_devfnOf below]
    exact below
  refine ⟨pciMapIrq (deviceOf (ioProxy, slot, guest)), ?_, ?_⟩
  · rw [pciMapIrq, deviceOf, source]
    rfl
  · have change := fun line : SharedIrqLine =>
      change_of_lt line (fun _ => true) level (Nat.lt_trans (lt_of_eq_of_lt source inside) (by decide))
    simp only [pcidevIntxSet, pci, Bool.not_true, Bool.false_eq_true, if_false, routed.find ioProxy below,
      found, Option.map_some]
    simp only [deviceOf, accepts, change, PciState.change]
    split
    · next same => simp [same]
    · next other => simp [other, Option.filter]

theorem Routed.set (routed : Routed base s r) {ioProxy : Proxy} {slot guest : Nat} (below : slot < 32)
    (found : r.guest ioProxy slot = some guest) {ext : External} (accepts : ext.accepts = fun _ => true)
    (level : Bool) : ∃ t, pcidevIntxSet ext s ioProxy (devfnOf slot) level = (t, 0) ∧
      Routed base t (r.ask ioProxy slot level) := by
  obtain ⟨i, line, returns⟩ := routed.intx_set below found accepts level
  have inside := (routed.slots _ (guest_mem found)).2
  have source : (pciSlot (devfnOf guest)).toNat = guest := pciSlot_devfnOf inside
  refine ⟨_, returns, routed.devices, routed.slots, routed.distinct, fun j => ?_, fun j => ?_,
    fun other at_ asked => ?_, fun j => ?_⟩
  · by_cases same : j = i
    · subst same
      simpa [PciState.change] using routed.irq j
    · simpa [PciState.change, same] using routed.irq j
  · -- guest slots of one line share its mask, and a guest slot has a bit in one mask only
    by_cases same : j = i
    · subst same
      have masks := (routed.masks j).change (source.symm ▸ inside) level
      simp only [PciState.change, Function.update_self]
      intro k bit
      rw [masks k bit, routed.high_ask found, source]
      simp only [line, and_true]
    · simp only [PciState.change, Function.update_of_ne same]
      intro k bit
      rw [routed.masks j k bit, routed.high_ask found, if_neg]
      rintro ⟨_, other⟩
      exact same (Fin.ext (other.symm.trans line))
  · by_cases pair : other = ioProxy ∧ at_ = slot
    · obtain ⟨rfl, rfl⟩ := pair
      exact ⟨guest, found⟩
    · exact routed.known other at_ (by simpa [Routing.ask, pair] using asked)
  · rw [change_level, routed.irq]
    by_cases same : j = i
    · subst same
      simp only [PciState.change, Function.update_self, true_and, routed.level j]
      split
      · rfl
      · next kept => exact not_not.mp kept
    · have apart : ¬base + BitVec.ofNat 32 j.val = base + BitVec.ofNat 32 i.val :=
        fun irq => same (line_irq_inj irq)
      rw [if_neg fun both => apart both.1]
      simpa [PciState.change, same] using routed.level j

theorem Routed.unregistered (routed : Routed base s r) {ioProxy : Proxy} {slot : Nat} (below : slot < 32)
    (none_ : r.guest ioProxy slot = none) (ext : External) (irqOp : BitVec 32) :
    handlePciIntx ext s ioProxy (devfnOf slot) irqOp = (s, -1) := by
  have refused : ∀ level, pcidevIntxSet ext s ioProxy (devfnOf slot) level = (s, -1) := by
    intro level
    simp only [pcidevIntxSet, routed.find ioProxy below, none_, Option.map_none, ite_self]
  simp [handlePciIntx, refused]

@[simp] theorem ask_ask (ioProxy : Proxy) (slot : Nat) (first second : Bool) :
    (r.ask ioProxy slot first).ask ioProxy slot second = r.ask ioProxy slot second := by
  unfold Routing.ask
  congr 1
  funext other at_
  by_cases pair : other = ioProxy ∧ at_ = slot
  · simp only [if_pos pair]
  · simp only [if_neg pair]

theorem Routed.intx (routed : Routed base s r) {ioProxy : Proxy} {slot guest : Nat} (below : slot < 32)
    (found : r.guest ioProxy slot = some guest) {ext : External} (accepts : ext.accepts = fun _ => true)
    (irqOp : BitVec 32) :
    Routed base (handlePciIntx ext s ioProxy (devfnOf slot) irqOp).1
      (match askedLevel irqOp with
        | some level => r.ask ioProxy slot level
        | none => r) := by
  have set := fun level => routed.set below found accepts level
  unfold handlePciIntx askedLevel
  by_cases op : irqOp = rpcIrqSet
  · obtain ⟨t, returns, keeps⟩ := set true
    simpa [op, returns] using keeps
  by_cases clr : irqOp = rpcIrqClr
  · obtain ⟨t, returns, keeps⟩ := set false
    simpa [clr, rpcIrqClr, rpcIrqSet, returns] using keeps
  by_cases pulse : irqOp = rpcIrqPulse
  · -- the line is set and cleared again
    obtain ⟨t, first, raised⟩ := set true
    obtain ⟨u, second, lowered⟩ := raised.set below found accepts false
    rw [ask_ask] at lowered
    simpa [pulse, rpcIrqClr, rpcIrqSet, rpcIrqPulse, first, second] using lowered
  · simpa [op, clr, pulse] using routed

theorem guest_append {ioProxy other : Proxy} {slot at_ new guest : Nat}
    (found : r.guest other at_ = some guest) :
    ({ r with devices := r.devices ++ [(ioProxy, slot, new)] } : Routing Proxy).guest other at_ =
      some guest := by
  obtain ⟨d, first, rfl⟩ := Option.map_eq_some_iff.mp found
  simp [Routing.guest, List.find?_append, first]

theorem Routed.register (routed : Routed base s r) {slot guest : Nat} (ioProxy : Proxy) (below : slot < 32)
    (inside : guest < 32) (fresh : ∀ d ∈ r.devices, d.2.2 ≠ guest) :
    Routed base { s with pciDevs := s.pciDevs ++ [deviceOf (ioProxy, slot, guest)] }
      { r with devices := r.devices ++ [(ioProxy, slot, guest)] } where
  devices := by rw [List.map_append, routed.devices]; rfl
  slots d member := by
    rcases List.mem_append.mp member with old | new
    · exact routed.slots d old
    · cases List.mem_singleton.mp new
      exact ⟨below, inside⟩
  distinct := by
    rw [List.map_append, List.map_singleton]
    refine List.nodup_append.mpr ⟨routed.distinct, List.nodup_singleton _, ?_⟩
    rintro _ member _ new rfl
    obtain ⟨d, old, same⟩ := List.mem_map.mp member
    exact fresh d old (same.trans (List.mem_singleton.mp new))
  irq := routed.irq
  masks i := by
    intro k bit
    rw [routed.masks i k bit]
    constructor
    · rintro ⟨line, other, at_, found, asked⟩
      exact ⟨line, other, at_, guest_append found, asked⟩
    · -- the new pair has asked for nothing yet
      rintro ⟨line, other, at_, found, asked⟩
      obtain ⟨old, first⟩ := routed.known other at_ asked
      cases (guest_append first).symm.trans found
      exact ⟨line, other, at_, first, asked⟩
  known other at_ asked := by
    obtain ⟨guest, found⟩ := routed.known other at_ asked
    exact ⟨guest, guest_append found⟩
  level := routed.level

/-- What is assumed of the external functions during one message: interrupt lines can be
driven, and a slot handed out is one of 32, function 0, and not handed out before. -/
def PciMessage.Sound (r : Routing Proxy) (m : PciMessage Proxy) : Prop :=
  (∀ level, m.ext.accepts level = true) ∧
    ∀ address ∈ m.ext.entry, address.1.toNat < 32 ∧ address.2 = 0#8 ∧
      ∀ d ∈ r.devices, d.2.2 ≠ address.1.toNat

-- The entry is looked at by cases: it has two bytes, too many values to enumerate.
instance (r : Routing Proxy) (m : PciMessage Proxy) : Decidable (m.Sound r) :=
  @instDecidableAnd _ _ inferInstance (Option.decidableForallMem (o := m.ext.entry))

theorem Routed.registration (routed : Routed base s r) {ext : External} {ioProxy : Proxy} {slot : Nat}
    (below : slot < 32) (entries : ∀ address ∈ ext.entry, address.1.toNat < 32 ∧ address.2 = 0#8 ∧
      ∀ d ∈ r.devices, d.2.2 ≠ address.1.toNat) :
    Routed base (pcidevRegister ext s ioProxy (devfnOf slot)).1
      (match r.granted ext with
        | some guest => { r with devices := r.devices ++ [(ioProxy, slot, guest)] }
        | none => r) := by
  have count : s.pciDevs.length = r.devices.length := by rw [routed.devices, List.length_map]
  unfold pcidevRegister Routing.granted
  rw [count]
  by_cases full : r.devices.length ≥ pciNumAvailDevices
  · simpa [full, Nat.not_lt.mpr full] using routed
  by_cases memory : ext.allocated = true
  · cases entry : ext.entry with
    | none => simpa [full, memory] using routed
    | some address =>
      obtain ⟨dev, func⟩ := address
      obtain ⟨inside, rfl, fresh⟩ := entries (dev, func) entry
      have devfn : pciDevfn (dev.setWidth 32) 0#32 = devfnOf dev.toNat := by
        have byte := devfn_of_byte dev
        rwa [Nat.mod_eq_of_lt inside] at byte
      have keeps := routed.register ioProxy below inside fresh
      simpa [full, Nat.lt_of_not_le full, memory, devfn, deviceOf] using keeps
  · simpa [full, memory] using routed

theorem Routed.message (routed : Routed base s r) {m : PciMessage Proxy} (sound : m.Sound r) :
    Routed base (handlePci m.ext s m.ioProxy m.op m.msg).1 (r.observe m) := by
  obtain ⟨succeeds, entries⟩ := sound
  have accepts : m.ext.accepts = fun _ => true := funext succeeds
  have below : m.slot < 32 := Nat.mod_lt _ (by decide)
  have devfn : (pciDevfn m.msg.mr1 0#64).setWidth 32 = devfnOf m.slot := devfn_of_word _
  have apart : qemuOpSetIrq ≠ qemuOpRegisterPciDev := by decide
  unfold handlePci Routing.observe
  simp only [devfn]
  by_cases irq : m.op = qemuOpSetIrq
  · by_cases pci : irqIsPci (m.msg.mr1.setWidth 32) = true
    · simp only [irq, pci, Bool.not_true, Bool.false_eq_true, if_false, if_true, and_self]
      cases found : r.guest m.ioProxy m.slot with
      | none => simpa [routed.unregistered below found] using routed
      | some guest =>
        have keeps := routed.intx below found accepts (m.msg.mr2.setWidth 32)
        cases asked : askedLevel (m.msg.mr2.setWidth 32) with
        | none => simpa [asked] using keeps
        | some level => simpa [asked] using keeps
    · simp only [Bool.not_eq_true] at pci
      simpa [irq, pci, apart] using routed
  · by_cases register : m.op = qemuOpRegisterPciDev
    · simp only [register, Ne.symm apart, if_false, if_true, false_and]
      exact routed.registration below entries
    · simpa [irq, register] using routed

def pciStep (c : PciState Proxy × Routing Proxy) (m : PciMessage Proxy) :
    Option (PciState Proxy × Routing Proxy) :=
  some ((handlePci m.ext c.1 m.ioProxy m.op m.msg).1, c.2.observe m)

/-- After every message the level of each INTx interrupt is the OR over the pairs mapped
to it, and the guest reads that mapping from the device; a message for an unregistered
device is rejected without effect. -/
theorem pci_intx_routing (base : BitVec 32) (c : PciState Proxy × Routing Proxy)
    (reached : Reach pciStep (fun c m => m.Sound c.2) (irqInit base, Routing.initial) c) :
    (∀ i : Fin pciNumPins, c.1.level (base + BitVec.ofNat 32 i.val) = true ↔
      ∃ ioProxy slot guest, c.2.guest ioProxy slot = some guest ∧ guest % pciNumPins = i.val ∧
        c.2.asked ioProxy slot = true) ∧
    (∀ ioProxy slot guest, c.2.guest ioProxy slot = some guest →
      ∃ pcidev, pcidevFind c.1 ioProxy (devfnOf slot) = some pcidev ∧
        pcidev.devfn = devfnOf guest ∧ ∀ read,
          pciCfgRead8 base read pcidev pciInterruptLine =
            (base + BitVec.ofNat 32 (guest % pciNumPins)).setWidth 8 ∧
          pciCfgRead8 base read pcidev pciInterruptPin = BitVec.ofNat 8 (guest % pciNumPins + 1)) ∧
    ∀ m : PciMessage Proxy, m.op = qemuOpSetIrq → irqIsPci (m.msg.mr1.setWidth 32) = true →
      c.2.guest m.ioProxy m.slot = none → handlePci m.ext c.1 m.ioProxy m.op m.msg = (c.1, .error) := by
  have routed : Routed base c.1 c.2 :=
    reached.invariant (P := fun c => Routed base c.1 c.2) routed_initial fun c m t routed sound edge => by
      cases edge
      exact routed.message sound
  refine ⟨fun i => ?_, fun ioProxy slot guest found => ?_, fun m op pci none_ => ?_⟩
  -- the level, the registers the guest reads, and messages for devices nobody registered
  · rw [routed.level i, (routed.masks i).ne_zero]
    constructor
    · rintro ⟨guest, _, line, ioProxy, slot, found, asked⟩
      exact ⟨ioProxy, slot, guest, found, line, asked⟩
    · rintro ⟨ioProxy, slot, guest, found, line, asked⟩
      exact ⟨guest, (routed.slots _ (guest_mem found)).2, line, ioProxy, slot, found, asked⟩
  · obtain ⟨below, inside⟩ := routed.slots _ (guest_mem found)
    refine ⟨deviceOf (ioProxy, slot, guest), ?_, rfl, fun read => ⟨?_, ?_⟩⟩
    · rw [routed.find ioProxy below, found]
      rfl
    · simp only [pciCfgRead8, if_true, pciMapIrq, pciSwizzle, deviceOf, pciSlot_devfnOf inside, Nat.add_zero]
    · have other : pciInterruptPin ≠ pciInterruptLine := by decide
      simp only [pciCfgRead8, if_neg other, if_true, pciMapIrq, pciSwizzle, deviceOf,
        pciSlot_devfnOf inside, Nat.add_zero]
  · have below : m.slot < 32 := Nat.mod_lt _ (by decide)
    have devfn : (pciDevfn m.msg.mr1 0#64).setWidth 32 = devfnOf m.slot := devfn_of_word _
    have refused := routed.unregistered below none_ m.ext (m.msg.mr2.setWidth 32)
    simp [handlePci, op, pci, devfn, refused]

/-- Backend slot 3 registers at guest slot 31 and raises its interrupt. -/
def raising : List (PciMessage Bool) :=
  [⟨⟨true, some (31#8, 0#8), fun _ => true⟩, true, qemuOpRegisterPciDev, ⟨0#64, 3#64, 0#64, 0#64⟩⟩,
    ⟨⟨true, none, fun _ => true⟩, true, qemuOpSetIrq, ⟨0#64, 3#64, 1#64, 0#64⟩⟩]

theorem pci_intx_routing_raising :
    ∃ c, execute (guarded pciStep fun c m => m.Sound c.2) ((irqInit 64#32 : PciState Bool), .initial)
        raising = some c ∧
      (c.1.pciIntx 3).sources = 0xFFFFFFFF80000000#64 ∧ c.1.level 67#32 = true := by
  have states : (execute (guarded pciStep fun c m => m.Sound c.2) ((irqInit 64#32 : PciState Bool), .initial)
      raising).map (fun c => (c.2.guest true 3, c.2.asked true 3, (c.1.pciIntx 3).sources)) =
        some (some 31, true, 0xFFFFFFFF80000000#64) := by decide +kernel
  obtain ⟨c, ran, facts⟩ := Option.map_eq_some_iff.mp states
  simp only [Prod.mk.injEq] at facts
  obtain ⟨found, asked, sources⟩ := facts
  exact ⟨c, ran, sources, ((pci_intx_routing 64#32 c (.of_execute ran)).1 3).mpr
    ⟨true, 3, 31, found, rfl, asked⟩⟩

end Virtioso.Irq
