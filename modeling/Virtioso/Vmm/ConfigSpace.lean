import Virtioso.Foundation.Digits
import Virtioso.Proxy.NativeValues

/-! The configuration space of a device, as the guest reads it.

The interrupt line and pin of a device are those the VMM routes it to, not those its
backend knows. Only a read of one byte puts them in their place.
-/

set_option autoImplicit false

namespace Virtioso.Vmm

open Foundation Irq Proxy
open Virtioso.Ring (CasVariant)
open Rpc (Fault)

variable {P W : Type}

/-- `AS_PCIDEV`. -/
def asPcidev (pcidev : BitVec 32) : BitVec 32 := pcidev

/-- When a thread calls: its record, at the address `cookie`, the io_proxies, and what the call meets. -/
structure Circumstance (P W : Type) where
  cookie : Cookie
  native : IoreqNative
  proxies : P → IoProxy W
  meanwhile : Meanwhile W

/-- The request of `pci_cfg_start`. -/
def Circumstance.request (c : Circumstance P W) (pcidev : PciDev P) (dir : BitVec 32) (offset size value : BitVec 64) :
    NativeReq W :=
  let backendSlot := pciSlot pcidev.backendDevfn
  ⟨c.proxies pcidev.ioProxy, asPcidev backendSlot, dir, offset, size, value⟩

/-- `pci_cfg_start`. -/
def pciCfgStart (v : CasVariant) (c : Circumstance P W) (pcidev : PciDev P) (dir : BitVec 32)
    (offset size value : BitVec 64) : Except Fault (BitVec 64) := do
  let done ← ioreqNative v c.cookie c.native (c.request pcidev dir offset size value) c.meanwhile
  return if done.result ≠ 0 then 0#64 else done.value

/-- `pci_cfg_read`. -/
def pciCfgRead (v : CasVariant) (c : Circumstance P W) (pcidev : PciDev P) (offset : BitVec 32) (sz : BitVec 64) :
    Except Fault (BitVec 64) :=
  pciCfgStart v c pcidev sel4IoDirRead (offset.setWidth 64) sz 0#64

/-- `pci_cfg_read16`; `read` is the value `pci_cfg_read` gets from the backend. -/
def pciCfgRead16 (read : BitVec 32 → BitVec 64) (offset : BitVec 32) : BitVec 16 := (read offset).setWidth 16

/-- `pci_cfg_read32`. -/
def pciCfgRead32 (read : BitVec 32 → BitVec 64) (offset : BitVec 32) : BitVec 32 := (read offset).setWidth 32

def covered (space : Nat → Byte) (offset n : Nat) : List Byte := (List.range n).map fun i => space (offset + i)

/-- The backend is asked once and replies with its bytes from `offset` on, the least significant first. -/
structure Circumstance.Answered (v : CasVariant) (c : Circumstance P W) (pcidev : PciDev P) (content : Nat → Byte)
    (offset : BitVec 32) (n : Nat) : Prop where
  resting : c.native.handoff = 0
  served : Served v c.cookie c.native
    ⟨c.request pcidev sel4IoDirRead (offset.setWidth 64) (BitVec.ofNat 64 n) 0#64, c.meanwhile⟩
  reply : c.meanwhile.response.mr2 = BitVec.ofNat 64 (leValue (covered content offset.toNat n))

/-- What `pci_cfg_read` returns for each width and offset. -/
structure BackendReads (v : CasVariant) (pcidev : PciDev P) (content : Nat → Byte)
    (asked : Nat → BitVec 32 → Circumstance P W) (read : Nat → BitVec 32 → BitVec 64) : Prop where
  answered : ∀ n ∈ [1, 2, 4], ∀ offset, (asked n offset).Answered v pcidev content offset n
  returned : ∀ n ∈ [1, 2, 4], ∀ offset,
    pciCfgRead v (asked n offset) pcidev offset (BitVec.ofNat 64 n) = .ok (read n offset)

def guestByte (base : BitVec 32) (read : Nat → BitVec 32 → BitVec 64) (pcidev : PciDev P) (offset : Nat) : Byte :=
  pciCfgRead8 base (read 1) pcidev (BitVec.ofNat 32 offset)

structure ReadsAgree (base : BitVec 32) (read : Nat → BitVec 32 → BitVec 64) (pcidev : PciDev P) (offset : BitVec 32) :
    Prop where
  read16 : offset.toNat % 2 = 0 →
    (pciCfgRead16 (read 2) offset).toNat = leValue (covered (guestByte base read pcidev) offset.toNat 2)
  read32 : offset.toNat % 4 = 0 →
    (pciCfgRead32 (read 4) offset).toNat = leValue (covered (guestByte base read pcidev) offset.toNat 4)

/-- The backend holds the interrupt line and pin that the VMM routes the device to. -/
def OwnInterrupt (base : BitVec 32) (pcidev : PciDev P) (content : Nat → Byte) : Prop :=
  content 0x3c = (base + BitVec.ofNat 32 (pciMapIrq pcidev).val).setWidth 8 ∧
    content 0x3d = BitVec.ofNat 8 ((pciMapIrq pcidev).val + 1)

section Reads
variable {v : CasVariant} {base : BitVec 32} {pcidev : PciDev P} {content : Nat → Byte}
  {asked : Nat → BitVec 32 → Circumstance P W} {read : Nat → BitVec 32 → BitVec 64} {offset : BitVec 32} {n : Nat}

theorem Circumstance.Answered.returns {c : Circumstance P W} (answered : c.Answered v pcidev content offset n) :
    pciCfgRead v c pcidev offset (BitVec.ofNat 64 n) = .ok (BitVec.ofNat 64 (leValue (covered content offset.toNat n))) := by
  obtain ⟨done, ran, succeeds, answer⟩ := answered.served.returns answered.resting
  have value := answer.2.2
  have returns : ioreqNative v c.cookie c.native _ c.meanwhile = .ok done := ran
  rw [pciCfgRead, pciCfgStart, returns]
  have reply : done.value = c.meanwhile.response.mr2 := value.trans (if_pos rfl)
  simp [bind, Except.bind, pure, Except.pure, succeeds, reply, answered.reply]

theorem BackendReads.value (backend : BackendReads v pcidev content asked read) (width : n ∈ [1, 2, 4]) :
    read n offset = BitVec.ofNat 64 (leValue (covered content offset.toNat n)) := by
  have returned := backend.returned n width offset
  rw [(backend.answered n width offset).returns] at returned
  exact (Except.ok.inj returned).symm

theorem BackendReads.truncated (backend : BackendReads v pcidev content asked read) (width : n ∈ [1, 2, 4]) {w : Nat}
    (wide : 256 ^ n ≤ 2 ^ w) : ((read n offset).setWidth w).toNat = leValue (covered content offset.toNat n) := by
  have below := leValue_lt (covered content offset.toNat n)
  have length : (covered content offset.toNat n).length = n := by simp [covered]
  have small : 256 ^ n < 2 ^ 64 := by
    have cases_ : n = 1 ∨ n = 2 ∨ n = 4 := by simpa using width
    rcases cases_ with rfl | rfl | rfl <;> decide
  rw [length] at below
  rw [backend.value width, BitVec.toNat_setWidth, BitVec.toNat_ofNat, Nat.mod_eq_of_lt (Nat.lt_trans below small),
    Nat.mod_eq_of_lt (Nat.lt_of_lt_of_le below wide)]

/-- A byte is the backend's, unless it is the interrupt line or the pin. -/
theorem BackendReads.byte_iff (backend : BackendReads v pcidev content asked read) {k : Nat} (inside : k < 2 ^ 32) :
    content k = guestByte base read pcidev k ↔
      (k = 0x3c → content k = (base + BitVec.ofNat 32 (pciMapIrq pcidev).val).setWidth 8) ∧
        (k = 0x3d → content k = BitVec.ofNat 8 ((pciMapIrq pcidev).val + 1)) := by
  have named : (BitVec.ofNat 32 k).toNat = k := Nat.mod_eq_of_lt inside
  have line : BitVec.ofNat 32 k = pciInterruptLine ↔ k = 0x3c := by
    rw [← BitVec.toNat_inj, named]
    rfl
  have pin : BitVec.ofNat 32 k = pciInterruptPin ↔ k = 0x3d := by
    rw [← BitVec.toNat_inj, named]
    rfl
  rw [guestByte, pciCfgRead8]
  by_cases first : k = 0x3c
  · rw [if_pos (line.mpr first)]
    simp [first]
  · rw [if_neg (mt line.mp first)]
    by_cases second : k = 0x3d
    · rw [if_pos (pin.mpr second)]
      simp [second]
    · rw [if_neg (mt pin.mp second)]
      have own : (read 1 (BitVec.ofNat 32 k)).setWidth 8 = content k := by
        apply BitVec.eq_of_toNat_eq
        rw [backend.truncated (by decide) (by decide), named]
        simp [covered]
      simp [first, second, own]

theorem covered_eq_iff {space other : Nat → Byte} {k : Nat} :
    leValue (covered space k n) = leValue (covered other k n) ↔ ∀ i < n, space (k + i) = other (k + i) := by
  rw [leValue_inj (by simp [covered]), covered, covered, List.map_inj_left]
  simp only [List.mem_range]

theorem BackendReads.bytes_iff (backend : BackendReads v pcidev content asked read) (width : n = 2 ∨ n = 4)
    (aligned : offset.toNat % n = 0) :
    (∀ i < n, content (offset.toNat + i) = guestByte base read pcidev (offset.toNat + i)) ↔
      (offset.toNat = 0x3c → OwnInterrupt base pcidev content) := by
  have top := offset.isLt
  -- a block of this width that holds the line or the pin starts with the line
  have block : ∀ i < n, offset.toNat + i < 2 ^ 32 ∧ (offset.toNat + i = 0x3c ∨ offset.toNat + i = 0x3d →
      offset.toNat = 0x3c) := by
    intro i below
    rcases width with rfl | rfl
    · omega
    · omega
  constructor
  · intro same here
    have line := (backend.byte_iff (by omega)).mp (same 0 (by omega))
    have pin := (backend.byte_iff (by omega)).mp (same 1 (by omega))
    rw [here] at line pin
    exact ⟨line.1 rfl, pin.2 rfl⟩
  · intro own i below
    obtain ⟨inside, start⟩ := block i below
    rw [backend.byte_iff inside]
    constructor
    · intro line
      rw [line]
      exact (own (start (.inl line))).1
    · intro pin
      rw [pin]
      exact (own (start (.inr pin))).2

end Reads

/-- For every device, every content of its backend and every offset, wide aligned reads return the bytes
that reads of one byte return, if and only if they do not cover the interrupt line and pin or the backend
holds those of the VMM. -/
theorem pci_cfg_reads_agree_iff (v : CasVariant) (base : BitVec 32) (pcidev : PciDev P) (content : Nat → Byte)
    (asked : Nat → BitVec 32 → Circumstance P W) (read : Nat → BitVec 32 → BitVec 64)
    (backend : BackendReads v pcidev content asked read) (offset : BitVec 32) :
    ReadsAgree base read pcidev offset ↔ offset ≠ pciInterruptLine ∨ OwnInterrupt base pcidev content := by
  have here : offset = pciInterruptLine ↔ offset.toNat = 0x3c := by
    rw [← BitVec.toNat_inj]
    rfl
  have two : offset.toNat % 2 = 0 → ((pciCfgRead16 (read 2) offset).toNat =
      leValue (covered (guestByte base read pcidev) offset.toNat 2) ↔
        (offset.toNat = 0x3c → OwnInterrupt base pcidev content)) := by
    intro aligned
    rw [pciCfgRead16, backend.truncated (by decide) (by decide), covered_eq_iff]
    exact backend.bytes_iff (.inl rfl) aligned
  have four : offset.toNat % 4 = 0 → ((pciCfgRead32 (read 4) offset).toNat =
      leValue (covered (guestByte base read pcidev) offset.toNat 4) ↔
        (offset.toNat = 0x3c → OwnInterrupt base pcidev content)) := by
    intro aligned
    rw [pciCfgRead32, backend.truncated (by decide) (by decide), covered_eq_iff]
    exact backend.bytes_iff (.inr rfl) aligned
  rw [← imp_iff_not_or, here]
  constructor
  · intro agree at_
    exact (two (by omega)).mp (agree.read16 (by omega)) at_
  · intro own
    exact ⟨fun aligned => (two aligned).mpr own, fun aligned => (four aligned).mpr own⟩

/-! ### A device with a backend that replies at once -/

def replying (content : Nat → Byte) (n : Nat) (offset : BitVec 32) : Circumstance Unit Unit :=
  ⟨64#64, .initial, fun _ => (Session.initial ()).proxy,
    ⟨0, sel4MmioNativeBase, id, ⟨0x400#64, 0#64, BitVec.ofNat 64 (leValue (covered content offset.toNat n)), 0#64⟩⟩⟩

theorem pciSlot_le (devfn : BitVec 32) : (pciSlot devfn).toNat ≤ asGlobal.toNat := by
  rw [pciSlot, BitVec.toNat_and]
  exact Nat.le_trans Nat.and_le_right (by decide)

theorem replying_reads (v : CasVariant) (pcidev : PciDev Unit) (content : Nat → Byte) :
    BackendReads v pcidev content (replying content) fun n offset =>
      BitVec.ofNat 64 (leValue (covered content offset.toNat n)) := by
  have answered : ∀ n ∈ [1, 2, 4], ∀ offset, (replying content n offset).Answered v pcidev content offset n := by
    intro n width offset
    have size : (BitVec.ofNat 64 n).toNat ≤ 8 := by
      have cases_ : n = 1 ∨ n = 2 ∨ n = 4 := by simpa using width
      rcases cases_ with rfl | rfl | rfl <;> decide
    let req := (replying content n offset).request pcidev sel4IoDirRead (offset.setWidth 64) (BitVec.ofNat 64 n) 0#64
    have served : Served v 64#64 .initial (req.repliedAtOnce (replying content n offset).meanwhile.response.mr2) :=
      repliedAtOnce_served v 64#64 (.inl rfl) (.inl rfl) (pciSlot_le _) size _
    exact ⟨rfl, served, rfl⟩
  exact ⟨answered, fun n width offset => (answered n width offset).returns⟩

def slotTwo : PciDev Unit := ⟨16#32, 8#32, ()⟩

theorem pci_cfg_reads_agree_elsewhere :
    ReadsAgree 64#32 (fun n offset => BitVec.ofNat 64 (leValue (covered (BitVec.ofNat 8) offset.toNat n))) slotTwo
      0x40#32 :=
  (pci_cfg_reads_agree_iff .user 64#32 slotTwo (BitVec.ofNat 8) _ _ (replying_reads .user slotTwo (BitVec.ofNat 8))
    0x40#32).mpr (.inl (by decide))

/-- A backend whose bytes are all zero: the read of two bytes at the interrupt line returns its zeros. -/
theorem pci_cfg_reads_disagree : ¬∀ (content : Nat → Byte) (asked : Nat → BitVec 32 → Circumstance Unit Unit)
    (read : Nat → BitVec 32 → BitVec 64), BackendReads .user slotTwo content asked read →
      ∀ offset, ReadsAgree 64#32 read slotTwo offset := by
  intro agree
  have same := (agree _ _ _ (replying_reads .user slotTwo fun _ => 0#8) pciInterruptLine).read16 (by decide)
  revert same
  decide

end Virtioso.Vmm
