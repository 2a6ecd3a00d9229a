import Virtioso.Vmm.ConfigSpace

/-! Reads and writes of configuration space through the backends.

A backend reads the words of a request and serves it from the bytes of its devices. For
the guest the accesses of all widths then work on one array of bytes per device, except
that a read of one byte returns the interrupt line and pin of the VMM.
-/

set_option autoImplicit false

namespace Virtioso.Vmm

open Foundation Irq Proxy
open Virtioso.Ring (CasVariant Msg)
open Rpc (Fault)

variable {P W : Type}

section Write
variable (v : CasVariant) (c : Circumstance P W) (pcidev : PciDev P) (offset : BitVec 32)

/-- `pci_cfg_write`. -/
def pciCfgWrite (sz val : BitVec 64) : Except Fault (BitVec 64) :=
  pciCfgStart v c pcidev sel4IoDirWrite (offset.setWidth 64) sz val

/-- `pci_cfg_write8`. -/
def pciCfgWrite8 (val : BitVec 8) : Except Fault Unit := do
  let _ ← pciCfgWrite v c pcidev offset 1#64 (val.setWidth 64)
  return ()

/-- `pci_cfg_write16`. -/
def pciCfgWrite16 (val : BitVec 16) : Except Fault Unit := do
  let _ ← pciCfgWrite v c pcidev offset 2#64 (val.setWidth 64)
  return ()

/-- `pci_cfg_write32`. -/
def pciCfgWrite32 (val : BitVec 32) : Except Fault Unit := do
  let _ ← pciCfgWrite v c pcidev offset 4#64 (val.setWidth 64)
  return ()

end Write

inductive ConfigOp where
  | read8 (offset : BitVec 32)
  | read16 (offset : BitVec 32)
  | read32 (offset : BitVec 32)
  | write8 (offset : BitVec 32) (val : BitVec 8)
  | write16 (offset : BitVec 32) (val : BitVec 16)
  | write32 (offset : BitVec 32) (val : BitVec 32)
  deriving DecidableEq, Repr

namespace ConfigOp

def dir : ConfigOp → BitVec 32
  | read8 _ | read16 _ | read32 _ => sel4IoDirRead
  | write8 _ _ | write16 _ _ | write32 _ _ => sel4IoDirWrite

def offset : ConfigOp → BitVec 32
  | read8 offset | read16 offset | read32 offset | write8 offset _ | write16 offset _ | write32 offset _ => offset

def size : ConfigOp → Nat
  | read8 _ | write8 _ _ => 1
  | read16 _ | write16 _ _ => 2
  | read32 _ | write32 _ _ => 4

def value : ConfigOp → BitVec 64
  | read8 _ | read16 _ | read32 _ => 0#64
  | write8 _ val => val.setWidth 64
  | write16 _ val => val.setWidth 64
  | write32 _ val => val.setWidth 64

/-- The VMM answers itself. -/
def routed : ConfigOp → Bool
  | read8 offset => offset == pciInterruptLine || offset == pciInterruptPin
  | read16 _ | read32 _ | write8 _ _ | write16 _ _ | write32 _ _ => false

/-- The function, with the number it returns, 0 if it is a write. -/
def perform (v : CasVariant) (base : BitVec 32) (c : Circumstance P W) (pcidev : PciDev P) :
    ConfigOp → Except Fault Nat
  | read8 offset =>
      if (read8 offset).routed then return (pciCfgRead8 base (fun _ => 0#64) pcidev offset).toNat
      else do
        let read ← pciCfgRead v c pcidev offset 1#64
        return (pciCfgRead8 base (fun _ => read) pcidev offset).toNat
  | read16 offset => do
      let read ← pciCfgRead v c pcidev offset 2#64
      return (pciCfgRead16 (fun _ => read) offset).toNat
  | read32 offset => do
      let read ← pciCfgRead v c pcidev offset 4#64
      return (pciCfgRead32 (fun _ => read) offset).toNat
  | write8 offset val => do
      pciCfgWrite8 v c pcidev offset val
      return 0
  | write16 offset val => do
      pciCfgWrite16 v c pcidev offset val
      return 0
  | write32 offset val => do
      pciCfgWrite32 v c pcidev offset val
      return 0

/-- The byte the access writes at `k`, if it does. -/
def writesAt (op : ConfigOp) (k : Nat) : Option Byte :=
  if op.dir = sel4IoDirWrite ∧ op.offset.toNat ≤ k ∧ k < op.offset.toNat + op.size then
    some (op.value.extractLsb' (8 * (k - op.offset.toNat)) 8)
  else none

theorem dir_cases (op : ConfigOp) : op.dir = sel4IoDirRead ∨ op.dir = sel4IoDirWrite := by
  cases op with
  | read8 | read16 | read32 => exact .inl rfl
  | write8 | write16 | write32 => exact .inr rfl

theorem reads_ne_writes {op : ConfigOp} (reads : op.dir = sel4IoDirRead) : op.dir ≠ sel4IoDirWrite := by
  rw [reads]
  decide

theorem size_cases (op : ConfigOp) : op.size = 1 ∨ op.size = 2 ∨ op.size = 4 := by
  cases op with
  | read8 | write8 => exact .inl rfl
  | read16 | write16 => exact .inr (.inl rfl)
  | read32 | write32 => exact .inr (.inr rfl)

def returns (base : BitVec 32) (pcidev : PciDev P) (space : Nat → Byte) : ConfigOp → Nat
  | read8 offset =>
      if offset = pciInterruptLine then (base.toNat + (pciMapIrq pcidev).val) % 256
      else if offset = pciInterruptPin then (pciMapIrq pcidev).val + 1
      else (space offset.toNat).toNat
  | read16 offset => leValue (covered space offset.toNat 2)
  | read32 offset => leValue (covered space offset.toNat 4)
  | write8 _ _ | write16 _ _ | write32 _ _ => 0

end ConfigOp

/-! ### The backend -/

abbrev Spaces := BitVec 64 → Nat → Byte

/-- What a backend does with the words of a request: the spaces afterwards, and the data it replies with. -/
def serveConfig (spaces : Spaces) (words : Msg) : Spaces × BitVec 64 :=
  let device := rpcMr0MmioAddrSpace.get words.mr0
  let size := (rpcMr0MmioLength.get words.mr0).toNat
  if rpcMr0MmioDirection.get words.mr0 = sel4IoDirRead.setWidth 64 then
    (spaces, BitVec.ofNat 64 (leValue (covered (spaces device) words.mr1.toNat size)))
  else
    (Function.update spaces device fun k =>
      if words.mr1.toNat ≤ k ∧ k < words.mr1.toNat + size then
        words.mr2.extractLsb' (8 * (k - words.mr1.toNat)) 8
      else spaces device k, 0#64)

structure Access (P W : Type) where
  pcidev : PciDev P
  op : ConfigOp
  proxies : P → IoProxy W
  meanwhile : Meanwhile W

structure ConfigRun (P : Type) where
  native : IoreqNative
  spaces : P → Spaces

namespace Access

def device (a : Access P W) : BitVec 32 := asPcidev (pciSlot a.pcidev.backendDevfn)

def circumstance (a : Access P W) (cookie : Cookie) (native : IoreqNative) : Circumstance P W :=
  ⟨cookie, native, a.proxies, a.meanwhile⟩

def exchange (a : Access P W) : Exchange W :=
  ⟨⟨a.proxies a.pcidev.ioProxy, a.device, a.op.dir, a.op.offset.setWidth 64, BitVec.ofNat 64 a.op.size, a.op.value⟩,
    a.meanwhile⟩

/-- The words that `ioreq_start` sends. -/
def words (a : Access P W) (cookie : Cookie) (native : IoreqNative) : Msg :=
  (a.exchange.req.start cookie (a.exchange.slot native)).words

def perform (v : CasVariant) (base : BitVec 32) (cookie : Cookie) (native : IoreqNative) (a : Access P W) :
    Except Fault Nat :=
  a.op.perform v base (a.circumstance cookie native) a.pcidev

/-- The byte that the access writes at `k` of a device. -/
def writesAt [DecidableEq P] (ioProxy : P) (device : BitVec 32) (k : Nat) (a : Access P W) : Option Byte :=
  if a.pcidev.ioProxy = ioProxy ∧ a.device = device then a.op.writesAt k else none

/-- The request is served, and a read is replied to with what the backend holds then. -/
structure Met (v : CasVariant) (cookie : Cookie) (s : ConfigRun P) (a : Access P W) : Prop where
  served : a.op.routed = false → Served v cookie s.native a.exchange
  reply : a.op.routed = false → a.op.dir = sel4IoDirRead →
    a.meanwhile.response.mr2 = (serveConfig (s.spaces a.pcidev.ioProxy) (a.words cookie s.native)).2

end Access

section Words
variable (a : Access P W) (cookie : Cookie) (native : IoreqNative)

theorem words_direction : rpcMr0MmioDirection.get (a.words cookie native).mr0 = a.op.dir.setWidth 64 := by
  refine get_after (by decide) (by decide) (get_after (by decide) (by decide) (get_after (by decide) (by decide)
    (get_after (by decide) (by decide) (get_written (by decide) ?_))))
  show a.op.dir.toNat < _
  rcases a.op.dir_cases with reads | writes
  · rw [reads]
    decide
  · rw [writes]
    decide

theorem words_device : rpcMr0MmioAddrSpace.get (a.words cookie native).mr0 = a.device.setWidth 64 := by
  refine get_after (by decide) (by decide) (get_after (by decide) (by decide) (get_after (by decide) (by decide)
    (get_written (by decide) ?_)))
  exact Nat.lt_of_le_of_lt (pciSlot_le a.pcidev.backendDevfn) (by decide)

theorem words_length : (rpcMr0MmioLength.get (a.words cookie native).mr0).toNat = a.op.size := by
  have small : (BitVec.ofNat 64 a.op.size).toNat = a.op.size := by
    rcases a.op.size_cases with size | size | size <;> rw [size] <;> decide
  have written : rpcMr0MmioLength.get (a.words cookie native).mr0 = BitVec.ofNat 64 a.op.size := by
    refine get_after (by decide) (by decide) (get_after (by decide) (by decide)
      (BitField.get_set (by decide) (by decide) ?_))
    show (BitVec.ofNat 64 a.op.size).toNat < _
    rw [small]
    rcases a.op.size_cases with size | size | size <;> rw [size] <;> decide
  rw [written, small]

theorem words_offset : (a.words cookie native).mr1.toNat = a.op.offset.toNat := by
  show (a.op.offset.setWidth 64).toNat = _
  exact BitVec.toNat_setWidth_of_le (by decide)

theorem serve_read (reads : a.op.dir = sel4IoDirRead) (spaces : Spaces) : serveConfig spaces (a.words cookie native) =
    (spaces, BitVec.ofNat 64 (leValue (covered (spaces (a.device.setWidth 64)) a.op.offset.toNat a.op.size))) := by
  unfold serveConfig
  rw [if_pos (by rw [words_direction, reads]), words_device, words_length, words_offset]

theorem setWidth_inj {x y : BitVec 32} : x.setWidth 64 = y.setWidth 64 ↔ x = y := by
  rw [← BitVec.toNat_inj, BitVec.toNat_setWidth_of_le (by decide), BitVec.toNat_setWidth_of_le (by decide),
    BitVec.toNat_inj]

theorem serve_byte (spaces : Spaces) (device : BitVec 32) (k : Nat) :
    (serveConfig spaces (a.words cookie native)).1 (device.setWidth 64) k =
      (if a.device = device then a.op.writesAt k else none).getD (spaces (device.setWidth 64) k) := by
  rcases a.op.dir_cases with reads | writes
  · have kept : a.op.writesAt k = none := if_neg fun covers => ConfigOp.reads_ne_writes reads covers.1
    rw [serve_read a cookie native reads, kept, ite_self]
    rfl
  · have other : ¬rpcMr0MmioDirection.get (a.words cookie native).mr0 = sel4IoDirRead.setWidth 64 := by
      rw [words_direction, writes]
      decide
    unfold serveConfig
    rw [if_neg other, words_device, words_length, words_offset]
    dsimp only
    by_cases same : a.device = device
    · subst same
      rw [Function.update_self, if_pos rfl, ConfigOp.writesAt]
      simp only [writes, true_and]
      split <;> rfl
    · rw [Function.update_of_ne fun equal => same (setWidth_inj.mp equal).symm, if_neg same]
      rfl

end Words

variable [DecidableEq P]

def ConfigRun.after (v : CasVariant) (cookie : Cookie) (s : ConfigRun P) (a : Access P W) : ConfigRun P :=
  if a.op.routed then s
  else
    { native := s.native.after v cookie a.exchange
      spaces := Function.update s.spaces a.pcidev.ioProxy
        (serveConfig (s.spaces a.pcidev.ioProxy) (a.words cookie s.native)).1 }

def lastWritten (ioProxy : P) (device : BitVec 32) (initial : Nat → Byte) (past : List (Access P W)) (k : Nat) : Byte :=
  past.foldl (fun byte a => (a.writesAt ioProxy device k).getD byte) (initial k)

section Step
variable {v : CasVariant} {base : BitVec 32} {cookie : Cookie} {s : ConfigRun P} {a : Access P W}

theorem routed_reads {op : ConfigOp} (routed : op.routed = true) (k : Nat) : op.writesAt k = none := by
  cases op with
  | read8 => exact if_neg fun covers => ConfigOp.reads_ne_writes rfl covers.1
  | read16 | read32 | write8 | write16 | write32 => cases routed

theorem after_byte (ioProxy : P) (device : BitVec 32) (k : Nat) :
    (s.after v cookie a).spaces ioProxy (device.setWidth 64) k =
      (a.writesAt ioProxy device k).getD (s.spaces ioProxy (device.setWidth 64) k) := by
  unfold ConfigRun.after Access.writesAt
  cases routed : a.op.routed with
  | true =>
    rw [if_pos rfl, routed_reads routed, ite_self]
    rfl
  | false =>
    rw [if_neg (by decide)]
    by_cases same : a.pcidev.ioProxy = ioProxy
    · subst same
      simp only [Function.update_self, serve_byte, true_and]
    · rw [if_neg fun both => same both.1]
      dsimp only
      rw [Function.update_of_ne (Ne.symm same)]
      rfl

/-- What the backends hold after a run are the bytes last written. -/
theorem spaces_lastWritten (ioProxy : P) (device : BitVec 32) (past : List (Access P W)) (k : Nat) :
    (past.foldl (ConfigRun.after v cookie) s).spaces ioProxy (device.setWidth 64) k =
      lastWritten ioProxy device (s.spaces ioProxy (device.setWidth 64)) past k := by
  induction past generalizing s with
  | nil => rfl
  | cons a rest ih =>
    rw [List.foldl_cons, ih, lastWritten, after_byte]
    rfl

omit [DecidableEq P] in
theorem start_returns (served : Served v cookie s.native a.exchange) (resting : s.native.handoff = 0) :
    pciCfgStart v (a.circumstance cookie s.native) a.pcidev a.op.dir (a.op.offset.setWidth 64)
      (BitVec.ofNat 64 a.op.size) a.op.value = .ok (lastRead s.native.value a.exchange) := by
  obtain ⟨done, ran, succeeds, _, _, value⟩ := served.returns resting
  have returns : ioreqNative v cookie s.native a.exchange.req a.meanwhile = .ok done := ran
  rw [pciCfgStart]
  show (ioreqNative v cookie s.native a.exchange.req a.meanwhile >>= _) = _
  rw [returns, ← value]
  simp [bind, Except.bind, pure, Except.pure, succeeds]

omit [DecidableEq P] in
theorem read_returns (met : a.Met v cookie s) (asks : a.op.routed = false) (resting : s.native.handoff = 0)
    (reads : a.op.dir = sel4IoDirRead) :
    pciCfgRead v (a.circumstance cookie s.native) a.pcidev a.op.offset (BitVec.ofNat 64 a.op.size) =
      .ok (BitVec.ofNat 64
        (leValue (covered (s.spaces a.pcidev.ioProxy (a.device.setWidth 64)) a.op.offset.toNat a.op.size))) := by
  have start := start_returns (met.served asks) resting
  have value : a.op.value = 0#64 := by
    cases op : a.op with
    | read8 | read16 | read32 => rfl
    | write8 | write16 | write32 => exact absurd (by rw [op]; rfl) (ConfigOp.reads_ne_writes reads)
  rw [reads, value, lastRead, if_pos (show a.exchange.reads from reads)] at start
  rw [pciCfgRead, start]
  show Except.ok a.meanwhile.response.mr2 = _
  rw [met.reply asks reads, serve_read a cookie s.native reads]

theorem toNat_leValue {bytes : List Byte} {w : Nat} (fits : 256 ^ bytes.length ≤ 2 ^ w) (narrow : w ≤ 64) :
    ((BitVec.ofNat 64 (leValue bytes)).setWidth w).toNat = leValue bytes := by
  have below : leValue bytes < 2 ^ w := Nat.lt_of_lt_of_le (leValue_lt bytes) fits
  have word : leValue bytes < 2 ^ 64 := Nat.lt_of_lt_of_le below (Nat.pow_le_pow_right (by decide) narrow)
  rw [BitVec.toNat_setWidth, BitVec.toNat_ofNat, Nat.mod_eq_of_lt word, Nat.mod_eq_of_lt below]

omit [DecidableEq P] in
/-- What a read of one byte returns, once the backend has been asked if need be. -/
theorem read8_returns (base : BitVec 32) (pcidev : PciDev P) {offset : BitVec 32} {space : Nat → Byte} {read : BitVec 64}
    (asked : (ConfigOp.read8 offset).routed = false → read.setWidth 8 = space offset.toNat) :
    (pciCfgRead8 base (fun _ => read) pcidev offset).toNat = (ConfigOp.read8 offset).returns base pcidev space := by
  have pin : (pciMapIrq pcidev).val + 1 < 2 ^ 8 := Nat.lt_of_lt_of_le (Nat.succ_lt_succ (pciMapIrq pcidev).isLt) (by decide)
  rw [pciCfgRead8, ConfigOp.returns]
  by_cases line : offset = pciInterruptLine
  · rw [if_pos line, if_pos line]
    simp
  · rw [if_neg line, if_neg line]
    by_cases second : offset = pciInterruptPin
    · rw [if_pos second, if_pos second, BitVec.toNat_ofNat, Nat.mod_eq_of_lt pin]
    · rw [if_neg second, if_neg second, asked (by simp [ConfigOp.routed, line, second])]

omit [DecidableEq P] in
/-- An access that is served returns what it returns on the bytes the backend holds. -/
theorem met_returns (base : BitVec 32) (met : a.Met v cookie s) (resting : s.native.handoff = 0) :
    a.perform v base cookie s.native =
      .ok (a.op.returns base a.pcidev (s.spaces a.pcidev.ioProxy (a.device.setWidth 64))) := by
  obtain ⟨space, held⟩ : ∃ space, space = s.spaces a.pcidev.ioProxy (a.device.setWidth 64) := ⟨_, rfl⟩
  have read := fun asks => read_returns met asks resting
  have write := fun asks => start_returns (met.served asks) resting
  rw [← held] at read ⊢
  unfold Access.perform
  cases op : a.op with
  | read8 offset =>
    cases routed : (ConfigOp.read8 offset).routed with
    | true =>
      have answers : (pciCfgRead8 base (fun _ => 0#64) a.pcidev offset).toNat =
          (ConfigOp.read8 offset).returns base a.pcidev space :=
        read8_returns base a.pcidev fun asks => absurd (routed.symm.trans asks) (by decide)
      rw [ConfigOp.perform, if_pos routed, answers]
      rfl
    | false =>
      rw [op] at read
      have byte : (BitVec.ofNat 64 (leValue (covered space offset.toNat 1))).setWidth 8 = space offset.toNat :=
        BitVec.eq_of_toNat_eq ((toNat_leValue (by simp [covered]) (by decide)).trans (by simp [covered]))
      rw [ConfigOp.perform, if_neg (by rw [routed]; decide)]
      exact (congrArg (· >>= fun read => pure (pciCfgRead8 base (fun _ => read) a.pcidev offset).toNat)
        (read routed rfl)).trans (congrArg Except.ok (read8_returns base a.pcidev fun _ => byte))
  | read16 offset =>
    rw [op] at read
    exact (congrArg (· >>= fun read => pure (pciCfgRead16 (fun _ => read) offset).toNat) (read rfl rfl)).trans
      (congrArg Except.ok (toNat_leValue (by simp [covered, ConfigOp.size]) (by decide)))
  | read32 offset =>
    rw [op] at read
    exact (congrArg (· >>= fun read => pure (pciCfgRead32 (fun _ => read) offset).toNat) (read rfl rfl)).trans
      (congrArg Except.ok (toNat_leValue (by simp [covered, ConfigOp.size]) (by decide)))
  | write8 | write16 | write32 =>
    rw [op] at write
    exact congrArg (fun answer => (answer >>= fun _ => pure ()) >>= fun _ => pure 0) (write rfl)

/-- The thread waits for each reply, and the next access finds its semaphore at 0. -/
theorem after_resting (met : a.Met v cookie s) (resting : s.native.handoff = 0) :
    (s.after v cookie a).native.handoff = 0 := by
  unfold ConfigRun.after
  cases routed : a.op.routed with
  | true => exact resting
  | false => exact ((met.served routed).after resting).1

end Step

/-- In every sequence of accesses of any width to any devices, each served by its backend once, an access
returns what it returns on the bytes last written to its device, or those the backend held at first. -/
theorem pci_cfg_last_written (v : CasVariant) (base : BitVec 32) (cookie : Cookie) (spaces : P → Spaces)
    (past : List (Access P W)) (a : Access P W)
    (met : Along (ConfigRun.after v cookie) (fun s a => a.Met v cookie s) ⟨.initial, spaces⟩ (past ++ [a])) :
    a.perform v base cookie (past.foldl (ConfigRun.after v cookie) ⟨.initial, spaces⟩).native =
      .ok (a.op.returns base a.pcidev (lastWritten a.pcidev.ioProxy a.device
        (spaces a.pcidev.ioProxy (a.device.setWidth 64)) past)) := by
  obtain ⟨before, last⟩ := along_snoc.mp met
  have resting : (past.foldl (ConfigRun.after v cookie) ⟨.initial, spaces⟩).native.handoff = 0 :=
    along_invariant (I := fun s => s.native.handoff = 0) (fun _ _ resting met => after_resting met resting) rfl before
  have held : (past.foldl (ConfigRun.after v cookie) ⟨.initial, spaces⟩).spaces a.pcidev.ioProxy (a.device.setWidth 64) =
      lastWritten a.pcidev.ioProxy a.device (spaces a.pcidev.ioProxy (a.device.setWidth 64)) past :=
    funext fun k => spaces_lastWritten a.pcidev.ioProxy a.device past k
  rw [met_returns base last resting, held]

def atOnce (op : ConfigOp) (reply : BitVec 64) : Access Unit Unit :=
  ⟨slotTwo, op, fun _ => (Session.initial ()).proxy, ⟨0, sel4MmioNativeBase, id, ⟨0x400#64, 0#64, reply, 0#64⟩⟩⟩

theorem atOnce_served {op : ConfigOp} (reply : BitVec 64) {native : IoreqNative}
    (ready : native = .initial ∨ native.slot = sel4MmioNativeBase ∧ native.handoff = 0) :
    Served .user 64#64 native (atOnce op reply).exchange := by
  have size : ((atOnce op reply).exchange.req.size).toNat ≤ 8 := by
    show (BitVec.ofNat 64 op.size).toNat ≤ 8
    rcases op.size_cases with size | size | size <;> rw [size] <;> decide
  exact repliedAtOnce_served .user 64#64 ready op.dir_cases (pciSlot_le _) size reply

def halves : List (Access Unit Unit) := [atOnce (.write32 0x10#32 0xdeadbeef#32) 0#64]

theorem pci_cfg_last_written_halves :
    (atOnce (.read16 0x12#32) 0xdead#64).perform .user 64#32 64#64
      (halves.foldl (ConfigRun.after .user 64#64) ⟨.initial, fun _ _ _ => 0#8⟩).native = .ok 0xdead := by
  have met : Along (ConfigRun.after .user 64#64) (fun s a => a.Met .user 64#64 s) ⟨.initial, fun _ _ _ => 0#8⟩
      (halves ++ [atOnce (.read16 0x12#32) 0xdead#64]) := by
    refine ⟨⟨fun _ => atOnce_served 0#64 (.inl rfl), fun _ reads => absurd rfl (ConfigOp.reads_ne_writes reads)⟩,
      ⟨fun _ => atOnce_served 0xdead#64 (.inr (by decide +kernel)), fun _ _ => ?_⟩, trivial⟩
    decide +kernel
  exact (pci_cfg_last_written .user 64#32 64#64 (fun _ _ _ => 0#8) halves (atOnce (.read16 0x12#32) 0xdead#64) met).trans
    (congrArg Except.ok (by decide +kernel))

end Virtioso.Vmm
