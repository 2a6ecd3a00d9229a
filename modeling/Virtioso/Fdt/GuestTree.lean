import Virtioso.Fdt.Generation
import Virtioso.Fdt.Pools
import Virtioso.Irq.Gicv2m

/-! What the guest's tree contains once it has been configured.

The nodes of the template write one pool for each backend. Their table is gone through
until one has written something, so that the guest's tree gets the first pool only. The
USB node of a platform comes before or after.
-/

set_option autoImplicit false

namespace Virtioso.Fdt

open Foundation Virtioso.Irq

/-- `fdt_dataport_t`, with the texts of its node. -/
structure FdtDataport where
  name : String
  compatible : String
  gpa : BitVec 64
  size : BitVec 64

/-- `guest_ram_base` and `guest_ram_size`. -/
structure GuestRam where
  base : BitVec 64
  size : BitVec 64

def FdtDataport.isRam (dataport : FdtDataport) (ram : GuestRam) : Bool :=
  dataport.gpa = ram.base && dataport.size = ram.size

variable {Blob ι : Type}

/-- `fdt_node_generate_dataport`. -/
def fdtNodeGenerateDataport (lib : LibFdt Blob) (dataport : FdtDataport) (fdt : Blob) : Blob × Int :=
  let (fdt, offset) := fdtGenerateReservedNode lib fdt dataport.name.toList dataport.compatible.toList
    dataport.gpa dataport.size
  if offset ≤ 0 then (fdt, -1) else (fdt, 1)

/-- `fdt_node_generate_swiotlb`. -/
def fdtNodeGenerateSwiotlb (lib : LibFdt Blob) (ram : GuestRam) (dataport : FdtDataport) (fdt : Blob) : Blob × Int :=
  if dataport.isRam ram then (fdt, 0) else fdtNodeGenerateDataport lib dataport fdt

def restrictedDmaPool : String := "restricted-dma-pool"

/-- The node that the template registers for a device. -/
def fdtSwiotlbVm (lib : LibFdt Blob) (ram : GuestRam) (dataBase dataSize : BitVec 64) : FdtNode Blob where
  compatible := some restrictedDmaPool
  generated := false
  generate := some (fdtNodeGenerateSwiotlb lib ram ⟨"swiotlb", restrictedDmaPool, dataBase, dataSize⟩)

/-! ### The platform's node -/

/-- `USB_PCI_NODE_PATH`, without its slash. -/
def usbPciNodePath : Text := "scb/pcie@7d500000/pci@0,0".toList

/-- `USB_NODE_NAME`. -/
def usbNodeName : Text := "usb@0,0".toList

/-- Calls of `fdt_appendprop_u32` up to the first that fails. -/
def appendProps (lib : LibFdt Blob) (this : Int) : List (Text × BitVec 32) → Blob → Blob × Int
  | [], fdt => (fdt, 0)
  | (name, val) :: rest, fdt => onSuccess (lib.fdtAppendpropU32 fdt this name val) (appendProps lib this rest)

/-- `fdt_generate_usb_node`. -/
def fdtGenerateUsbNode (lib : LibFdt Blob) (fdt : Blob) : Blob × Int :=
  let root := lib.fdtPathOffset fdt ('/' :: usbPciNodePath)
  if root ≤ 0 then (fdt, 0)
  else
    onOffset (lib.fdtAddSubnode fdt root usbNodeName) fun fdt this =>
    let resets := "resets".toList
    let reg := "reg".toList
    appendProps lib this [(resets, 0x2d#32), (resets, 0#32), (reg, 0x10000#32), (reg, 0#32), (reg, 0#32),
      (reg, 0#32), (reg, 0#32)] fdt

/-- `fdt_plat_customize`, of `rpi4` or the weak one. -/
def fdtPlatCustomize (lib : LibFdt Blob) (plat : Plat) (fdt : Blob) : Blob × Int :=
  match plat with
  | .rpi4 =>
      let (fdt, err) := fdtGenerateUsbNode lib fdt
      if err ≠ 0 then (fdt, -1) else (fdt, 0)
  | .qemuArmVirt => (fdt, 0)

/-! ### The whole configuration -/

variable {P Proxy : Type} [DecidableEq P]

/-- `guest_config_t` and what the configuration finds: the code of the module `vpci_install`, the base
of each backend's memory, the devices and the table of nodes. -/
structure GuestConfig (P Proxy : Type) where
  generateDtb : Bool
  vpciInstall : Int
  dataBase : Proxy → BitVec 64
  devs : List (PciDev Proxy)
  table : List (Option P)

/-- `guest_configure`. -/
def guestConfigure (lib : LibFdt Blob) (config : GuestConfig P Proxy) (s : Nodes P Blob) : Nodes P Blob × Int :=
  if config.vpciInstall ≠ 0 then (s, -1)
  else if !config.generateDtb then (s, 0)
  else
    let (s, err) := fdtNodeGenerateCompatibles (some restrictedDmaPool) config.table s
    if err ≠ 0 then (s, -1)
    else
      let (fdt, err) := fdtGeneratePciConfig lib config.dataBase config.devs s.fdt
      let s := { s with fdt }
      if err ≠ 0 then (s, -1)
      else
        let (s, err) := fdtNodeGenerateAll config.table s
        if err ≠ 0 then (s, -1) else (s, 0)

def BuildsTree (lib : LibFdt Blob) (plat : Plat) (config : GuestConfig P Proxy) (s : Nodes P Blob) (last : Blob) : Prop :=
  (∃ next t, fdtPlatCustomize lib plat s.fdt = (next, 0) ∧ guestConfigure lib config { s with fdt := next } = (t, 0) ∧
    t.fdt = last) ∨
  ∃ t, guestConfigure lib config s = (t, 0) ∧ fdtPlatCustomize lib plat t.fdt = (last, 0)

/-- The nodes for pools are nodes of the template, with these dataports. -/
def FromTemplate (lib : LibFdt Blob) (ram : GuestRam) (dataport : P → FdtDataport) (table : List (Option P))
    (s : Nodes P Blob) : Prop :=
  ∀ ptr, some ptr ∈ table → (s.node ptr).compatible = some restrictedDmaPool →
    (dataport ptr).name = "swiotlb" ∧ (s.node ptr).generate = some (fdtNodeGenerateSwiotlb lib ram (dataport ptr))

/-- The base of the first pool of the table that is to be written and is not the guest's memory. -/
def firstPool (ram : GuestRam) (dataport : P → FdtDataport) (table : List (Option P)) (s : Nodes P Blob) :
    Option (BitVec 64) :=
  (((table.filterMap id).find? fun ptr => isDue restrictedDmaPool (s.node ptr) && !(dataport ptr).isRam ram)).map
    fun ptr => (dataport ptr).gpa

section Loop
variable {lib : LibFdt Blob} {ram : GuestRam} {dataport : P → FdtDataport} {table : List (Option P)}
variable {s t : Nodes P Blob} {ptr : P}

omit [DecidableEq P] in
theorem firstPool_skips (other : (isDue restrictedDmaPool (s.node ptr) && !(dataport ptr).isRam ram) = false) :
    firstPool ram dataport (some ptr :: table) s = firstPool ram dataport table s := by
  simp [firstPool, other]

omit [DecidableEq P] in
theorem FromTemplate.tail {entry : Option P} (template : FromTemplate lib ram dataport (entry :: table) s) :
    FromTemplate lib ram dataport table s := fun ptr inside => template ptr (List.mem_cons_of_mem _ inside)

omit [DecidableEq P] in
/-- A dataport that is written becomes a pool. -/
theorem dataport_written {port : FdtDataport} (named : port.name = "swiotlb") {fdt next : Blob} {rc : Int}
    (returns : fdtNodeGenerateDataport lib port fdt = (next, rc)) (succeeds : ¬rc < 0) :
    rc = 1 ∧ Generates lib fdt [⟨port.compatible.toList, port.gpa, port.size⟩] next := by
  unfold fdtNodeGenerateDataport at returns
  obtain ⟨⟨after, this⟩, written⟩ : ∃ result, fdtGenerateReservedNode lib fdt port.name.toList port.compatible.toList
    port.gpa port.size = result := ⟨_, rfl⟩
  rw [written] at returns
  dsimp only at returns
  split at returns
  · obtain ⟨-, rfl⟩ := Prod.mk.inj returns
    exact absurd (by decide) succeeds
  · next positive =>
    obtain ⟨rfl, rfl⟩ := Prod.mk.inj returns
    rw [named] at written
    exact ⟨rfl, .cons written (by omega) .nil⟩

/-- The loop stops at the first node that writes something. -/
theorem compatibles_first (template : FromTemplate lib ram dataport table s)
    (returns : generateLoop (some (fdtNodeFilterCompatible (some restrictedDmaPool))) table s 0 = (t, 0)) :
    ∃ ports, Generates lib s.fdt ports t.fdt ∧
      ports.map Dataport.gpa = (firstPool ram dataport table s).toList := by
  induction table generalizing s with
  | nil =>
    cases returns
    exact ⟨[], .nil, rfl⟩
  | cons entry rest ih =>
    cases entry with
    | none =>
      rw [loop_null] at returns
      exact ih template.tail returns
    | some ptr =>
      rw [loop_entry] at returns
      by_cases compatible : (s.node ptr).compatible = some restrictedDmaPool
      · obtain ⟨named, equipped⟩ := template ptr List.mem_cons_self compatible
        rw [if_pos compatible] at returns
        cases marked : (s.node ptr).generated with
        | true =>
          rw [generate_marked equipped marked, if_neg (Int.lt_irrefl 0)] at returns
          rw [firstPool_skips (by simp [isDue, marked])]
          exact ih template.tail returns
        | false =>
          have inside : isDue restrictedDmaPool (s.node ptr) = true := by simp [isDue, compatible, marked]
          cases own : (dataport ptr).isRam ram with
          | true =>
            have silent : fdtNodeGenerateSwiotlb lib ram (dataport ptr) s.fdt = (s.fdt, 0) := if_pos own
            rw [generate_due inside equipped silent, mark_not_generated _ _ (by decide), if_neg (Int.lt_irrefl 0)] at returns
            rw [firstPool_skips (by simp [own])]
            exact ih (s := { s with calls := s.calls ++ [(ptr, 0)] }) template.tail returns
          | false =>
            obtain ⟨⟨next, rc⟩, written⟩ : ∃ result, fdtNodeGenerateDataport lib (dataport ptr) s.fdt = result := ⟨_, rfl⟩
            have generate : fdtNodeGenerateSwiotlb lib ram (dataport ptr) s.fdt = (next, rc) :=
              (if_neg (by rw [own]; decide)).trans written
            rw [generate_due inside equipped generate] at returns
            split at returns
            · cases (Prod.mk.inj returns).2
            · next succeeds =>
              obtain ⟨rfl, generates⟩ := dataport_written named written succeeds
              rw [loop_over _ _ _ Int.one_ne_zero] at returns
              obtain ⟨rfl, -⟩ := Prod.mk.inj returns
              exact ⟨_, generates, by simp [firstPool, inside, own]⟩
      · rw [if_neg compatible] at returns
        rw [firstPool_skips (by simp [isDue, compatible])]
        exact ih template.tail returns

end Loop

/-! ### The tree -/

def UsbNode (node : TreeNode ι) : Prop := ∃ parent, Plain parent usbNodeName node

/-- The guest's tree, made from `before`: a pool at the base `first` if there is one, a node for
each device, which uses the pool if its backend's memory is there, and nothing else that is
looked up. -/
structure GuestTree (root pciRoot : TreeNode ι) (first : Option (BitVec 64)) (dataBase : Proxy → BitVec 64)
    (devs : List (PciDev Proxy)) (before after : Tree ι) : Prop where
  kept : ∀ node ∈ before.nodes, node ∈ after.nodes
  pool : ∀ base, (∃ node ∈ after.nodes, IsPool root base node) ↔ first = some base
  device : ∀ dev ∈ devs, ∃! node, node ∈ after.nodes ∧ IsPciNode pciRoot dev node
  uses : ∀ dev ∈ devs, ∀ node ∈ after.nodes, IsPciNode pciRoot dev node →
    node ∉ before.nodes ∧ UsesPool root first.toList after (dataBase dev.ioProxy) node
  new : ∀ node ∈ after.nodes, node ∈ before.nodes ∨ (∃ base, first = some base ∧ IsPool root base node) ∨
    (∃ dev ∈ devs, IsPciNode pciRoot dev node) ∨ MemoryNode node ∨ UsbNode node
  legal : Legal after.phandles

variable [DecidableEq ι] {lib : LibFdt Blob} {view : View Blob ι} {root pciRoot : TreeNode ι}
variable {bases : List (BitVec 64)} {fdt next last : Blob} {dataBase : Proxy → BitVec 64} {devs : List (PciDev Proxy)}

section Usb
variable {offset : Int} {parent : ι} {name : Text}

theorem append_props (behaves : Behaves lib view) {props : List (Text × BitVec 32)}
    (others : ∀ prop ∈ props, prop.1 ∉ memoryRegion :: phandleProps)
    (writes : Writes view fdt next offset parent name) (returns : appendProps lib offset props next = (last, 0)) :
    Writes view fdt last offset parent name := by
  induction props generalizing next with
  | nil =>
    cases returns
    exact writes
  | cons prop rest ih =>
    obtain ⟨done, returns⟩ := onSuccess_succeeds returns (behaves.append_code ..) (Int.le_refl 0)
    exact ih (fun prop inside => others prop (List.mem_cons_of_mem _ inside))
      (writes.append (others prop List.mem_cons_self) (behaves.append _ _ _ _ done)) returns

theorem plat_customize (behaves : Behaves lib view) {plat : Plat} (returns : fdtPlatCustomize lib plat fdt = (last, 0)) :
    last = fdt ∨ ∃ node, Inserts (view.tree fdt) (view.tree last) node ∧ UsbNode node := by
  cases plat with
  | qemuArmVirt => exact .inl (Prod.mk.inj returns).1.symm
  | rpi4 =>
  unfold fdtPlatCustomize at returns
  obtain ⟨⟨after, err⟩, generated⟩ : ∃ result, fdtGenerateUsbNode lib fdt = result := ⟨_, rfl⟩
  rw [generated] at returns
  dsimp only at returns
  split at returns
  · cases (Prod.mk.inj returns).2
  next done =>
  obtain ⟨rfl, -⟩ := Prod.mk.inj returns
  obtain rfl := not_not.mp done
  unfold fdtGenerateUsbNode at generated
  dsimp only at generated
  split at generated
  · exact .inl (Prod.mk.inj generated).1.symm
  next found =>
  obtain ⟨parent, -, at_⟩ := behaves.path_found fdt _ (Int.le_of_lt (Int.not_le.mp found))
  obtain ⟨added, props⟩ := onOffset_succeeds generated (Int.le_refl 0)
  obtain ⟨node, adds, plain⟩ := append_props behaves (by decide) (add_subnode behaves at_ added).2 props
  exact .inr ⟨node, adds.1, parent.id, plain⟩

omit [DecidableEq ι] in
theorem usb_aside {node : TreeNode ι} (usb : UsbNode node) : Aside node := by
  obtain ⟨parent, plain⟩ := usb
  have base : baseName node.name = "usb".toList := by
    rw [plain.named]
    decide
  refine ⟨?_, by rw [base]; decide, plain.phandle⟩
  rw [plain.below]
  exact Option.some_ne_none _

end Usb

/-! ### Pools and devices -/

theorem generates_grows (behaves : Behaves lib view) {ports : List Dataport} (generates : Generates lib fdt ports last)
    (pools : Pools root pciRoot bases (view.tree fdt)) :
    (∀ node ∈ (view.tree fdt).nodes, node ∈ (view.tree last).nodes) ∧
      ∀ node ∈ (view.tree last).nodes, node ∈ (view.tree fdt).nodes ∨
        (∃ base ∈ ports.map Dataport.gpa, IsPool root base node) ∨ MemoryNode node := by
  induction generates generalizing bases with
  | nil => exact ⟨fun _ inside => inside, fun _ inside => .inl inside⟩
  | @cons fdt mid last port rest this returns succeeds _ ih =>
    obtain ⟨parent, between, pool, memory, leads, first, second, new, aside⟩ := generate_reserved_node behaves returns succeeds
    obtain rfl := Option.some.inj (pools.reserved.symm.trans leads)
    obtain ⟨kept, added⟩ := ih (generate_reserved_pools behaves pools returns succeeds)
    refine ⟨fun node inside => kept node (second.mem.mpr (.inr (first.mem.mpr (.inr inside)))), fun node inside => ?_⟩
    rcases added node inside with old | ⟨base, member, isPool⟩ | isMemory
    · rcases second.mem.mp old with rfl | older
      · exact .inr (.inr aside)
      · rcases first.mem.mp older with rfl | oldest
        · exact .inr (.inl ⟨port.gpa, by simp, new.below, new.named⟩)
        · exact .inl oldest
    · exact .inr (.inl ⟨base, List.mem_cons_of_mem _ member, isPool⟩)
    · exact .inr (.inr isMemory)

theorem Pools.pool_iff {t : Tree ι} (pools : Pools root pciRoot bases t) (base : BitVec 64) :
    (∃ node ∈ t.nodes, IsPool root base node) ↔ base ∈ bases := by
  constructor
  · rintro ⟨node, inside, isPool⟩
    obtain ⟨other, member, named⟩ := pools.only node inside (pool_name isPool)
    rw [memoryName_inj (isPool.2.symm.trans named)]
    exact member
  · intro member
    obtain ⟨node, inside, isPool, -⟩ := pools.pooled base member
    exact ⟨node, inside, isPool⟩

section Usb
variable {first : Option (BitVec 64)} {t mid after : Tree ι} {usb : TreeNode ι}

omit [DecidableEq ι] in
theorem usb_not_pci {dev : PciDev Proxy} (isUsb : UsbNode usb) : ¬IsPciNode pciRoot dev usb := by
  obtain ⟨parent, plain⟩ := isUsb
  intro isPci
  have base := congrArg baseName (isPci.2.symm.trans plain.named)
  rw [pciDevfnName, List.append_assoc, List.cons_append, baseName_address plain_names.1.2.2.2] at base
  exact absurd base (by decide)

omit [DecidableEq ι] in
/-- The platform's node may be there before the others. -/
theorem GuestTree.over (grown : GuestTree root pciRoot first dataBase devs mid after) (inserts : Inserts t mid usb)
    (isUsb : UsbNode usb) : GuestTree root pciRoot first dataBase devs t after where
  kept node inside := grown.kept node (inserts.mem.mpr (.inr inside))
  pool := grown.pool
  device := grown.device
  uses dev member node inside isPci := by
    obtain ⟨new, uses⟩ := grown.uses dev member node inside isPci
    exact ⟨fun old => new (inserts.mem.mpr (.inr old)), uses⟩
  new node inside := by
    rcases grown.new node inside with old | others
    · rcases inserts.mem.mp old with rfl | older
      · exact .inr (.inr (.inr (.inr isUsb)))
      · exact .inl older
    · exact .inr others
  legal := grown.legal

omit [DecidableEq ι] in
theorem GuestTree.followed (grown : GuestTree root pciRoot first dataBase devs t mid) (inserts : Inserts mid after usb)
    (isUsb : UsbNode usb) : GuestTree root pciRoot first dataBase devs t after where
  kept node inside := inserts.mem.mpr (.inr (grown.kept node inside))
  pool base := by
    rw [← grown.pool base]
    constructor
    · rintro ⟨node, inside, isPool⟩
      rcases inserts.mem.mp inside with rfl | old
      · exact absurd (pool_name isPool) (usb_aside isUsb).not_pool
      · exact ⟨node, old, isPool⟩
    · rintro ⟨node, inside, isPool⟩
      exact ⟨node, inserts.mem.mpr (.inr inside), isPool⟩
  device dev member := by
    obtain ⟨node, ⟨inside, isPci⟩, only⟩ := grown.device dev member
    refine ⟨node, ⟨inserts.mem.mpr (.inr inside), isPci⟩, fun other ⟨there, isOther⟩ => ?_⟩
    rcases inserts.mem.mp there with rfl | old
    · exact absurd isOther (usb_not_pci isUsb)
    · exact only other ⟨old, isOther⟩
  uses dev member node inside isPci := by
    rcases inserts.mem.mp inside with rfl | old
    · exact absurd isPci (usb_not_pci isUsb)
    · obtain ⟨new, uses⟩ := grown.uses dev member node old isPci
      exact ⟨new, uses.grow fun other there => inserts.mem.mpr (.inr there)⟩
  new node inside := by
    rcases inserts.mem.mp inside with rfl | old
    · exact .inr (.inr (.inr (.inr isUsb)))
    · exact grown.new node old
  legal := by
    have same := inserts.phandles
    rw [(usb_aside isUsb).phandle] at same
    exact grown.legal.perm same

end Usb

/-! ### Runs of the configuration -/

section Configure
variable {config : GuestConfig P Proxy} {s t : Nodes P Blob}

omit [DecidableEq ι] in
theorem guestConfigure_returns (dtb : config.generateDtb = true) (returns : guestConfigure lib config s = (t, 0)) :
    ∃ mid, generateLoop (some (fdtNodeFilterCompatible (some restrictedDmaPool))) config.table s 0 = (mid, 0) ∧
      fdtGeneratePciConfig lib config.dataBase config.devs mid.fdt = (t.fdt, 0) := by
  unfold guestConfigure fdtNodeGenerateCompatibles fdtNodeGenerateAll fdtNodeGenerateFilter at returns
  split at returns
  · cases (Prod.mk.inj returns).2
  rw [dtb, if_neg (by decide)] at returns
  obtain ⟨⟨mid, err⟩, generated⟩ : ∃ result,
    generateLoop (some (fdtNodeFilterCompatible (some restrictedDmaPool))) config.table s 0 = result := ⟨_, rfl⟩
  rw [generated] at returns ⊢
  dsimp only at returns
  split at returns
  · cases (Prod.mk.inj returns).2
  next done =>
  obtain rfl := not_not.mp done
  split at returns
  · cases (Prod.mk.inj returns).2
  next configured =>
  rw [loop_unfiltered, if_neg (by simp)] at returns
  obtain ⟨rfl, -⟩ := Prod.mk.inj returns
  exact ⟨mid, rfl, Prod.ext rfl (not_not.mp configured)⟩

theorem configure_tree (behaves : Behaves lib view) {ram : GuestRam} {dataport : P → FdtDataport}
    (template : FromTemplate lib ram dataport config.table s) (start : Pools root pciRoot [] (view.tree s.fdt))
    (dtb : config.generateDtb = true) (returns : guestConfigure lib config s = (t, 0)) :
    GuestTree root pciRoot (firstPool ram dataport config.table s) config.dataBase config.devs (view.tree s.fdt)
      (view.tree t.fdt) := by
  obtain ⟨mid, generated, configured⟩ := guestConfigure_returns dtb returns
  obtain ⟨ports, generates, first⟩ := compatibles_first template generated
  have pools := generates_pools behaves generates start
  obtain ⟨kept, added⟩ := generates_grows behaves generates start
  obtain ⟨devices, after⟩ := generate_pci_config behaves configured pools
  rw [List.nil_append, first] at after
  rw [first] at devices added
  have onlyPool (base : BitVec 64) : base ∈ (firstPool ram dataport config.table s).toList ↔
      firstPool ram dataport config.table s = some base := by simp
  refine ⟨fun node inside => devices.kept node (kept node inside), fun base => ?_, fun dev member => ?_,
    fun dev member node inside isPci => ?_, fun node inside => ?_, after.legal⟩
  · rw [after.pool_iff, onlyPool]
  · obtain ⟨node, inside, -, isPci, -⟩ := devices.generated dev member
    exact ⟨node, ⟨inside, isPci⟩, fun other ⟨there, isOther⟩ => devices.single dev member node inside other there isPci isOther⟩
  · obtain ⟨own, there, new, isOwn, uses⟩ := devices.generated dev member
    obtain rfl := devices.single dev member node inside own there isPci isOwn
    exact ⟨fun old => new (kept own old), uses⟩
  · rcases devices.rest node inside with old | isPci
    · rcases added node old with older | ⟨base, member, isPool⟩ | isMemory
      · exact .inl older
      · exact .inr (.inl ⟨base, (onlyPool base).mp member, isPool⟩)
      · exact .inr (.inr (.inr (.inl isMemory)))
    · exact .inr (.inr (.inl isPci))

end Configure

/-- Whatever is registered and in whichever order the two modules run, a guest's tree that has no
pool yet and legal phandles keeps all nodes it had. It gets a node for each device and the pool of
one backend only: the first of the table that is not the guest's memory. The devices of that
backend use the pool, the others none. -/
theorem guest_tree_built (behaves : Behaves lib view) (plat : Plat) (ram : GuestRam) (dataport : P → FdtDataport)
    (config : GuestConfig P Proxy) (s : Nodes P Blob) (last : Blob)
    (reserved : (view.tree s.fdt).lookup ('/' :: reservedMemory) = some root)
    (pciNode : (view.tree s.fdt).lookup ('/' :: pci) = some pciRoot) (legal : Legal (view.tree s.fdt).phandles)
    (fresh : ∀ node ∈ (view.tree s.fdt).nodes, ¬swiotlb ++ ['@'] <+: node.name)
    (template : FromTemplate lib ram dataport config.table s) (dtb : config.generateDtb = true)
    (builds : BuildsTree lib plat config s last) :
    GuestTree root pciRoot (firstPool ram dataport config.table s) config.dataBase config.devs (view.tree s.fdt)
      (view.tree last) := by
  have start : Pools root pciRoot [] (view.tree s.fdt) := by
    refine ⟨reserved, pciNode, fun _ mem => (List.not_mem_nil mem).elim, fun node mem starts =>
      absurd starts (fresh node mem), fun base node mem _ _ isPool _ => ?_, legal⟩
    exact absurd (pool_name isPool) (fresh node mem)
  rcases builds with ⟨next, t, customized, returns, rfl⟩ | ⟨t, returns, customized⟩
  · rcases plat_customize behaves customized with rfl | ⟨usb, inserts, isUsb⟩
    · exact configure_tree behaves template start dtb returns
    · exact (configure_tree (s := { s with fdt := next }) behaves template (start.aside inserts (usb_aside isUsb)) dtb
        returns).over inserts isUsb
  · have grown := configure_tree behaves template start dtb returns
    rcases plat_customize behaves customized with rfl | ⟨usb, inserts, isUsb⟩
    · exact grown
    · exact grown.followed inserts isUsb

def boardTree : Tree Nat where
  nodes := [⟨0, none, [], fun _ => none⟩, ⟨1, some 0, pci, fun _ => none⟩, ⟨2, some 0, reservedMemory, fun _ => none⟩,
    ⟨3, some 0, "scb".toList, fun _ => none⟩, ⟨4, some 3, "pcie@7d500000".toList, fun _ => none⟩,
    ⟨5, some 4, "pci@0,0".toList, fun _ => none⟩]
  distinct := by
    show [0, 1, 2, 3, 4, 5].Nodup
    decide

def boardRam : GuestRam := ⟨0x40000000#64, 0x20000000#64⟩

/-- The first backend uses the guest's memory, the others have memory of their own. -/
def boardPort (i : Fin 3) : FdtDataport :=
  ⟨"swiotlb", restrictedDmaPool, if i = 0 then boardRam.base else if i = 1 then 0x88000000#64 else 0x90000000#64,
    boardRam.size⟩

def boardConfig : GuestConfig (Fin 3) (Fin 3) where
  generateDtb := true
  vpciInstall := 0
  dataBase i := (boardPort i).gpa
  devs := [⟨8#32, 8#32, 1⟩, ⟨16#32, 8#32, 2⟩]
  table := [some 0, none, some 1, some 2]

def boardNodes : Nodes (Fin 3) (Tree Nat) where
  node i := fdtSwiotlbVm treeFdt boardRam (boardPort i).gpa (boardPort i).size
  fdt := boardTree
  calls := []

theorem call_returns {State : Type} {call : State × Int} (done : call.2 = 0) : call = (call.1, 0) := Prod.ext rfl done

theorem board_customized : (fdtPlatCustomize treeFdt .rpi4 boardTree).2 = 0 ∧
    (guestConfigure treeFdt boardConfig { boardNodes with fdt := (fdtPlatCustomize treeFdt .rpi4 boardTree).1 }).2 = 0 := by
  decide +kernel

/-- Of the two pools the guest gets the first. -/
theorem guest_tree_built_board : ∃ last : Tree Nat, BuildsTree treeFdt .rpi4 boardConfig boardNodes last ∧
    GuestTree ⟨2, some 0, reservedMemory, fun _ => none⟩ ⟨1, some 0, pci, fun _ => none⟩ (some 0x88000000#64)
      boardConfig.dataBase boardConfig.devs boardTree last := by
  have builds : BuildsTree treeFdt .rpi4 boardConfig boardNodes _ :=
    .inl ⟨_, _, call_returns board_customized.1, call_returns board_customized.2, rfl⟩
  have template : FromTemplate treeFdt boardRam boardPort boardConfig.table boardNodes := fun _ _ _ => ⟨rfl, rfl⟩
  have first : firstPool boardRam boardPort boardConfig.table boardNodes = some 0x88000000#64 := by decide +kernel
  have built := guest_tree_built treeFdt_behaves .rpi4 boardRam boardPort boardConfig boardNodes _ rfl rfl
    (by decide +kernel) (by decide +kernel) template rfl builds
  rw [first] at built
  exact ⟨_, builds, built⟩

end Virtioso.Fdt
