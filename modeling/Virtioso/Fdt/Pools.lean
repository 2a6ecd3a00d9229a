import Virtioso.Fdt.Generators
import Virtioso.Fdt.Reference

/-! Every PCI node uses the pool of its own backend.

The reserved nodes are written first and the PCI nodes afterwards; what links them is the
text of a base in hexadecimal and a phandle above all others. Nodes that come in between
are on none of the paths that are looked up.
-/

set_option autoImplicit false

namespace Virtioso.Fdt

open Foundation Virtioso.Irq

/-! ### Names of pools -/

theorem plain_names : ('@' ∉ reservedMemory ∧ '@' ∉ pci ∧ '@' ∉ swiotlb ∧ '@' ∉ virtio) ∧
    (reservedMemory ≠ [] ∧ pci ≠ []) ∧ '/' ∉ reservedMemory ∧ '/' ∉ pci := by decide

theorem distinct_names : swiotlb ≠ reservedMemory ∧ swiotlb ≠ pci ∧ virtio ≠ reservedMemory ∧ virtio ≠ pci ∧
    virtio ≠ swiotlb := by decide

theorem memoryName_inj {stem : Text} {base other : BitVec 64} (same : memoryName stem base = memoryName stem other) :
    base = other := by
  have digits := List.append_cancel_left same
  exact BitVec.eq_of_toNat_eq (toDigits_inj (by decide) (by decide) (List.cons.inj digits).2)

theorem memoryName_base {stem : Text} (plain : '@' ∉ stem) (base : BitVec 64) :
    baseName (memoryName stem base) = stem := baseName_address plain _

theorem memoryName_address (stem : Text) (base : BitVec 64) : '@' ∈ memoryName stem base := by
  simp [memoryName]

theorem poolName_fits (base : BitVec 64) : (fdtFormatMemoryName 64 swiotlb base).1 = memoryName swiotlb base := by
  have digits : (Nat.toDigits 16 base.toNat).length ≤ 16 :=
    (Nat.length_toDigits_le_iff (by decide) (by decide)).mpr base.isLt
  have stem : swiotlb.length = 7 := by decide
  apply List.take_of_length_le
  simp only [memoryName, List.length_append, List.length_cons, stem]
  omega

theorem memoryName_slash (stem : Text) (base : BitVec 64) : '/' ∈ memoryName stem base ↔ '/' ∈ stem := by
  have digits : '/' ∉ Nat.toDigits 16 base.toNat := not_mem_toDigits (by decide) (by decide) base.toNat
  simp [memoryName, digits]

theorem poolName_plain (base : BitVec 64) : '/' ∉ memoryName swiotlb base := by
  rw [memoryName_slash]
  decide

variable {Blob ι : Type} [DecidableEq ι]

/-! ### The reserved nodes -/

def IsPool (root : TreeNode ι) (base : BitVec 64) (node : TreeNode ι) : Prop :=
  node.parent = some root.id ∧ node.name = memoryName swiotlb base

/-- The tree has the pools at `bases`, each with a phandle, and no others. -/
structure Pools (root pciRoot : TreeNode ι) (bases : List (BitVec 64)) (t : Tree ι) : Prop where
  reserved : t.lookup ('/' :: reservedMemory) = some root
  pci : t.lookup ('/' :: Fdt.pci) = some pciRoot
  pooled : ∀ base ∈ bases, ∃ node ∈ t.nodes, IsPool root base node ∧ ∃ p, node.phandle = some p
  only : ∀ node ∈ t.nodes, swiotlb ++ ['@'] <+: node.name → ∃ base ∈ bases, node.name = memoryName swiotlb base
  alone : ∀ base, ∀ node ∈ t.nodes, ∀ other ∈ t.nodes, IsPool root base node → IsPool root base other →
    other = node
  legal : Legal t.phandles

section
variable {root pciRoot : TreeNode ι} {bases : List (BitVec 64)} {t next : Tree ι} {node : TreeNode ι}

omit [DecidableEq ι] in
theorem pool_name {base : BitVec 64} (pool : IsPool root base node) : swiotlb ++ ['@'] <+: node.name := by
  rw [pool.2, memoryName]
  exact ⟨Nat.toDigits 16 base.toNat, by simp⟩

theorem Inserts.roots (inserts : Inserts t next node) (below : node.parent ≠ none)
    (other : baseName node.name ≠ reservedMemory ∧ baseName node.name ≠ pci) :
    next.lookup ('/' :: reservedMemory) = t.lookup ('/' :: reservedMemory) ∧
      next.lookup ('/' :: pci) = t.lookup ('/' :: pci) := by
  obtain ⟨⟨plainReserved, plainPci, -⟩, some, slashReserved, slashPci⟩ := plain_names
  constructor
  · apply inserts.lookup below
    rw [components_one some.1 slashReserved]
    intro component mem
    obtain rfl := List.mem_singleton.mp mem
    exact nameMatches_other plainReserved other.1
  · apply inserts.lookup below
    rw [components_one some.2 slashPci]
    intro component mem
    obtain rfl := List.mem_singleton.mp mem
    exact nameMatches_other plainPci other.2

/-- A node that is no pool, and that no path is looking for. -/
structure Aside (node : TreeNode ι) : Prop where
  below : node.parent ≠ none
  base : baseName node.name ≠ reservedMemory ∧ baseName node.name ≠ pci ∧ baseName node.name ≠ swiotlb
  phandle : node.phandle = none

omit [DecidableEq ι] in
theorem Aside.not_pool (aside : Aside node) : ¬swiotlb ++ ['@'] <+: node.name := by
  rintro ⟨rest, name⟩
  apply aside.base.2.2
  rw [← name, List.append_assoc, List.singleton_append]
  exact baseName_address plain_names.1.2.2.1 rest

theorem Pools.aside (pools : Pools root pciRoot bases t) (inserts : Inserts t next node) (aside : Aside node) :
    Pools root pciRoot bases next where
  reserved := (inserts.roots aside.below ⟨aside.base.1, aside.base.2.1⟩).1.trans pools.reserved
  pci := (inserts.roots aside.below ⟨aside.base.1, aside.base.2.1⟩).2.trans pools.pci
  pooled base mem := by
    obtain ⟨pool, inside, found⟩ := pools.pooled base mem
    exact ⟨pool, inserts.mem.mpr (.inr inside), found⟩
  only other mem starts := by
    rcases inserts.mem.mp mem with rfl | old
    · exact absurd starts aside.not_pool
    · exact pools.only other old starts
  alone base first mem second mem' isFirst isSecond := by
    have old : ∀ other ∈ next.nodes, IsPool root base other → other ∈ t.nodes := by
      intro other mem pool
      rcases inserts.mem.mp mem with rfl | old
      · exact absurd (pool_name pool) aside.not_pool
      · exact old
    exact pools.alone base first (old first mem isFirst) second (old second mem' isSecond) isFirst isSecond
  legal := by
    have same := inserts.phandles
    rw [aside.phandle] at same
    exact pools.legal.perm same

theorem Pools.insert (pools : Pools root pciRoot bases t) {base : BitVec 64} (inserts : Inserts t next node)
    (pool : PoolNode t root.id (memoryName swiotlb base) node) : Pools root pciRoot (bases ++ [base]) next := by
  have isPool : IsPool root base node := ⟨pool.below, pool.named⟩
  have stem : baseName node.name = swiotlb := by
    rw [pool.named]
    exact memoryName_base plain_names.1.2.2.1 base
  have below : node.parent ≠ none := by
    rw [pool.below]
    exact Option.some_ne_none _
  have roots := inserts.roots below (by rw [stem]; exact ⟨distinct_names.1, distinct_names.2.1⟩)
  obtain ⟨p, has, above, zero, ones⟩ := pool.identified
  -- no node of the tree has this name, since adding it succeeded
  have new : ∀ other ∈ t.nodes, ¬IsPool root base other := by
    intro other mem isOther
    have passes := child_none pool.free mem isOther.1
    rw [isOther.2, nameMatches_self] at passes
    cases passes
  refine ⟨roots.1.trans pools.reserved, roots.2.trans pools.pci, fun b mem => ?_, fun other mem starts => ?_,
    fun b first mem second mem' isFirst isSecond => ?_, ?_⟩
  · rcases List.mem_append.mp mem with old | last
    · obtain ⟨there, inside, found⟩ := pools.pooled b old
      exact ⟨there, inserts.mem.mpr (.inr inside), found⟩
    · obtain rfl := List.mem_singleton.mp last
      exact ⟨node, inserts.mem.mpr (.inl rfl), isPool, p, has⟩
  · rcases inserts.mem.mp mem with rfl | old
    · exact ⟨base, List.mem_append_right _ (List.mem_singleton_self _), pool.named⟩
    · obtain ⟨b, inside, name⟩ := pools.only other old starts
      exact ⟨b, List.mem_append_left _ inside, name⟩
  · have same : ∀ other, IsPool root b other → other = node → b = base := by
      rintro other isOther rfl
      exact memoryName_inj (isOther.2.symm.trans pool.named)
    rcases inserts.mem.mp mem with rfl | old <;> rcases inserts.mem.mp mem' with rfl | old'
    · rfl
    · obtain rfl := same _ isFirst rfl
      exact absurd isSecond (new second old')
    · obtain rfl := same _ isSecond rfl
      exact absurd isFirst (new first old)
    · exact pools.alone b first old second old' isFirst isSecond
  · have more := inserts.phandles
    rw [has] at more
    exact (pools.legal.cons above zero ones).perm more

end

/-- `fdt_dataport_t`, with the compatible of its node. -/
structure Dataport where
  compatible : Text
  gpa : BitVec 64
  size : BitVec 64

/-- Successful calls of `fdt_generate_reserved_node`, one for each dataport. -/
inductive Generates (lib : LibFdt Blob) : Blob → List Dataport → Blob → Prop where
  | nil {fdt : Blob} : Generates lib fdt [] fdt
  | cons {fdt next last : Blob} {port : Dataport} {rest : List Dataport} {this : Int} :
      fdtGenerateReservedNode lib fdt swiotlb port.compatible port.gpa port.size = (next, this) → 0 ≤ this →
      Generates lib next rest last → Generates lib fdt (port :: rest) last

section
variable {lib : LibFdt Blob} {view : View Blob ι} {root pciRoot : TreeNode ι} {bases : List (BitVec 64)}
variable {fdt next last : Blob}

omit [DecidableEq ι] in
theorem memory_aside {memory : TreeNode ι} (node : MemoryNode memory) : Aside memory := by
  have base : baseName memory.name = "memory".toList := by
    obtain ⟨address, name⟩ := node.named
    have stem : "memory@".toList = "memory".toList ++ ['@'] := by decide
    rw [← name, stem, List.append_assoc, List.singleton_append]
    exact baseName_address (by decide) address
  exact ⟨node.below, by rw [base]; decide, node.phandle⟩

theorem generate_reserved_pools (behaves : Behaves lib view) (pools : Pools root pciRoot bases (view.tree fdt))
    {port : Dataport} {this : Int}
    (returns : fdtGenerateReservedNode lib fdt swiotlb port.compatible port.gpa port.size = (next, this))
    (succeeds : 0 ≤ this) : Pools root pciRoot (bases ++ [port.gpa]) (view.tree next) := by
  obtain ⟨parent, mid, node, memory, leads, first, second, pool, aside⟩ :=
    generate_reserved_node behaves returns succeeds
  obtain rfl := Option.some.inj (pools.reserved.symm.trans leads)
  exact (pools.insert first pool).aside second (memory_aside aside)

theorem generates_pools (behaves : Behaves lib view) {ports : List Dataport}
    (generates : Generates lib fdt ports last) (pools : Pools root pciRoot bases (view.tree fdt)) :
    Pools root pciRoot (bases ++ ports.map Dataport.gpa) (view.tree last) := by
  induction generates generalizing bases with
  | nil => simpa using pools
  | cons returns succeeds _ ih =>
    have step := ih (generate_reserved_pools behaves pools returns succeeds)
    rwa [List.append_assoc] at step

/-! ### The PCI nodes -/

variable {Proxy : Type} {dataBase : Proxy → BitVec 64}

def IsPciNode (pciRoot : TreeNode ι) (dev : PciDev Proxy) (node : TreeNode ι) : Prop :=
  node.parent = some pciRoot.id ∧ node.name = pciDevfnName virtio dev.devfn

structure UsesPool (root : TreeNode ι) (bases : List (BitVec 64)) (t : Tree ι) (base : BitVec 64)
    (node : TreeNode ι) : Prop where
  pool : base ∈ bases → ∃ target ∈ t.nodes, IsPool root base target ∧
    ∃ p, target.phandle = some p ∧ node.props memoryRegion = some (cellBytes p)
  none : base ∉ bases → node.props memoryRegion = none

omit [DecidableEq ι] in
theorem UsesPool.grow {t later : Tree ι} {base : BitVec 64} {node : TreeNode ι}
    (uses : UsesPool root bases t base node) (kept : ∀ other ∈ t.nodes, other ∈ later.nodes) :
    UsesPool root bases later base node where
  pool mem := by
    obtain ⟨target, inside, isPool, has⟩ := uses.pool mem
    exact ⟨target, kept target inside, isPool, has⟩
  none := uses.none

theorem Pools.names {t : Tree ι} (pools : Pools root pciRoot bases t) {base : BitVec 64} {p : BitVec 32} :
    Names t (memoryName swiotlb base) p ↔ ∃ node ∈ t.nodes, IsPool root base node ∧ node.phandle = some p := by
  have path : t.lookup ('/' :: (reservedMemory ++ '/' :: memoryName swiotlb base)) =
      t.child root.id (memoryName swiotlb base) :=
    lookup_below ⟨plain_names.2.1.1, by simp [memoryName]⟩ ⟨plain_names.2.2.1, poolName_plain base⟩ pools.reserved
  unfold Names
  rw [path]
  constructor
  · rintro ⟨node, found, has⟩
    obtain ⟨inside, below, stands⟩ := child_spec found
    -- a name with an address only stands for itself
    rw [nameMatches_address (memoryName_address swiotlb base), decide_eq_true_eq] at stands
    exact ⟨node, inside, ⟨below, stands⟩, has⟩
  · rintro ⟨node, inside, isPool, has⟩
    cases found : t.child root.id (memoryName swiotlb base) with
    | none =>
      have passes := child_none found inside isPool.1
      rw [isPool.2, nameMatches_self] at passes
      cases passes
    | some first =>
      obtain ⟨there, below, stands⟩ := child_spec found
      rw [nameMatches_address (memoryName_address swiotlb base), decide_eq_true_eq] at stands
      obtain rfl := pools.alone base node inside first there isPool ⟨below, stands⟩
      exact ⟨_, rfl, has⟩

omit [DecidableEq ι] in
theorem pci_aside {name : BitVec 32} {node : TreeNode ι} (plain : Plain pciRoot.id (pciDevfnName virtio name) node) :
    Aside node := by
  have base : baseName node.name = virtio := by
    rw [plain.named, pciDevfnName, List.append_assoc]
    exact baseName_address plain_names.1.2.2.2 _
  obtain ⟨-, -, notReserved, notPci, notPool⟩ := distinct_names
  refine ⟨?_, by rw [base]; exact ⟨notReserved, notPci, notPool⟩, plain.phandle⟩
  rw [plain.below]
  exact Option.some_ne_none _

structure Configures (root pciRoot : TreeNode ι) (bases : List (BitVec 64)) (dataBase : Proxy → BitVec 64)
    (dev : PciDev Proxy) (t next : Tree ι) (node : TreeNode ι) : Prop where
  inserts : Inserts t next node
  free : t.child pciRoot.id (pciDevfnName virtio dev.devfn) = none
  named : IsPciNode pciRoot dev node
  uses : UsesPool root bases next (dataBase dev.ioProxy) node

theorem pci_node_configures (behaves : Behaves lib view) (pools : Pools root pciRoot bases (view.tree fdt))
    {dev : PciDev Proxy} {this : Int} (written : fdtGeneratePciNode lib fdt virtio dev.devfn = (next, this))
    (succeeds : 0 < this)
    (returns : fdtAssignReservedMemory lib next this swiotlb (dataBase dev.ioProxy) = (last, 0)) :
    Pools root pciRoot bases (view.tree last) ∧
      ∃ node, Configures root pciRoot bases dataBase dev (view.tree fdt) (view.tree last) node := by
  obtain ⟨parent, leads, free, node, adds, plain⟩ := generate_pci_node behaves written (Int.le_of_lt succeeds)
  obtain rfl := Option.some.inj (pools.pci.symm.trans leads)
  have aside := pci_aside plain
  have mid := pools.aside adds.1 aside
  have assigned := assign_reserved_memory behaves returns
  rw [poolName_fits] at assigned
  rcases assigned with ⟨rfl, missing⟩ | ⟨p, names, -, appends⟩
  · -- nothing was found, so that there is no pool at the base
    refine ⟨mid, node, adds.1, free, ⟨plain.below, plain.named⟩, fun mem => ?_, fun _ => ?_⟩
    · obtain ⟨pool, inside, isPool, p, has⟩ := mid.pooled _ mem
      have zero := missing p (mid.names.mpr ⟨pool, inside, isPool, has⟩)
      exact absurd zero (mid.legal.2 p (List.mem_filterMap.mpr ⟨pool, inside, has⟩)).1
    · exact plain.bare memoryRegion (List.mem_cons_self ..)
  · obtain ⟨pool, inside, isPool, has⟩ := mid.names.mp names
    have old : pool ∈ (view.tree fdt).nodes := by
      rcases adds.1.mem.mp inside with rfl | old
      · exact absurd (pool_name isPool) aside.not_pool
      · exact old
    have refers := adds.append appends
    have stays : Aside (node.append memoryRegion (cellBytes p)) :=
      ⟨aside.below, aside.base, (append_phandle node (by decide) _).trans aside.phandle⟩
    refine ⟨pools.aside refers.1 stays, _, refers.1, free, ⟨plain.below, plain.named⟩, fun _ => ?_, fun none => ?_⟩
    · exact ⟨pool, refers.1.mem.mpr (.inr old), isPool, p, has,
        append_self node (plain.bare memoryRegion (List.mem_cons_self ..)) _⟩
    · obtain ⟨base, mem, name⟩ := mid.only pool inside (pool_name isPool)
      rw [memoryName_inj (isPool.2.symm.trans name)] at none
      exact absurd mem none

/-- What `fdt_generate_pci_config` does to a tree with the pools at `bases`. -/
structure Configured (root pciRoot : TreeNode ι) (bases : List (BitVec 64)) (dataBase : Proxy → BitVec 64)
    (devs : List (PciDev Proxy)) (before after : Tree ι) : Prop where
  /-- each device has a new node, which uses the pool of its backend -/
  generated : ∀ dev ∈ devs, ∃ node ∈ after.nodes, node ∉ before.nodes ∧ IsPciNode pciRoot dev node ∧
    UsesPool root bases after (dataBase dev.ioProxy) node
  /-- and only one -/
  single : ∀ dev ∈ devs, ∀ node ∈ after.nodes, ∀ other ∈ after.nodes, IsPciNode pciRoot dev node →
    IsPciNode pciRoot dev other → other = node
  /-- the other nodes are as they were -/
  kept : ∀ node ∈ before.nodes, node ∈ after.nodes
  rest : ∀ node ∈ after.nodes, node ∈ before.nodes ∨ ∃ dev ∈ devs, IsPciNode pciRoot dev node

theorem Configures.before {dev : PciDev Proxy} {rest : List (PciDev Proxy)} {t mid after : Tree ι}
    {node : TreeNode ι} (step : Configures root pciRoot bases dataBase dev t mid node)
    (others : Configured root pciRoot bases dataBase rest mid after) :
    Configured root pciRoot bases dataBase (dev :: rest) t after where
  generated dev' mem := by
    rcases List.mem_cons.mp mem with rfl | mem
    · exact ⟨node, others.kept node (step.inserts.mem.mpr (.inl rfl)), step.inserts.not_mem, step.named,
        step.uses.grow others.kept⟩
    · obtain ⟨new, inside, fresh, named, uses⟩ := others.generated dev' mem
      exact ⟨new, inside, fun old => fresh (step.inserts.mem.mpr (.inr old)), named, uses⟩
  single dev' mem first inside second inside' isFirst isSecond := by
    rcases List.mem_cons.mp mem with rfl | mem
    · have only : ∀ other ∈ after.nodes, IsPciNode pciRoot dev' other → other = node := by
        intro other inside isOther
        rcases others.rest other inside with old | ⟨later, mem, named⟩
        · rcases step.inserts.mem.mp old with same | older
          · exact same
          · have passes := child_none step.free older isOther.1
            rw [isOther.2, nameMatches_self] at passes
            cases passes
        · -- the name is that of a later device too, whose node is the only one of its name
          have alike : IsPciNode pciRoot later node := ⟨step.named.1, step.named.2.trans (isOther.2.symm.trans named.2)⟩
          exact others.single later mem node (others.kept node (step.inserts.mem.mpr (.inl rfl))) other inside
            alike named
      rw [only first inside isFirst, only second inside' isSecond]
    · exact others.single dev' mem first inside second inside' isFirst isSecond
  kept other old := others.kept other (step.inserts.mem.mpr (.inr old))
  rest other inside := by
    rcases others.rest other inside with old | ⟨dev', mem, named⟩
    · rcases step.inserts.mem.mp old with rfl | older
      · exact .inr ⟨dev, List.mem_cons_self .., step.named⟩
      · exact .inl older
    · exact .inr ⟨dev', List.mem_cons_of_mem _ mem, named⟩

theorem generate_pci_config (behaves : Behaves lib view) {devs : List (PciDev Proxy)}
    (returns : fdtGeneratePciConfig lib dataBase devs fdt = (last, 0))
    (pools : Pools root pciRoot bases (view.tree fdt)) :
    Configured root pciRoot bases dataBase devs (view.tree fdt) (view.tree last) ∧
      Pools root pciRoot bases (view.tree last) := by
  induction devs generalizing fdt with
  | nil =>
    obtain ⟨rfl, -⟩ := Prod.mk.inj returns
    refine ⟨⟨?_, ?_, fun _ old => old, fun _ old => .inl old⟩, pools⟩
    · intro dev mem
      cases mem
    · intro dev mem
      cases mem
  | cons dev rest ih =>
    unfold fdtGeneratePciConfig at returns
    split at returns
    next mid this written =>
    -- an offset that is not positive ends the loop, also the 0 of the root
    split at returns
    · cases (Prod.mk.inj returns).2
    next positive =>
    split at returns
    next next err assigned =>
    split at returns
    · cases (Prod.mk.inj returns).2
    next done =>
    obtain rfl := not_not.mp done
    obtain ⟨pools, node, step⟩ := pci_node_configures behaves pools written (Int.not_le.mp positive) assigned
    obtain ⟨others, pools⟩ := ih returns pools
    exact ⟨step.before others, pools⟩

/-- Every device's node refers to the pool at its backend's base, or to none if there is
no pool there; each base has one pool, and phandles identify nodes. -/
theorem pci_nodes_use_own_pools (behaves : Behaves lib view) (fdt next last : Blob) (ports : List Dataport)
    (dataBase : Proxy → BitVec 64) (devs : List (PciDev Proxy))
    (reserved : (view.tree fdt).lookup ('/' :: reservedMemory) = some root)
    (pciNode : (view.tree fdt).lookup ('/' :: pci) = some pciRoot) (legal : Legal (view.tree fdt).phandles)
    (fresh : ∀ node ∈ (view.tree fdt).nodes, ¬swiotlb ++ ['@'] <+: node.name)
    (generates : Generates lib fdt ports next)
    (returns : fdtGeneratePciConfig lib dataBase devs next = (last, 0)) :
    Configured root pciRoot (ports.map Dataport.gpa) dataBase devs (view.tree next) (view.tree last) ∧
    (∀ base ∈ ports.map Dataport.gpa, ∃! node, node ∈ (view.tree last).nodes ∧ IsPool root base node) ∧
    Legal (view.tree last).phandles := by
  have start : Pools root pciRoot [] (view.tree fdt) := by
    refine ⟨reserved, pciNode, fun _ mem => (List.not_mem_nil mem).elim, fun node mem starts =>
      absurd starts (fresh node mem), fun base node mem _ _ isPool _ => ?_, legal⟩
    exact absurd (pool_name isPool) (fresh node mem)
  obtain ⟨configured, pools⟩ := generate_pci_config behaves returns (generates_pools behaves generates start)
  refine ⟨configured, fun base mem => ?_, pools.legal⟩
  obtain ⟨node, inside, isPool, -⟩ := pools.pooled base mem
  exact ⟨node, ⟨inside, isPool⟩, fun other ⟨there, isOther⟩ => pools.alone base node inside other there isPool isOther⟩

end

def guestTree (phandle : BitVec 32) : Tree Nat where
  nodes := [⟨0, none, [], fun _ => none⟩, ⟨1, some 0, pci, fun _ => none⟩,
    ⟨2, some 0, reservedMemory, fun _ => none⟩,
    ⟨3, some 0, "interrupt-controller".toList, fun prop =>
      if prop = "phandle".toList then some (cellBytes phandle) else none⟩]
  distinct := by
    show [0, 1, 2, 3].Nodup
    decide

/-- Phandles that only differ from each other may be illegal from the start, whatever the bases. -/
theorem own_pools_with_any_phandles : ¬∀ (lib : LibFdt (Tree Nat)) (view : View (Tree Nat) Nat)
    (fdt next last : Tree Nat) (root pciRoot : TreeNode Nat) (ports : List Dataport)
    (dataBase : Unit → BitVec 64) (devs : List (PciDev Unit)), Behaves lib view →
    (view.tree fdt).lookup ('/' :: reservedMemory) = some root →
    (view.tree fdt).lookup ('/' :: pci) = some pciRoot → (view.tree fdt).phandles.Nodup →
    (∀ node ∈ (view.tree fdt).nodes, ¬swiotlb ++ ['@'] <+: node.name) → (ports.map Dataport.gpa).Nodup →
    Generates lib fdt ports next → fdtGeneratePciConfig lib dataBase devs next = (last, 0) →
    Configured root pciRoot (ports.map Dataport.gpa) dataBase devs (view.tree next) (view.tree last) ∧
    (∀ base ∈ ports.map Dataport.gpa, ∃! node, node ∈ (view.tree last).nodes ∧ IsPool root base node) ∧
    Legal (view.tree last).phandles := by
  intro claim
  obtain ⟨-, -, -, legal⟩ := claim treeFdt treeView (guestTree (BitVec.allOnes 32)) _ _ _ _ []
    (fun _ => 0#64) [] treeFdt_behaves rfl rfl (by decide) (by decide) List.nodup_nil .nil rfl
  exact (legal (BitVec.allOnes 32) (by decide)).2 rfl

def guestPort : Dataport := ⟨"restricted-dma-pool".toList, 0x88000000#64, 0x1000000#64⟩

def guestDevs : List (PciDev Bool) := [⟨8#32, 8#32, true⟩, ⟨16#32, 8#32, false⟩]

def guestBase (own : Bool) : BitVec 64 := if own then 0x88000000#64 else 0x90000000#64

theorem guest_reserved : ∃ next this, fdtGenerateReservedNode treeFdt (guestTree 1#32) swiotlb
    guestPort.compatible guestPort.gpa guestPort.size = (next, this) ∧ 0 ≤ this ∧
      (fdtGeneratePciConfig treeFdt guestBase guestDevs next).2 = 0 :=
  ⟨_, _, rfl, by decide +kernel⟩

theorem pci_nodes_use_own_pools_guest : ∃ next last : Tree Nat,
    Configured ⟨2, some 0, reservedMemory, fun _ => none⟩ ⟨1, some 0, pci, fun _ => none⟩ [guestPort.gpa]
      guestBase guestDevs next last ∧
    (∀ base ∈ [guestPort.gpa], ∃! node, node ∈ last.nodes ∧
      IsPool ⟨2, some 0, reservedMemory, fun _ => none⟩ base node) ∧
    Legal last.phandles := by
  obtain ⟨next, this, placed, positive, done⟩ := guest_reserved
  have returns : fdtGeneratePciConfig treeFdt guestBase guestDevs next =
      ((fdtGeneratePciConfig treeFdt guestBase guestDevs next).1, 0) := by
    rw [← done]
  exact ⟨next, _, pci_nodes_use_own_pools treeFdt_behaves (guestTree 1#32) next _ [guestPort] guestBase
    guestDevs rfl rfl (by decide +kernel) (by decide +kernel) (.cons placed positive .nil) returns⟩

end Virtioso.Fdt
