import Virtioso.Fdt.Pools

/-! Names that do not fit.

The pool of a node is looked up under the name in a buffer of 64 bytes. A name that does
not fit is cut off, and the code that says so is not looked at; what the cut name leads to
is another node, or none, which counts as success.
-/

set_option autoImplicit false

namespace Virtioso.Fdt

open Foundation

variable {Blob ι : Type}

def TreeNode.setprop (node : TreeNode ι) (name : Text) (bytes : List Byte) : TreeNode ι :=
  { node with props := Function.update node.props name (some bytes) }

def TreeNode.HasPhandle (node : TreeNode ι) (p : BitVec 32) : Prop := node.phandle = some p ∧ p ≠ 0#32

def Tree.Named (t : Tree ι) : Prop := ∀ node ∈ t.nodes, '/' ∉ node.name

instance (t : Tree ι) : Decidable t.Named := List.decidableBAll _ t.nodes

variable [DecidableEq ι]

def Sets (t next : Tree ι) (id : ι) (name : Text) (bytes : List Byte) : Prop :=
  next.nodes = t.nodes.map fun node => if node.id = id then node.setprop name bytes else node

def Tree.pool (t : Tree ι) (name : Text) : Option (TreeNode ι) :=
  (t.lookup ('/' :: reservedMemory)).bind fun parent =>
    t.nodes.find? fun node => node.parent = some parent.id ∧ node.name = name

/-- What `fdt_assign_reserved_memory` is for, on a node and the full name of a pool. -/
structure AssignsPool (t : Tree ι) (target : TreeNode ι) (name : Text) (next : Tree ι) (rc : Int) : Prop where
  assigned : rc = 0 →
    (∃ node p, t.pool name = some node ∧ node.HasPhandle p ∧ Sets t next target.id memoryRegion (cellBytes p)) ∨
      ((∀ node p, t.pool name = some node → ¬node.HasPhandle p) ∧ next = t)
  refused : 64 ≤ name.length → rc ≠ 0 ∧ next = t

/-- A name that does not fit leads to an error that is reported. With one that fits, what is found
is a child of `/reserved-memory`, for a node without `memory-region`. -/
def Untruncated (lib : LibFdt Blob) (view : View Blob ι) (fdt : Blob) (off : Int) (target : TreeNode ι) (stem : Text)
    (base : BitVec 64) : Prop :=
  match fdtReservedMemoryPhandle lib fdt (fdtFormatMemoryName 64 stem base).1 with
  | .error err => err = -fdtErrNotfound → (memoryName stem base).length < 64
  | .ok p =>
      let appended := lib.fdtAppendpropU32 fdt off memoryRegion p
      if 64 ≤ (memoryName stem base).length then appended.2 ≠ 0 ∧ view.tree appended.1 = view.tree fdt
      else appended.2 = 0 → '/' ∉ stem ∧ (target.props memoryRegion).getD [] = []

section Trees
variable {t : Tree ι} {target : TreeNode ι} {name : Text} {bytes : List Byte}

/-- An append sets a property that has no bytes yet, and only such a one. -/
theorem append_sets_iff (inside : target ∈ t.nodes) :
    Sets t (t.append target.id name bytes) target.id name bytes ↔ (target.props name).getD [] = [] := by
  unfold Sets Tree.append
  rw [List.map_inj_left]
  constructor
  · intro same
    have here := same target inside
    rw [if_pos rfl, if_pos rfl] at here
    have props := congrFun (congrArg TreeNode.props here) name
    simpa [TreeNode.append, TreeNode.setprop] using props
  · intro empty node member
    by_cases same : node.id = target.id
    · obtain rfl := List.inj_on_of_nodup_map t.distinct member inside same
      simp [TreeNode.append, TreeNode.setprop, empty]
    · rw [if_neg same, if_neg same]

theorem append_changes (inside : target ∈ t.nodes) (some_ : bytes ≠ []) : t.append target.id name bytes ≠ t := by
  intro same
  have nodes : (t.nodes.map fun node => if node.id = target.id then node.append name bytes else node) =
      t.nodes.map id := by
    rw [List.map_id]
    exact congrArg Tree.nodes same
  have here := List.map_inj_left.mp nodes target inside
  rw [if_pos rfl] at here
  have props := congrFun (congrArg TreeNode.props here) name
  cases old : target.props name with
  | none => simp [TreeNode.append, old] at props
  | some before => simp [TreeNode.append, old, some_] at props

theorem lookup_pool (address : '@' ∈ name) (plain : '/' ∉ name) :
    t.lookup ('/' :: (reservedMemory ++ '/' :: name)) = t.pool name := by
  have some_ : name ≠ [] := by
    rintro rfl
    cases address
  rw [lookup_two ⟨plain_names.2.1.1, some_⟩ ⟨plain_names.2.2.1, plain⟩, Tree.pool]
  congr 1
  funext parent
  simp only [Tree.child, nameMatches_address address, decide_eq_true_eq]

theorem pool_none (named : t.Named) (path : '/' ∈ name) : t.pool name = none := by
  rw [Tree.pool, Option.bind_eq_none_iff]
  intro parent _
  apply List.find?_eq_none.mpr
  intro node member holds
  obtain ⟨_, rfl⟩ := of_decide_eq_true holds
  exact named node member path

end Trees

section Lookup
variable {lib : LibFdt Blob} {view : View Blob ι} {fdt : Blob} {stem : Text} {base : BitVec 64} {p : BitVec 32}

theorem pool_absent (behaves : Behaves lib view) (named : (view.tree fdt).Named)
    (missing : fdtReservedMemoryPhandle lib fdt (memoryName stem base) = .error (-fdtErrNotfound))
    {node : TreeNode ι} (pool : (view.tree fdt).pool (memoryName stem base) = some node) : ¬node.HasPhandle p := by
  rintro ⟨phandle, some_⟩
  by_cases path : '/' ∈ memoryName stem base
  · rw [pool_none named path] at pool
    cases pool
  · rw [← lookup_pool (memoryName_address stem base) path] at pool
    exact some_ (reserved_memory_missing behaves missing ⟨node, pool, phandle⟩)

/-- What is found under the full name is the phandle of the pool, unless the name is a path. -/
theorem pool_found_iff (behaves : Behaves lib view) (named : (view.tree fdt).Named)
    (found : fdtReservedMemoryPhandle lib fdt (memoryName stem base) = .ok p) :
    (∃ node, (view.tree fdt).pool (memoryName stem base) = some node ∧ node.HasPhandle p) ↔ '/' ∉ stem := by
  rw [← memoryName_slash stem base]
  constructor
  · rintro ⟨node, pool, _⟩ path
    rw [pool_none named path] at pool
    cases pool
  · intro plain
    obtain ⟨⟨node, leads, phandle⟩, some_⟩ := reserved_memory_phandle behaves found
    rw [lookup_pool (memoryName_address stem base) plain] at leads
    exact ⟨node, leads, phandle, some_⟩

theorem appended_assigns_iff (behaves : Behaves lib view) (named : (view.tree fdt).Named) {target : TreeNode ι}
    (inside : target ∈ (view.tree fdt).nodes)
    (found : fdtReservedMemoryPhandle lib fdt (memoryName stem base) = .ok p) :
    (∃ node q, (view.tree fdt).pool (memoryName stem base) = some node ∧ node.HasPhandle q ∧
        Sets (view.tree fdt) ((view.tree fdt).append target.id memoryRegion (cellBytes p)) target.id memoryRegion
          (cellBytes q)) ↔
      '/' ∉ stem ∧ (target.props memoryRegion).getD [] = [] := by
  rw [← pool_found_iff behaves named found]
  constructor
  · rintro ⟨node, q, pool, phandle, sets⟩
    have plain : '/' ∉ stem := by
      intro path
      rw [pool_none named ((memoryName_slash stem base).mpr path)] at pool
      cases pool
    obtain ⟨other, same, own⟩ := (pool_found_iff behaves named found).mpr plain
    obtain rfl := Option.some.inj (pool.symm.trans same)
    obtain rfl := Option.some.inj (phandle.1.symm.trans own.1)
    exact ⟨⟨node, pool, phandle⟩, (append_sets_iff inside).mp sets⟩
  · rintro ⟨⟨node, pool, phandle⟩, empty⟩
    exact ⟨node, p, pool, phandle, (append_sets_iff inside).mpr empty⟩

/-- With a name that fits, what is found is assigned if it can be, and nothing else happens. -/
theorem found_assigns_iff (behaves : Behaves lib view) (named : (view.tree fdt).Named) {target : TreeNode ι} {off : Int}
    (inside : target ∈ (view.tree fdt).nodes) (at_ : view.nodeAt fdt off = some target.id)
    (found : fdtReservedMemoryPhandle lib fdt (memoryName stem base) = .ok p)
    (short : ¬64 ≤ (memoryName stem base).length) :
    AssignsPool (view.tree fdt) target (memoryName stem base)
        (view.tree (lib.fdtAppendpropU32 fdt off memoryRegion p).1) (lib.fdtAppendpropU32 fdt off memoryRegion p).2 ↔
      ((lib.fdtAppendpropU32 fdt off memoryRegion p).2 = 0 →
        '/' ∉ stem ∧ (target.props memoryRegion).getD [] = []) := by
  by_cases done : (lib.fdtAppendpropU32 fdt off memoryRegion p).2 = 0
  · obtain ⟨id, here, _, tree⟩ := behaves.append fdt off memoryRegion (cellBytes p) done
    obtain rfl := Option.some.inj (at_.symm.trans here)
    have changes : (view.tree fdt).append target.id memoryRegion (cellBytes p) ≠ view.tree fdt :=
      append_changes inside (by simp [cellBytes])
    have assigned := appended_assigns_iff behaves named inside found
    rw [show view.tree (lib.fdtAppendpropU32 fdt off memoryRegion p).1 = _ from tree]
    constructor
    · intro assigns _
      rcases assigns.assigned done with pool | ⟨_, same⟩
      · exact assigned.mp pool
      · exact absurd same changes
    · intro first
      exact ⟨fun _ => .inl (assigned.mpr (first done)), fun fails => absurd fails short⟩
  · exact ⟨fun _ returns => absurd returns done, fun _ =>
      ⟨fun returns => absurd returns done, fun fails => absurd fails short⟩⟩

end Lookup

/-- For every tree, every node, every stem of any length and every base, `fdt_assign_reserved_memory` assigns
the pool of the full name, finds that there is none, or fails, if and only if what it looks up is not a
truncated name, and what is found is assigned to a node for which it is the first. -/
theorem assigns_pool_iff {lib : LibFdt Blob} {view : View Blob ι} (behaves : Behaves lib view) (fdt : Blob) (off : Int)
    (target : TreeNode ι) (stem : Text) (base : BitVec 64) (named : (view.tree fdt).Named)
    (inside : target ∈ (view.tree fdt).nodes) (at_ : view.nodeAt fdt off = some target.id) :
    AssignsPool (view.tree fdt) target (memoryName stem base)
        (view.tree (fdtAssignReservedMemory lib fdt off stem base).1) (fdtAssignReservedMemory lib fdt off stem base).2 ↔
      Untruncated lib view fdt off target stem base := by
  have fits : (memoryName stem base).length < 64 → (fdtFormatMemoryName 64 stem base).1 = memoryName stem base :=
    fun short => List.take_of_length_le (Nat.le_of_lt_succ short)
  unfold Untruncated fdtAssignReservedMemory
  dsimp only
  cases found : fdtReservedMemoryPhandle lib fdt (fdtFormatMemoryName 64 stem base).1 with
  | error err =>
    dsimp only
    by_cases missing : err = -fdtErrNotfound
    · rw [if_pos missing]
      constructor
      · intro assigns _
        by_contra long
        exact (assigns.refused (Nat.le_of_not_lt long)).1 rfl
      · intro short
        rw [fits (short missing), missing] at found
        exact ⟨fun _ => .inr ⟨fun node p pool => pool_absent behaves named found pool, rfl⟩,
          fun long => absurd (short missing) (Nat.not_lt_of_le long)⟩
    · rw [if_neg missing]
      exact ⟨fun _ notfound => absurd notfound missing, fun _ => ⟨nofun, fun _ => ⟨nofun, rfl⟩⟩⟩
  | ok p =>
    dsimp only
    by_cases long : 64 ≤ (memoryName stem base).length
    · rw [if_pos long]
      exact ⟨fun assigns => assigns.refused long, fun refused => ⟨fun done => absurd done refused.1, fun _ => refused⟩⟩
    · rw [if_neg long]
      rw [fits (Nat.lt_of_not_le long)] at found
      exact found_assigns_iff behaves named inside at_ found long

def poolTree (name : Text) : Tree Nat where
  nodes := [⟨0, none, [], fun _ => none⟩, ⟨1, some 0, reservedMemory, fun _ => none⟩,
    ⟨2, some 1, name, fun prop => if prop = "phandle".toList then some (cellBytes 7#32) else none⟩,
    ⟨3, some 0, virtio, fun _ => none⟩]
  distinct := by
    show [0, 1, 2, 3].Nodup
    decide

def poolUser : TreeNode Nat := ⟨3, some 0, virtio, fun _ => none⟩

theorem poolUser_inside (name : Text) : poolUser ∈ (poolTree name).nodes := .tail _ (.tail _ (.tail _ (.head _)))

theorem assigns_pool_short :
    AssignsPool (poolTree (memoryName swiotlb 0x1000#64)) poolUser (memoryName swiotlb 0x1000#64)
      (fdtAssignReservedMemory treeFdt (poolTree (memoryName swiotlb 0x1000#64)) 3 swiotlb 0x1000#64).1
      (fdtAssignReservedMemory treeFdt (poolTree (memoryName swiotlb 0x1000#64)) 3 swiotlb 0x1000#64).2 := by
  have found : fdtReservedMemoryPhandle treeFdt (poolTree (memoryName swiotlb 0x1000#64))
      (fdtFormatMemoryName 64 swiotlb 0x1000#64).1 = .ok 7#32 := by rfl
  have untruncated : Untruncated treeFdt treeView (poolTree (memoryName swiotlb 0x1000#64)) 3 poolUser swiotlb 0x1000#64 := by
    rw [Untruncated, found]
    exact fun _ => ⟨by decide, rfl⟩
  exact (assigns_pool_iff treeFdt_behaves (poolTree (memoryName swiotlb 0x1000#64)) 3 poolUser swiotlb 0x1000#64
    (by decide +kernel) (poolUser_inside _) rfl).mpr untruncated

/-- The base 0x1000 of a stem of 61 characters is cut off to 1, the base of another pool. -/
theorem assigns_pool_truncated : ¬∀ (fdt : Tree Nat) (off : Int) (target : TreeNode Nat) (stem : Text)
    (base : BitVec 64), fdt.Named → target ∈ fdt.nodes → fdt.nodeAt off = some target.id →
      AssignsPool fdt target (memoryName stem base) (fdtAssignReservedMemory treeFdt fdt off stem base).1
        (fdtAssignReservedMemory treeFdt fdt off stem base).2 := by
  intro claim
  have assigns := claim (poolTree (memoryName (List.replicate 61 'a') 1#64)) 3 poolUser (List.replicate 61 'a') 0x1000#64
    (by decide +kernel) (poolUser_inside _) rfl
  exact (assigns.refused (by decide)).1 (by decide +kernel)

end Virtioso.Fdt
