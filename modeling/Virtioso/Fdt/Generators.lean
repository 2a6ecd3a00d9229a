import Virtioso.Fdt.LibFdt
import Virtioso.Irq.Pci

/-! The functions of `fdt.c` that write nodes into the guest's tree.

A dataport becomes a reserved memory node with a phandle, a PCI device becomes a node
that refers to the phandle of the pool at its backend's base. The two meet only in the
text of the node name.
-/

set_option autoImplicit false

namespace Virtioso.Fdt

open Foundation Virtioso.Irq

/-! ### Names -/

/-- `fdt_format`: what the buffer holds without its NUL, and the code. -/
def fdtFormat (len : Nat) (text : Text) : Text × Int :=
  (text.take (len - 1), if len ≤ text.length then -fdtErrInternal else 0)

/-- The format `"%s@%"PRIxPTR`. -/
def memoryName (stem : Text) (base : BitVec 64) : Text := stem ++ '@' :: Nat.toDigits 16 base.toNat

/-- The format `"%s@%u,%u"` of slot and function. -/
def pciDevfnName (stem : Text) (devfn : BitVec 32) : Text :=
  stem ++ '@' :: Nat.toDigits 10 (pciSlot devfn).toNat ++
    ',' :: Nat.toDigits 10 (devfn &&& 0x7#32).toNat

/-- `fdt_format_memory_name`. -/
def fdtFormatMemoryName (len : Nat) (stem : Text) (base : BitVec 64) : Text × Int :=
  fdtFormat len (memoryName stem base)

/-- `fdt_format_pci_devfn_name`. -/
def fdtFormatPciDevfnName (len : Nat) (stem : Text) (devfn : BitVec 32) : Text × Int :=
  fdtFormat len (pciDevfnName stem devfn)

/-! ### Nodes -/

/-! The names of nodes and properties that `fdt.c` and `guest_linux.c` use. -/

def reservedMemory : Text := "reserved-memory".toList

def pci : Text := "pci".toList

def swiotlb : Text := "swiotlb".toList

def virtio : Text := "virtio".toList

def memoryRegion : Text := "memory-region".toList

variable {Blob ι : Type}

/-- `if (err) goto error;` after a call that has set `err`, and what follows it. -/
def onSuccess (call : Blob × Int) (next : Blob → Blob × Int) : Blob × Int :=
  if call.2 ≠ 0 then call else next call.1

/-- The same after a call that returns an offset. -/
def onOffset (call : Blob × Int) (next : Blob → Int → Blob × Int) : Blob × Int :=
  if call.2 < 0 then call else next call.1 call.2

/-- `fdt_assign_phandle`. -/
def fdtAssignPhandle (lib : LibFdt Blob) (fdt : Blob) (offset : Int) : Blob × Int :=
  let max := lib.fdtGetMaxPhandle fdt
  if max = BitVec.allOnes 32 then (fdt, -fdtErrNophandles)
  else
    let phandle := max + 1#32
    if phandle < max ∨ phandle = BitVec.allOnes 32 then (fdt, -fdtErrNophandles)
    else lib.fdtAppendpropU32 fdt offset "phandle".toList phandle

/-- `fdt_generate_reserved_node`. The offset it returns is that of the node before the
memory node is added; its callers only look at the sign. -/
def fdtGenerateReservedNode (lib : LibFdt Blob) (fdt : Blob) (stem compatible : Text)
    (base size : BitVec 64) : Blob × Int :=
  let (name, err) := fdtFormatMemoryName 64 stem base
  if err ≠ 0 then (fdt, -fdtErrInternal)
  else
    let root := lib.fdtPathOffset fdt ('/' :: reservedMemory)
    if root < 0 then (fdt, root)
    else
      let addressCells := lib.fdtAddressCells fdt root
      let sizeCells := lib.fdtSizeCells fdt root
      onOffset (lib.fdtAddSubnode fdt root name) fun fdt this =>
      onSuccess (lib.fdtAppendpropString fdt this "compatible".toList compatible) fun fdt =>
      onSuccess (lib.fdtAppendpropUint fdt this "reg".toList base addressCells) fun fdt =>
      onSuccess (lib.fdtAppendpropUint fdt this "reg".toList size sizeCells) fun fdt =>
      onSuccess (fdtAssignPhandle lib fdt this) fun fdt =>
      let (fdt, err) := lib.fdtGenerateMemoryNode fdt base size
      if err ≠ 0 then (fdt, -1) else (fdt, this)

/-- The loop of `fdt_generate_pci_node` over the cells of `reg` that are zero. -/
def appendZeros (lib : LibFdt Blob) (this : Int) : Nat → Blob → Blob × Int
  | 0, fdt => (fdt, 0)
  | n + 1, fdt =>
      onSuccess (lib.fdtAppendpropU32 fdt this "reg".toList 0#32) (appendZeros lib this n)

/-- `fdt_generate_pci_node`. -/
def fdtGeneratePciNode (lib : LibFdt Blob) (fdt : Blob) (stem : Text) (devfn : BitVec 32) : Blob × Int :=
  let root := lib.fdtPathOffset fdt ('/' :: pci)
  if root < 0 then (fdt, root)
  else
    let (name, err) := fdtFormatPciDevfnName 64 stem devfn
    if err ≠ 0 then (fdt, -fdtErrInternal)
    else
      onOffset (lib.fdtAddSubnode fdt root name) fun fdt this =>
      onSuccess (lib.fdtAppendpropU32 fdt this "reg".toList ((devfn &&& 0xff#32) <<< 8)) fun fdt =>
      onSuccess (appendZeros lib this 4 fdt) fun fdt => (fdt, this)

/-- `fdt_reserved_memory_phandle`; the error is the code it returns. -/
def fdtReservedMemoryPhandle (lib : LibFdt Blob) (fdt : Blob) (name : Text) : Except Int (BitVec 32) :=
  let path := '/' :: (reservedMemory ++ '/' :: name)
  if 256 ≤ path.length then .error (-fdtErrInternal)
  else
    let off := lib.fdtPathOffset fdt path
    if off < 0 then .error off
    else
      let p := lib.fdtGetPhandle fdt off
      if p = 0#32 then .error (-fdtErrNotfound) else .ok p

/-- `fdt_assign_reserved_memory`. It tests whether the name buffer is NULL, which it
never is, instead of the code of `fdt_format_memory_name`. -/
def fdtAssignReservedMemory (lib : LibFdt Blob) (fdt : Blob) (off : Int) (stem : Text) (base : BitVec 64) :
    Blob × Int :=
  let (name, _) := fdtFormatMemoryName 64 stem base
  match fdtReservedMemoryPhandle lib fdt name with
  | .error err =>
      if err = -fdtErrNotfound then (fdt, 0)
      else (fdt, -1) -- `err` is negative
  | .ok phandle => lib.fdtAppendpropU32 fdt off memoryRegion phandle

/-- `fdt_generate_pci_config` over the devices that are left. -/
def fdtGeneratePciConfig {Proxy : Type} (lib : LibFdt Blob) (dataBase : Proxy → BitVec 64) :
    List (PciDev Proxy) → Blob → Blob × Int
  | [], fdt => (fdt, 0)
  | dev :: rest, fdt =>
      let (fdt, this) := fdtGeneratePciNode lib fdt virtio dev.devfn
      if this ≤ 0 then (fdt, -1)
      else
        let (fdt, err) := fdtAssignReservedMemory lib fdt this swiotlb (dataBase dev.ioProxy)
        if err ≠ 0 then (fdt, -1) else fdtGeneratePciConfig lib dataBase rest fdt

/-! ### What a successful call does -/

theorem format_fits {len : Nat} {text : Text} (fits : ¬(fdtFormat len text).2 ≠ 0) :
    (fdtFormat len text).1 = text := by
  unfold fdtFormat at fits ⊢
  dsimp only at fits ⊢
  split at fits
  · exact absurd (by decide) fits
  · next short => exact List.take_of_length_le (by omega)

theorem onSuccess_succeeds {call : Blob × Int} {next : Blob → Blob × Int} {last : Blob} {rc : Int}
    (returns : onSuccess call next = (last, rc)) (code : call.2 ≤ 0) (succeeds : 0 ≤ rc) :
    call.2 = 0 ∧ next call.1 = (last, rc) := by
  unfold onSuccess at returns
  split at returns
  · next fails =>
    rw [returns] at fails code
    omega
  · next zero => exact ⟨not_not.mp zero, returns⟩

theorem onOffset_succeeds {call : Blob × Int} {next : Blob → Int → Blob × Int} {last : Blob} {rc : Int}
    (returns : onOffset call next = (last, rc)) (succeeds : 0 ≤ rc) :
    0 ≤ call.2 ∧ next call.1 call.2 = (last, rc) := by
  unfold onOffset at returns
  split at returns
  · next fails =>
    rw [returns] at fails
    omega
  · next offset => exact ⟨Int.not_lt.mp offset, returns⟩

variable [DecidableEq ι] {lib : LibFdt Blob} {view : View Blob ι}

def Adds (view : View Blob ι) (fdt next : Blob) (offset : Int) (node : TreeNode ι) : Prop :=
  Inserts (view.tree fdt) (view.tree next) node ∧ view.nodeAt next offset = some node.id

/-- A node that is being written: it has no phandle yet, nor does it refer to one. -/
structure Plain (parent : ι) (name : Text) (node : TreeNode ι) : Prop where
  below : node.parent = some parent
  named : node.name = name
  bare : ∀ prop ∈ memoryRegion :: phandleProps, node.props prop = none

omit [DecidableEq ι] in
theorem Plain.append {parent : ι} {name prop : Text} {node : TreeNode ι} (plain : Plain parent name node)
    (other : prop ∉ memoryRegion :: phandleProps) (bytes : List Byte) :
    Plain parent name (node.append prop bytes) where
  below := plain.below
  named := plain.named
  bare p mem := by
    rw [append_other]
    · exact plain.bare p mem
    · rintro rfl
      exact other mem

omit [DecidableEq ι] in
theorem Plain.phandle {parent : ι} {name : Text} {node : TreeNode ι} (plain : Plain parent name node) :
    node.phandle = none := by
  rw [TreeNode.phandle, List.findSome?_eq_none_iff]
  intro prop mem
  rw [plain.bare prop (List.mem_cons_of_mem _ mem)]
  rfl

section
variable {fdt next last : Blob} {offset : Int} {node : TreeNode ι} {name : Text} {bytes : List Byte}

theorem Adds.append (adds : Adds view fdt next offset node) (appends : Appends view next offset name bytes last) :
    Adds view fdt last offset (node.append name bytes) := by
  obtain ⟨inserts, here⟩ := adds
  obtain ⟨id, at_, stays, tree⟩ := appends
  obtain rfl : node.id = id := Option.some.inj (here.symm.trans at_)
  refine ⟨?_, stays⟩
  rw [tree]
  exact inserts.append name bytes

omit [DecidableEq ι] in
theorem assign_phandle_code (lib : LibFdt Blob) (append : ∀ fdt offset name bytes,
    (lib.fdtAppendprop fdt offset name bytes).2 ≤ 0) (fdt : Blob) (offset : Int) :
    (fdtAssignPhandle lib fdt offset).2 ≤ 0 := by
  unfold fdtAssignPhandle
  dsimp only
  split
  · exact Int.negSucc_le_zero _
  · split
    · exact Int.negSucc_le_zero _
    · exact append ..

theorem assign_phandle (behaves : Behaves lib view) (adds : Adds view fdt next offset node)
    (absent : node.phandle = none) (done : (fdtAssignPhandle lib next offset).2 = 0) :
    ∃ p, Adds view fdt (fdtAssignPhandle lib next offset).1 offset
        (node.append "phandle".toList (cellBytes p)) ∧
      (∀ q ∈ (view.tree fdt).phandles, q < p) ∧ p ≠ 0#32 ∧ p ≠ BitVec.allOnes 32 := by
  unfold fdtAssignPhandle at done ⊢
  dsimp only at done ⊢
  split at done
  · cases done
  · next proper =>
    rw [if_neg proper]
    split at done
    · cases done
    · next room =>
      rw [if_neg room]
      obtain ⟨noWrap, notOnes⟩ := not_or.mp room
      refine ⟨_, adds.append (behaves.append _ _ _ _ done), fun q mem => ?_, ?_, notOnes⟩
      · -- the phandles of the tree are those before the node was added
        have below := (adds.1.phandles.mem_iff (a := q)).mpr (by rw [absent]; exact mem)
        have bound := le_maxPhandle below
        rw [← behaves.max_phandle next proper] at bound
        bv_omega
      · bv_omega

def Writes (view : View Blob ι) (fdt next : Blob) (offset : Int) (parent : ι) (name : Text) : Prop :=
  ∃ node, Adds view fdt next offset node ∧ Plain parent name node

theorem Writes.append {parent : ι} {prop : Text} (writes : Writes view fdt next offset parent name)
    (other : prop ∉ memoryRegion :: phandleProps) (appends : Appends view next offset prop bytes last) :
    Writes view fdt last offset parent name := by
  obtain ⟨node, adds, plain⟩ := writes
  exact ⟨_, adds.append appends, plain.append other bytes⟩

theorem add_subnode (behaves : Behaves lib view) {root : Int} {parent : ι}
    (at_ : view.nodeAt fdt root = some parent) (done : 0 ≤ (lib.fdtAddSubnode fdt root name).2) :
    (view.tree fdt).child parent name = none ∧
      Writes view fdt (lib.fdtAddSubnode fdt root name).1 (lib.fdtAddSubnode fdt root name).2 parent name := by
  obtain ⟨_, id, here, free, adds⟩ := behaves.add_subnode fdt root name done
  obtain rfl := Option.some.inj (at_.symm.trans here)
  exact ⟨free, _, adds, rfl, rfl, fun _ _ => rfl⟩

/-- The node that a call of `fdt_generate_reserved_node` adds below `parent`. -/
structure PoolNode (t : Tree ι) (parent : ι) (name : Text) (node : TreeNode ι) : Prop where
  free : t.child parent name = none
  below : node.parent = some parent
  named : node.name = name
  identified : ∃ p, node.phandle = some p ∧ (∀ q ∈ t.phandles, q < p) ∧ p ≠ 0#32 ∧ p ≠ BitVec.allOnes 32

structure MemoryNode (node : TreeNode ι) : Prop where
  below : node.parent ≠ none
  named : "memory@".toList <+: node.name
  phandle : node.phandle = none

theorem generate_reserved_node (behaves : Behaves lib view) {stem compatible : Text} {base size : BitVec 64}
    {this : Int} (returns : fdtGenerateReservedNode lib fdt stem compatible base size = (next, this))
    (succeeds : 0 ≤ this) :
    ∃ parent mid node memory, (view.tree fdt).lookup ('/' :: reservedMemory) = some parent ∧
      Inserts (view.tree fdt) mid node ∧ Inserts mid (view.tree next) memory ∧
      PoolNode (view.tree fdt) parent.id (memoryName stem base) node ∧ MemoryNode memory := by
  unfold fdtGenerateReservedNode fdtFormatMemoryName at returns
  dsimp only at returns
  split at returns
  · obtain ⟨-, rfl⟩ := Prod.mk.inj returns
    cases succeeds
  next fits =>
  rw [format_fits fits] at returns
  split at returns
  · obtain ⟨-, rfl⟩ := Prod.mk.inj returns
    omega
  next found =>
  obtain ⟨parent, leads, root⟩ := behaves.path_found fdt _ (Int.not_lt.mp found)
  obtain ⟨added, returns⟩ := onOffset_succeeds returns succeeds
  obtain ⟨free, writes⟩ := add_subnode behaves root added
  -- the properties of the new node, the phandle last
  obtain ⟨done, returns⟩ := onSuccess_succeeds returns (behaves.append_code ..) succeeds
  have writes := writes.append (by decide) (behaves.append _ _ _ _ done)
  obtain ⟨done, returns⟩ := onSuccess_succeeds returns (behaves.append_uint_code ..) succeeds
  obtain ⟨_, appends⟩ := behaves.append_uint _ _ _ _ _ done
  have writes := writes.append (by decide) appends
  obtain ⟨done, returns⟩ := onSuccess_succeeds returns (behaves.append_uint_code ..) succeeds
  obtain ⟨_, appends⟩ := behaves.append_uint _ _ _ _ _ done
  obtain ⟨node, adds, plain⟩ := writes.append (by decide) appends
  obtain ⟨done, returns⟩ := onSuccess_succeeds returns (assign_phandle_code lib behaves.append_code ..) succeeds
  obtain ⟨p, adds, above, legal⟩ := assign_phandle behaves adds plain.phandle done
  have bare := plain.bare "phandle".toList (by decide)
  split at returns
  · obtain ⟨-, rfl⟩ := Prod.mk.inj returns
    cases succeeds
  · next done =>
    obtain ⟨rfl, rfl⟩ := Prod.mk.inj returns
    obtain ⟨memory, grows, below, named, absent⟩ := behaves.memory_node _ _ _ (not_not.mp done)
    refine ⟨parent, _, _, memory, leads, adds.1, grows, ⟨free, plain.below, plain.named, p, ?_, above, legal⟩,
      below, named, absent⟩
    exact append_new_phandle _ bare p

theorem appendZeros_code (lib : LibFdt Blob) (append : ∀ fdt offset name bytes,
    (lib.fdtAppendprop fdt offset name bytes).2 ≤ 0) (this : Int) (n : Nat) (fdt : Blob) :
    (appendZeros lib this n fdt).2 ≤ 0 := by
  induction n generalizing fdt with
  | zero => exact Int.le_refl 0
  | succ n ih =>
    unfold appendZeros onSuccess
    split
    · exact append ..
    · exact ih _

theorem append_zeros (behaves : Behaves lib view) {parent : ι} {n : Nat}
    (writes : Writes view fdt next offset parent name) (done : (appendZeros lib offset n next).2 = 0) :
    Writes view fdt (appendZeros lib offset n next).1 offset parent name := by
  induction n generalizing next with
  | zero => exact writes
  | succ n ih =>
    have returns : onSuccess (lib.fdtAppendpropU32 next offset "reg".toList 0#32) (appendZeros lib offset n) =
        ((appendZeros lib offset (n + 1) next).1, 0) := by
      rw [← done]
      rfl
    obtain ⟨appended, rest⟩ := onSuccess_succeeds returns (behaves.append_code ..) (Int.le_refl 0)
    have writes : Writes view fdt (lib.fdtAppendpropU32 next offset "reg".toList 0#32).1 offset parent name :=
      writes.append (by decide) (behaves.append _ _ _ _ appended)
    have step := ih writes (congrArg Prod.snd rest)
    rwa [rest] at step

theorem generate_pci_node (behaves : Behaves lib view) {stem : Text} {devfn : BitVec 32} {this : Int}
    (returns : fdtGeneratePciNode lib fdt stem devfn = (next, this)) (succeeds : 0 ≤ this) :
    ∃ parent, (view.tree fdt).lookup ('/' :: pci) = some parent ∧
      (view.tree fdt).child parent.id (pciDevfnName stem devfn) = none ∧
      Writes view fdt next this parent.id (pciDevfnName stem devfn) := by
  unfold fdtGeneratePciNode fdtFormatPciDevfnName at returns
  dsimp only at returns
  split at returns
  · obtain ⟨-, rfl⟩ := Prod.mk.inj returns
    omega
  next found =>
  obtain ⟨parent, leads, root⟩ := behaves.path_found fdt _ (Int.not_lt.mp found)
  split at returns
  · obtain ⟨-, rfl⟩ := Prod.mk.inj returns
    cases succeeds
  -- from here on the function does one thing after the other, and each has succeeded
  next fits =>
  rw [format_fits fits] at returns
  obtain ⟨added, returns⟩ := onOffset_succeeds returns succeeds
  obtain ⟨free, writes⟩ := add_subnode behaves root added
  obtain ⟨done, returns⟩ := onSuccess_succeeds returns (behaves.append_code ..) succeeds
  have writes := writes.append (by decide) (behaves.append _ _ _ _ done)
  obtain ⟨done, returns⟩ := onSuccess_succeeds returns (appendZeros_code lib behaves.append_code ..) succeeds
  have writes := append_zeros behaves writes done
  obtain ⟨rfl, rfl⟩ := Prod.mk.inj returns
  exact ⟨parent, leads, free, writes⟩

def Names (t : Tree ι) (name : Text) (p : BitVec 32) : Prop :=
  ∃ node, t.lookup ('/' :: (reservedMemory ++ '/' :: name)) = some node ∧ node.phandle = some p

theorem reserved_memory_phandle (behaves : Behaves lib view) {p : BitVec 32}
    (found : fdtReservedMemoryPhandle lib fdt name = .ok p) : Names (view.tree fdt) name p ∧ p ≠ 0#32 := by
  unfold fdtReservedMemoryPhandle at found
  dsimp only at found
  split at found
  · cases found
  split at found
  · cases found
  next there =>
  obtain ⟨node, leads, at_⟩ := behaves.path_found fdt _ (Int.not_lt.mp there)
  have phandle := behaves.get_phandle fdt _ node (lookup_mem leads) at_
  split at found
  · cases found
  · next some =>
    obtain rfl := Except.ok.inj found
    refine ⟨⟨node, leads, ?_⟩, some⟩
    -- 0 is what a node without a phandle gives
    rw [phandle] at some ⊢
    cases has : node.phandle with
    | none => simp [has] at some
    | some p => rfl

theorem reserved_memory_missing (behaves : Behaves lib view)
    (missing : fdtReservedMemoryPhandle lib fdt name = .error (-fdtErrNotfound)) {p : BitVec 32}
    (names : Names (view.tree fdt) name p) : p = 0#32 := by
  obtain ⟨node, leads, has⟩ := names
  unfold fdtReservedMemoryPhandle at missing
  dsimp only at missing
  split at missing
  · cases missing
  split at missing
  · have none := behaves.path_missing fdt _ (Except.error.inj missing)
    rw [none] at leads
    cases leads
  next there =>
  obtain ⟨_, found, at_⟩ := behaves.path_found fdt _ (Int.not_lt.mp there)
  obtain rfl := Option.some.inj (found.symm.trans leads)
  have phandle := behaves.get_phandle fdt _ _ (lookup_mem leads) at_
  split at missing
  · next zero =>
    rw [phandle, has] at zero
    exact zero
  · cases missing

/-- A successful assignment appends the phandle that the name in the buffer leads to. -/
theorem assign_reserved_memory (behaves : Behaves lib view) {stem : Text} {base : BitVec 64}
    (returns : fdtAssignReservedMemory lib fdt offset stem base = (next, 0)) :
    (next = fdt ∧ ∀ p, Names (view.tree fdt) (fdtFormatMemoryName 64 stem base).1 p → p = 0#32) ∨
    ∃ p, Names (view.tree fdt) (fdtFormatMemoryName 64 stem base).1 p ∧ p ≠ 0#32 ∧
      Appends view fdt offset memoryRegion (cellBytes p) next := by
  unfold fdtAssignReservedMemory at returns
  dsimp only at returns
  split at returns
  · next err fails =>
    split at returns
    · next missing =>
      left
      subst missing
      obtain ⟨rfl, -⟩ := Prod.mk.inj returns
      exact ⟨rfl, fun p names => reserved_memory_missing behaves fails names⟩
    · cases (Prod.mk.inj returns).2
  · next p found =>
    right
    obtain ⟨names, some⟩ := reserved_memory_phandle behaves found
    refine ⟨p, names, some, ?_⟩
    have appends := behaves.append _ _ _ _ (congrArg Prod.snd returns)
    rwa [show (lib.fdtAppendprop _ _ _ _).1 = next from congrArg Prod.fst returns] at appends

end

end Virtioso.Fdt
