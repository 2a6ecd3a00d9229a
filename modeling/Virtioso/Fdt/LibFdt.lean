import Virtioso.Fdt.Tree

/-! The functions of libfdt and of the virtual machine monitor that `fdt.c` calls.

A blob is a flattened tree. An offset into it stands for a node until another node is
added. What the callers rely on is stated for calls that succeed, since they test every
code.
-/

set_option autoImplicit false

namespace Virtioso.Fdt

open Foundation

def fdtErrNotfound : Int := 1
def fdtErrInternal : Int := 13
def fdtErrNophandles : Int := 17

/-- The functions, with the blob after the call where they change it. -/
structure LibFdt (Blob : Type) where
  fdtPathOffset : Blob → Text → Int
  fdtAddressCells : Blob → Int → Int
  fdtSizeCells : Blob → Int → Int
  fdtGetPhandle : Blob → Int → BitVec 32
  fdtGetMaxPhandle : Blob → BitVec 32
  fdtAddSubnode : Blob → Int → Text → Blob × Int
  fdtAppendprop : Blob → Int → Text → List Byte → Blob × Int
  fdtAppendpropUint : Blob → Int → Text → BitVec 64 → Int → Blob × Int
  /-- not part of libfdt, as the one before -/
  fdtGenerateMemoryNode : Blob → BitVec 64 → BitVec 64 → Blob × Int

variable {Blob ι : Type}

/-- `fdt_appendprop_u32`. -/
def LibFdt.fdtAppendpropU32 (lib : LibFdt Blob) (fdt : Blob) (offset : Int) (name : Text) (val : BitVec 32) :
    Blob × Int :=
  lib.fdtAppendprop fdt offset name (cellBytes val)

/-- `fdt_appendprop_string`, which appends the terminating NUL as well. -/
def LibFdt.fdtAppendpropString (lib : LibFdt Blob) (fdt : Blob) (offset : Int) (name str : Text) : Blob × Int :=
  lib.fdtAppendprop fdt offset name (str.map (fun c => BitVec.ofNat 8 c.toNat) ++ [0#8])

/-- The tree that a blob flattens, and the nodes that offsets stand for. -/
structure View (Blob ι : Type) where
  tree : Blob → Tree ι
  nodeAt : Blob → Int → Option ι

variable [DecidableEq ι]

def Appends (view : View Blob ι) (fdt : Blob) (offset : Int) (name : Text) (bytes : List Byte) (next : Blob) :
    Prop :=
  ∃ id, view.nodeAt fdt offset = some id ∧ view.nodeAt next offset = some id ∧
    view.tree next = (view.tree fdt).append id name bytes

/-- The functions work on a blob as on the tree it flattens. -/
structure Behaves (lib : LibFdt Blob) (view : View Blob ι) : Prop where
  path_found : ∀ fdt path, 0 ≤ lib.fdtPathOffset fdt ('/' :: path) →
    ∃ node, (view.tree fdt).lookup ('/' :: path) = some node ∧
      view.nodeAt fdt (lib.fdtPathOffset fdt ('/' :: path)) = some node.id
  path_missing : ∀ fdt path, lib.fdtPathOffset fdt ('/' :: path) = -fdtErrNotfound →
    (view.tree fdt).lookup ('/' :: path) = none
  get_phandle : ∀ fdt offset, ∀ node ∈ (view.tree fdt).nodes, view.nodeAt fdt offset = some node.id →
    lib.fdtGetPhandle fdt offset = node.phandle.getD 0#32
  /-- the greatest phandle, or all ones for an error -/
  max_phandle : ∀ fdt, lib.fdtGetMaxPhandle fdt ≠ BitVec.allOnes 32 →
    lib.fdtGetMaxPhandle fdt = maxPhandle (view.tree fdt).phandles
  add_subnode : ∀ fdt offset name, 0 ≤ (lib.fdtAddSubnode fdt offset name).2 →
    ∃ parent id, view.nodeAt fdt offset = some parent ∧ (view.tree fdt).child parent name = none ∧
      Inserts (view.tree fdt) (view.tree (lib.fdtAddSubnode fdt offset name).1)
        ⟨id, some parent, name, fun _ => none⟩ ∧
      view.nodeAt (lib.fdtAddSubnode fdt offset name).1 (lib.fdtAddSubnode fdt offset name).2 = some id
  append_code : ∀ fdt offset name bytes, (lib.fdtAppendprop fdt offset name bytes).2 ≤ 0
  append : ∀ fdt offset name bytes, (lib.fdtAppendprop fdt offset name bytes).2 = 0 →
    Appends view fdt offset name bytes (lib.fdtAppendprop fdt offset name bytes).1
  append_uint_code : ∀ fdt offset name val cells, (lib.fdtAppendpropUint fdt offset name val cells).2 ≤ 0
  append_uint : ∀ fdt offset name val cells, (lib.fdtAppendpropUint fdt offset name val cells).2 = 0 →
    ∃ bytes, Appends view fdt offset name bytes (lib.fdtAppendpropUint fdt offset name val cells).1
  /-- a memory node below the root, without a phandle -/
  memory_node : ∀ fdt base size, (lib.fdtGenerateMemoryNode fdt base size).2 = 0 →
    ∃ node, Inserts (view.tree fdt) (view.tree (lib.fdtGenerateMemoryNode fdt base size).1) node ∧
      node.parent ≠ none ∧ "memory@".toList <+: node.name ∧ node.phandle = none

end Virtioso.Fdt
