import Virtioso.Fdt.LibFdt

/-! The library on trees that are not flattened.

The ids of the nodes are the offsets. The functions fail as libfdt does, except that space
never runs out.
-/

set_option autoImplicit false

namespace Virtioso.Fdt

open Foundation

/-! ### Adding nodes -/

def Tree.ids (t : Tree Nat) : List Nat := t.nodes.map TreeNode.id

def Tree.nextId (t : Tree Nat) : Nat := t.ids.foldr max 0 + 1

theorem nextId_fresh (t : Tree Nat) : t.nextId ∉ t.ids := by
  have bound : ∀ ids : List Nat, ∀ id ∈ ids, id ≤ ids.foldr max 0 := by
    intro ids
    induction ids with
    | nil =>
      intro id mem
      cases mem
    | cons first rest ih =>
      intro id mem
      rw [List.foldr_cons]
      rcases List.mem_cons.mp mem with rfl | mem
      · exact Nat.le_max_left ..
      · exact Nat.le_trans (ih id mem) (Nat.le_max_right ..)
  intro mem
  have below := bound t.ids t.nextId mem
  rw [Tree.nextId] at below
  omega

def Tree.add (t : Tree Nat) (parent : Nat) (name : Text) (props : Text → Option (List Byte)) : Tree Nat where
  nodes := t.nodes ++ [⟨t.nextId, some parent, name, props⟩]
  distinct := by
    rw [List.map_append, List.map_singleton, List.nodup_append]
    refine ⟨t.distinct, List.nodup_singleton _, ?_⟩
    rintro id mem _ last rfl
    obtain rfl := List.mem_singleton.mp last
    exact nextId_fresh t mem

theorem add_inserts (t : Tree Nat) (parent : Nat) (name : Text) (props : Text → Option (List Byte)) :
    Inserts t (t.add parent name props) ⟨t.nextId, some parent, name, props⟩ :=
  ⟨t.nodes, [], (List.append_nil _).symm, rfl⟩

/-! ### The functions -/

def Tree.nodeAt (t : Tree Nat) (offset : Int) : Option Nat := t.ids.find? fun id => (id : Int) = offset

theorem nodeAt_id {t : Tree Nat} {id : Nat} (mem : id ∈ t.ids) : t.nodeAt id = some id := by
  cases found : t.nodeAt id with
  | none =>
    have fails := List.find?_eq_none.mp found id mem
    simp at fails
  | some other =>
    have same := List.find?_some found
    rw [decide_eq_true_eq] at same
    rw [Int.ofNat_inj.mp same]

theorem nodeAt_offset {t : Tree Nat} {offset : Int} {id : Nat} (found : t.nodeAt offset = some id) :
    offset = id ∧ id ∈ t.ids := by
  have same := List.find?_some found
  rw [decide_eq_true_eq] at same
  exact ⟨same.symm, List.mem_of_find?_eq_some found⟩

def Tree.cells (t : Tree Nat) (prop : Text) (default : Int) (offset : Int) : Int :=
  match t.nodes.find? fun node => (node.id : Int) = offset with
  | none => -4
  | some node => (((node.props prop).bind readCell).map fun n => (n.toNat : Int)).getD default

def Tree.appendAt (t : Tree Nat) (offset : Int) (name : Text) (bytes : List Byte) : Tree Nat × Int :=
  match t.nodeAt offset with
  | none => (t, -4)
  | some id => (t.append id name bytes, 0)

def uintBytes (val : BitVec 64) (cells : Int) : Option (List Byte) :=
  if cells = 1 then some (cellBytes (val.setWidth 32))
  else if cells = 2 then some (cellBytes ((val >>> 32).setWidth 32) ++ cellBytes (val.setWidth 32))
  else none

def memoryProps (base size : BitVec 64) (prop : Text) : Option (List Byte) :=
  if prop = "device_type".toList then some ("memory".toList.map (fun c => BitVec.ofNat 8 c.toNat) ++ [0#8])
  else if prop = "reg".toList then
    some ((uintBytes base 2).getD [] ++ (uintBytes size 2).getD [])
  else none

def treeFdt : LibFdt (Tree Nat) where
  fdtPathOffset t path := ((t.lookup path).map fun node => (node.id : Int)).getD (-fdtErrNotfound)
  fdtAddressCells t := t.cells "#address-cells".toList 2
  fdtSizeCells t := t.cells "#size-cells".toList 1
  fdtGetPhandle t offset :=
    ((t.nodes.find? fun node => (node.id : Int) = offset).bind TreeNode.phandle).getD 0#32
  fdtGetMaxPhandle t := maxPhandle t.phandles
  fdtAddSubnode t offset name :=
    match t.nodeAt offset with
    | none => (t, -4)
    | some parent =>
        if (t.child parent name).isSome then (t, -2)
        else (t.add parent name fun _ => none, t.nextId)
  fdtAppendprop t := t.appendAt
  fdtAppendpropUint t offset name val cells :=
    match uintBytes val cells with
    | none => (t, -14)
    | some bytes => t.appendAt offset name bytes
  fdtGenerateMemoryNode t base size :=
    match t.root with
    | none => (t, -1)
    | some root =>
        let name := "memory@".toList ++ Nat.toDigits 16 base.toNat
        if (t.child root.id name).isSome then (t, -2)
        else (t.add root.id name (memoryProps base size), 0)

def treeView : View (Tree Nat) Nat := ⟨id, Tree.nodeAt⟩

theorem appendAt_code (t : Tree Nat) (offset : Int) (name : Text) (bytes : List Byte) :
    (t.appendAt offset name bytes).2 ≤ 0 := by
  unfold Tree.appendAt
  split
  · exact Int.negSucc_le_zero _
  · exact Int.le_refl 0

theorem appendAt_appends {t : Tree Nat} {offset : Int} {name : Text} {bytes : List Byte}
    (done : (t.appendAt offset name bytes).2 = 0) :
    Appends treeView t offset name bytes (t.appendAt offset name bytes).1 := by
  unfold Tree.appendAt at done ⊢
  split at done
  · cases done
  · next id found =>
    have ids : (t.append id name bytes).ids = t.ids := by
      rw [Tree.ids, Tree.append, List.map_map]
      apply List.map_congr_left
      intro node _
      simp only [Function.comp_apply]
      split <;> rfl
    refine ⟨id, found, ?_, rfl⟩
    show (t.append id name bytes).ids.find? _ = some id
    rw [ids]
    exact found

theorem treeFdt_behaves : Behaves treeFdt treeView where
  path_found t path found := by
    cases leads : t.lookup ('/' :: path) with
    | none =>
      simp only [treeFdt, leads] at found
      cases found
    | some node =>
      refine ⟨node, leads, ?_⟩
      simp only [treeFdt, leads]
      exact nodeAt_id (List.mem_map_of_mem (lookup_mem leads))
  path_missing t path missing := by
    cases leads : t.lookup ('/' :: path) with
    | none => exact leads
    | some node =>
      simp only [treeFdt, leads, fdtErrNotfound, Option.map_some, Option.getD_some] at missing
      omega
  get_phandle t offset node mem at_ := by
    obtain ⟨rfl, -⟩ := nodeAt_offset at_
    cases found : t.nodes.find? fun other => (other.id : Int) = (node.id : Int) with
    | none =>
      have fails := List.find?_eq_none.mp found node mem
      simp at fails
    | some other =>
      have same := List.find?_some found
      rw [decide_eq_true_eq] at same
      -- ids are distinct, so the node found is the node asked for
      obtain rfl := List.inj_on_of_nodup_map t.distinct (List.mem_of_find?_eq_some found) mem (Int.ofNat_inj.mp same)
      simp only [treeFdt, found, Option.bind_some]
  max_phandle t _ := rfl
  add_subnode t offset name done := by
    cases found : t.nodeAt offset with
    | none =>
      simp only [treeFdt, found] at done
      cases done
    | some parent =>
      by_cases exists_ : (t.child parent name).isSome
      · simp only [treeFdt, found, exists_, if_true] at done
        cases done
      · simp only [treeFdt, found, exists_, Bool.false_eq_true, if_false]
        -- the new node gets an id above all others
        refine ⟨parent, t.nextId, found, Option.not_isSome_iff_eq_none.mp exists_, add_inserts .., ?_⟩
        apply nodeAt_id
        simp [Tree.ids, Tree.add]
  append_code t := appendAt_code t
  append t _ _ _ done := appendAt_appends done
  append_uint_code t offset name val cells := by
    simp only [treeFdt]
    split
    · exact Int.negSucc_le_zero _
    · exact appendAt_code ..
  append_uint t offset name val cells done := by
    simp only [treeFdt] at done ⊢
    split at done
    · cases done
    · next bytes some => exact ⟨bytes, appendAt_appends done⟩
  memory_node t base size done := by
    cases first : t.root with
    | none =>
      simp only [treeFdt, first] at done
      cases done
    | some root =>
      simp only [treeFdt, first] at done ⊢
      split at done
      · cases done
      · next free =>
        rw [if_neg free]
        exact ⟨_, add_inserts .., Option.some_ne_none _, ⟨_, rfl⟩, rfl⟩

end Virtioso.Fdt
