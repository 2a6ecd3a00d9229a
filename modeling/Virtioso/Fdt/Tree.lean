import Mathlib.Data.List.Nodup
import Mathlib.Data.List.Perm.Basic
import Mathlib.Data.List.TakeWhile
import Mathlib.Logic.Function.Basic
import Virtioso.Foundation.Digits

/-! Device trees: named nodes with properties, paths, and phandles.

The nodes stand in document order, each with the node above it. A tree grows by one
node at a time; what a path leads to changes only if it runs through the new node.
-/

set_option autoImplicit false

namespace Virtioso.Fdt

open Foundation

/-- A string without its terminating NUL. -/
abbrev Text := List Char

structure TreeNode (ι : Type) where
  id : ι
  /-- none for the root -/
  parent : Option ι
  name : Text
  props : Text → Option (List Byte)

structure Tree (ι : Type) where
  nodes : List (TreeNode ι)
  distinct : (nodes.map TreeNode.id).Nodup

variable {ι : Type}

/-! ### Properties -/

def TreeNode.append (node : TreeNode ι) (name : Text) (bytes : List Byte) : TreeNode ι :=
  { node with props := Function.update node.props name (some ((node.props name).getD [] ++ bytes)) }

@[simp] theorem append_id (node : TreeNode ι) (name : Text) (bytes : List Byte) :
    (node.append name bytes).id = node.id := rfl

theorem append_self (node : TreeNode ι) {name : Text} (absent : node.props name = none) (bytes : List Byte) :
    (node.append name bytes).props name = some bytes := by
  simp [TreeNode.append, absent]

theorem append_other (node : TreeNode ι) {name other : Text} (ne : other ≠ name) (bytes : List Byte) :
    (node.append name bytes).props other = node.props other := Function.update_of_ne ne ..

/-- The names under which a node can have its phandle. -/
def phandleProps : List Text := ["phandle".toList, "linux,phandle".toList]

def TreeNode.phandle (node : TreeNode ι) : Option (BitVec 32) :=
  phandleProps.findSome? fun name => (node.props name).bind readCell

theorem append_phandle (node : TreeNode ι) {name : Text} (other : name ∉ phandleProps) (bytes : List Byte) :
    (node.append name bytes).phandle = node.phandle := by
  have search : ∀ names : List Text, (∀ p ∈ names, p ≠ name) →
      (names.findSome? fun p => ((node.append name bytes).props p).bind readCell) =
        names.findSome? fun p => (node.props p).bind readCell := by
    intro names apart
    induction names with
    | nil => rfl
    | cons p rest ih =>
      rw [List.findSome?_cons, List.findSome?_cons, append_other node (apart p (List.mem_cons_self ..)),
        ih fun q mem => apart q (List.mem_cons_of_mem _ mem)]
  apply search
  rintro p mem rfl
  exact other mem

theorem append_new_phandle (node : TreeNode ι) (absent : node.props "phandle".toList = none) (p : BitVec 32) :
    (node.append "phandle".toList (cellBytes p)).phandle = some p := by
  rw [TreeNode.phandle, phandleProps, List.findSome?_cons, append_self node absent]
  simp

/-! ### Paths -/

/-- A path component is the name of a node, or all of it up to the unit address. -/
def nameMatches (component name : Text) : Bool :=
  name == component || (!component.contains '@' && (component ++ ['@']).isPrefixOf name)

theorem nameMatches_self (name : Text) : nameMatches name name = true := by
  simp [nameMatches]

theorem nameMatches_address {component : Text} (address : '@' ∈ component) (name : Text) :
    nameMatches component name = decide (name = component) := by
  rw [Bool.eq_iff_iff]
  simp [nameMatches, address]

def baseName (name : Text) : Text := name.takeWhile (· != '@')

theorem ne_at {stem : Text} (plain : '@' ∉ stem) : ∀ c ∈ stem, (c != '@') = true := by
  intro c mem
  apply bne_iff_ne.mpr
  rintro rfl
  exact plain mem

theorem baseName_address {stem : Text} (plain : '@' ∉ stem) (address : Text) :
    baseName (stem ++ '@' :: address) = stem := by
  rw [baseName, List.takeWhile_append_of_pos (ne_at plain), List.takeWhile_cons_of_neg (by decide), List.append_nil]

theorem nameMatches_other {component name : Text} (plain : '@' ∉ component)
    (other : baseName name ≠ component) : nameMatches component name = false := by
  apply eq_false_of_ne_true
  intro stands
  apply other
  rw [nameMatches, Bool.or_eq_true, Bool.and_eq_true] at stands
  rcases stands with same | ⟨-, starts⟩
  · obtain rfl := eq_of_beq same
    exact List.takeWhile_eq_self_iff.mpr (ne_at plain)
  · obtain ⟨rest, rfl⟩ := List.isPrefixOf_iff_prefix.mp starts
    rw [List.append_assoc, List.singleton_append]
    exact baseName_address plain rest

variable [DecidableEq ι]

def Tree.child (t : Tree ι) (parent : ι) (component : Text) : Option (TreeNode ι) :=
  t.nodes.find? fun node => node.parent = some parent ∧ nameMatches component node.name

def Tree.root (t : Tree ι) : Option (TreeNode ι) := t.nodes.find? fun node => node.parent = none

def Tree.descend (t : Tree ι) : TreeNode ι → List Text → Option (TreeNode ι)
  | node, [] => some node
  | node, component :: rest => (t.child node.id component).bind fun below => t.descend below rest

def components (path : Text) : List Text := (path.splitOn '/').filter (!·.isEmpty)

def Tree.lookup (t : Tree ι) (path : Text) : Option (TreeNode ι) :=
  t.root.bind fun root => t.descend root (components path)

theorem components_one {name : Text} (some : name ≠ []) (plain : '/' ∉ name) :
    components ('/' :: name) = [name] := by
  have split : ('/' :: name).splitOn '/' = [[], name] := by
    have text : '/' :: name = [] ++ '/' :: name := rfl
    rw [text, List.splitOn_append_cons_self_of_not_mem (by simp), List.splitOn_eq_singleton plain]
  simp [components, split, some]

theorem components_two {first second : Text} (some : first ≠ [] ∧ second ≠ [])
    (plain : '/' ∉ first ∧ '/' ∉ second) :
    components ('/' :: (first ++ '/' :: second)) = [first, second] := by
  have split : ('/' :: (first ++ '/' :: second)).splitOn '/' = [[], first, second] := by
    have text : '/' :: (first ++ '/' :: second) = [] ++ '/' :: (first ++ '/' :: second) := rfl
    rw [text, List.splitOn_append_cons_self_of_not_mem (by simp),
      List.splitOn_append_cons_self_of_not_mem plain.1, List.splitOn_eq_singleton plain.2]
  rw [components, split]
  simp [some.1, some.2]

theorem child_spec {t : Tree ι} {parent : ι} {component : Text} {node : TreeNode ι}
    (found : t.child parent component = some node) :
    node ∈ t.nodes ∧ node.parent = some parent ∧ nameMatches component node.name = true := by
  have holds := List.find?_some found
  simp only [decide_eq_true_eq] at holds
  exact ⟨List.mem_of_find?_eq_some found, holds⟩

theorem child_none {t : Tree ι} {parent : ι} {component : Text} (none_ : t.child parent component = none)
    {node : TreeNode ι} (mem : node ∈ t.nodes) (below : node.parent = some parent) :
    nameMatches component node.name = false := by
  have fails := List.find?_eq_none.mp none_ node mem
  simpa [below] using fails

theorem descend_mem {t : Tree ι} {path : List Text} {start node : TreeNode ι} (inside : start ∈ t.nodes)
    (found : t.descend start path = some node) : node ∈ t.nodes := by
  induction path generalizing start with
  | nil => exact Option.some.inj found ▸ inside
  | cons component rest ih =>
    obtain ⟨below, child, leads⟩ := Option.bind_eq_some_iff.mp found
    exact ih (child_spec child).1 leads

theorem lookup_mem {t : Tree ι} {path : Text} {node : TreeNode ι} (found : t.lookup path = some node) :
    node ∈ t.nodes := by
  obtain ⟨root, first, leads⟩ := Option.bind_eq_some_iff.mp found
  exact descend_mem (List.mem_of_find?_eq_some first) leads

theorem lookup_two {t : Tree ι} {first second : Text} (some_ : first ≠ [] ∧ second ≠ [])
    (plain : '/' ∉ first ∧ '/' ∉ second) :
    t.lookup ('/' :: (first ++ '/' :: second)) =
      (t.lookup ('/' :: first)).bind fun parent => t.child parent.id second := by
  rw [Tree.lookup, Tree.lookup, components_one some_.1 plain.1, components_two some_ plain]
  cases t.root with
  | none => rfl
  | some root =>
    simp only [Option.bind_some, Tree.descend]
    cases t.child root.id first with
    | none => rfl
    | some below =>
      simp only [Option.bind_some]
      cases t.child below.id second <;> rfl

theorem lookup_below {t : Tree ι} {first second : Text} {node : TreeNode ι}
    (some_ : first ≠ [] ∧ second ≠ []) (plain : '/' ∉ first ∧ '/' ∉ second)
    (found : t.lookup ('/' :: first) = some node) :
    t.lookup ('/' :: (first ++ '/' :: second)) = t.child node.id second := by
  rw [lookup_two some_ plain, found, Option.bind_some]

/-! ### Phandles -/

def Tree.phandles (t : Tree ι) : List (BitVec 32) := t.nodes.filterMap TreeNode.phandle

def Legal (phandles : List (BitVec 32)) : Prop :=
  phandles.Nodup ∧ ∀ p ∈ phandles, p ≠ 0#32 ∧ p ≠ BitVec.allOnes 32

instance (phandles : List (BitVec 32)) : Decidable (Legal phandles) :=
  have : Decidable (∀ p ∈ phandles, p ≠ 0#32 ∧ p ≠ BitVec.allOnes 32) := List.decidableBAll _ phandles
  inferInstanceAs (Decidable (_ ∧ _))

/-- The greatest phandle, 0 if there is none. -/
def maxPhandle : List (BitVec 32) → BitVec 32
  | [] => 0#32
  | p :: rest => if maxPhandle rest < p then p else maxPhandle rest

theorem le_maxPhandle {phandles : List (BitVec 32)} {p : BitVec 32} (mem : p ∈ phandles) :
    p ≤ maxPhandle phandles := by
  induction phandles with
  | nil => cases mem
  | cons q rest ih =>
    unfold maxPhandle
    split
    · next above =>
      rcases List.mem_cons.mp mem with rfl | mem
      · exact BitVec.le_refl p
      · have bound := ih mem
        bv_omega
    · next below =>
      rcases List.mem_cons.mp mem with rfl | mem
      · exact BitVec.not_lt.mp below
      · exact ih mem

theorem Legal.perm {phandles other : List (BitVec 32)} (legal : Legal phandles) (perm : other.Perm phandles) :
    Legal other :=
  ⟨perm.nodup_iff.mpr legal.1, fun p mem => legal.2 p (perm.mem_iff.mp mem)⟩

theorem Legal.cons {phandles : List (BitVec 32)} (legal : Legal phandles) {p : BitVec 32}
    (above : ∀ q ∈ phandles, q < p) (some : p ≠ 0#32) (proper : p ≠ BitVec.allOnes 32) :
    Legal (p :: phandles) := by
  constructor
  · rw [List.nodup_cons]
    exact ⟨fun mem => BitVec.lt_irrefl p (above p mem), legal.1⟩
  · intro q mem
    rcases List.mem_cons.mp mem with rfl | mem
    · exact ⟨some, proper⟩
    · exact legal.2 q mem

/-! ### Growth -/

def Tree.append (t : Tree ι) (id : ι) (name : Text) (bytes : List Byte) : Tree ι where
  nodes := t.nodes.map fun node => if node.id = id then node.append name bytes else node
  distinct := by
    have ids : (t.nodes.map fun node => if node.id = id then node.append name bytes else node).map
        TreeNode.id = t.nodes.map TreeNode.id := by
      rw [List.map_map]
      apply List.map_congr_left
      intro node _
      simp only [Function.comp_apply]
      split
      · exact append_id node name bytes
      · rfl
    rw [ids]
    exact t.distinct

def Inserts (t next : Tree ι) (node : TreeNode ι) : Prop :=
  ∃ before behind, t.nodes = before ++ behind ∧ next.nodes = before ++ node :: behind

section
variable {t next : Tree ι} {node other : TreeNode ι}

omit [DecidableEq ι] in
theorem Inserts.mem (inserts : Inserts t next node) : other ∈ next.nodes ↔ other = node ∨ other ∈ t.nodes := by
  obtain ⟨before, behind, old, new⟩ := inserts
  simp only [old, new, List.mem_append, List.mem_cons]
  tauto

omit [DecidableEq ι] in
theorem Inserts.fresh (inserts : Inserts t next node) (mem : other ∈ t.nodes) : other.id ≠ node.id := by
  obtain ⟨before, behind, old, new⟩ := inserts
  have distinct := next.distinct
  rw [new, List.map_append, List.map_cons, List.nodup_middle, List.nodup_cons, ← List.map_append, ← old]
    at distinct
  intro same
  exact distinct.1 (same ▸ List.mem_map_of_mem mem)

omit [DecidableEq ι] in
theorem Inserts.not_mem (inserts : Inserts t next node) : node ∉ t.nodes :=
  fun mem => inserts.fresh mem rfl

omit [DecidableEq ι] in
theorem Inserts.phandles (inserts : Inserts t next node) :
    next.phandles.Perm (node.phandle.toList ++ t.phandles) := by
  obtain ⟨before, behind, old, new⟩ := inserts
  simp only [Tree.phandles, old, new, List.filterMap_append, List.filterMap_cons]
  cases node.phandle with
  | none => exact List.Perm.refl _
  | some p => exact List.perm_middle

omit [DecidableEq ι] in
theorem Inserts.find (inserts : Inserts t next node) {p : TreeNode ι → Bool} (passes : p node = false) :
    next.nodes.find? p = t.nodes.find? p := by
  obtain ⟨before, behind, old, new⟩ := inserts
  rw [old, new, List.find?_append, List.find?_append, List.find?_cons, passes]

theorem Inserts.child (inserts : Inserts t next node) {parent : ι} {component : Text}
    (passes : nameMatches component node.name = false) : next.child parent component = t.child parent component := by
  apply inserts.find
  simp [passes]

omit [DecidableEq ι] in
theorem Inserts.root (inserts : Inserts t next node) (below : node.parent ≠ none) : next.root = t.root := by
  apply inserts.find
  simpa using below

theorem Inserts.descend (inserts : Inserts t next node) {path : List Text}
    (passes : ∀ component ∈ path, nameMatches component node.name = false) (start : TreeNode ι) :
    next.descend start path = t.descend start path := by
  induction path generalizing start with
  | nil => rfl
  | cons component rest ih =>
    unfold Tree.descend
    rw [inserts.child (passes component (List.mem_cons_self ..))]
    congr 1
    funext below
    exact ih (fun c mem => passes c (List.mem_cons_of_mem _ mem)) below

/-- What a path leads to stays when none of its components stands for the new node. -/
theorem Inserts.lookup (inserts : Inserts t next node) (below : node.parent ≠ none) {path : Text}
    (passes : ∀ component ∈ components path, nameMatches component node.name = false) :
    next.lookup path = t.lookup path := by
  unfold Tree.lookup
  rw [inserts.root below]
  congr 1
  funext root
  exact inserts.descend passes root

theorem Inserts.append (inserts : Inserts t next node) (name : Text) (bytes : List Byte) :
    Inserts t (next.append node.id name bytes) (node.append name bytes) := by
  have fresh : ∀ other ∈ t.nodes, other.id ≠ node.id := fun other mem => inserts.fresh mem
  obtain ⟨before, behind, old, new⟩ := inserts
  refine ⟨before, behind, old, ?_⟩
  have same : ∀ nodes : List (TreeNode ι), (∀ other ∈ nodes, other.id ≠ node.id) →
      (nodes.map fun other => if other.id = node.id then other.append name bytes else other) = nodes := by
    intro nodes apart
    rw [List.map_congr_left (fun other mem => if_neg (apart other mem)), List.map_id']
  rw [old] at fresh
  simp only [Tree.append, new, List.map_append, List.map_cons, if_true]
  rw [same before (fun other mem => fresh other (List.mem_append_left _ mem)),
    same behind (fun other mem => fresh other (List.mem_append_right _ mem))]

end

end Virtioso.Fdt
