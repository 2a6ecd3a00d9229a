import Mathlib.Logic.Function.Basic
import Mathlib.Tactic.Common

/-! The table of device tree nodes that are generated when the guest is configured.

The table holds pointers to the registered nodes, `none` for NULL. A node carries a
function that writes it into a tree, and whether that was done.
-/

set_option autoImplicit false

namespace Virtioso.Fdt

/-- `fdt_node_t`. `generate` turns a tree into the tree after the call and the code it
returns; its other argument is the node itself. -/
structure FdtNode (Tree : Type) where
  compatible : Option String
  generated : Bool
  generate : Option (Tree → Tree × Int)

/-- The registered nodes by their pointers, the tree, and the calls of generate functions
with what they returned, oldest first. -/
structure Nodes (P Tree : Type) where
  node : P → FdtNode Tree
  fdt : Tree
  calls : List (P × Int)

variable {P Tree : Type} [DecidableEq P]

/-- `fdt_node_generate`. -/
def fdtNodeGenerate (s : Nodes P Tree) (ptr : P) : Nodes P Tree × Int :=
  match (s.node ptr).generate with
  | none => (s, -1)
  | some generate =>
      if (s.node ptr).generated then (s, 0)
      else
        let (fdt, rc) := generate s.fdt
        let s := { s with fdt, calls := s.calls ++ [(ptr, rc)] }
        if rc > 0 then
          ({ s with node := Function.update s.node ptr { s.node ptr with generated := true } }, rc)
        else (s, rc)

/-- `fdt_node_filter_compatible`, of a node that is not NULL. -/
def fdtNodeFilterCompatible (compatible : Option String) (node : FdtNode Tree) : Int :=
  match compatible with
  | none => -1
  | some compatible => if node.compatible = some compatible then 1 else 0

/-- The loop of `fdt_node_generate_filter` over the entries that are left, with what is in `rc`. -/
def generateLoop (filterFn : Option (FdtNode Tree → Int)) :
    List (Option P) → Nodes P Tree → Int → Nodes P Tree × Int
  | [], s, _ => (s, 0)
  | entry :: rest, s, rc =>
      if rc ≠ 0 then (s, 0)
      else
        match entry with
        | none => generateLoop filterFn rest s rc
        | some ptr =>
            let verdict := filterFn.map fun filter => filter (s.node ptr)
            let rc := verdict.getD rc
            if verdict = some (-1) then (s, -1)
            else if rc = 0 then generateLoop filterFn rest s rc
            else
              let (s, rc) := fdtNodeGenerate s ptr
              if rc < 0 then (s, -1) else generateLoop filterFn rest s rc

/-- `fdt_node_generate_filter`; the table is what lies between the ends of the section. -/
def fdtNodeGenerateFilter (filterFn : Option (FdtNode Tree → Int)) (table : List (Option P))
    (s : Nodes P Tree) : Nodes P Tree × Int :=
  generateLoop filterFn table s 0

/-- `fdt_node_generate_compatibles`. -/
def fdtNodeGenerateCompatibles (compatible : Option String) (table : List (Option P)) (s : Nodes P Tree) :
    Nodes P Tree × Int :=
  fdtNodeGenerateFilter (some (fdtNodeFilterCompatible compatible)) table s

/-- `fdt_node_generate_all`. -/
def fdtNodeGenerateAll (table : List (Option P)) (s : Nodes P Tree) : Nodes P Tree × Int :=
  fdtNodeGenerateFilter none table s

/-- Calls of generate functions since `s`. -/
def callsSince (s t : Nodes P Tree) : List (P × Int) := t.calls.drop s.calls.length

def Equipped (table : List (Option P)) (s : Nodes P Tree) : Prop :=
  ∀ ptr, some ptr ∈ table → (s.node ptr).generate ≠ none

def isDue (compatible : String) (node : FdtNode Tree) : Bool :=
  node.compatible == some compatible && !node.generated

def due (compatible : String) (s : Nodes P Tree) (table : List (Option P)) : List P :=
  (table.filterMap id).filter fun ptr => isDue compatible (s.node ptr)

/-- Each of these nodes with what its generate function returns, on the tree that the ones
before it leave. -/
def attempts (node : P → FdtNode Tree) : List P → Tree → List (P × Int)
  | [], _ => []
  | ptr :: rest, fdt =>
      let (fdt, rc) := match (node ptr).generate with
        | none => (fdt, -1)
        | some generate => generate fdt
      (ptr, rc) :: attempts node rest fdt

/-- Those up to the first that does not return 0. -/
def reached : List (P × Int) → List (P × Int)
  | [] => []
  | call :: rest => if call.2 = 0 then call :: reached rest else [call]

def FailsFirst (calls : List (P × Int)) : Prop :=
  ∃ call, calls.find? (fun call => call.2 ≠ 0) = some call ∧ call.2 < 0

/-- A failure comes first, or no node comes twice up to the first that does not return 0, and
behind it there are only nodes that came before. -/
def AllReached (calls : List (P × Int)) : Prop :=
  FailsFirst calls ∨
    ((reached calls).map Prod.fst).Nodup ∧ ∀ call ∈ calls, call.1 ∈ (reached calls).map Prod.fst

/-- What `fdt_node_generate_compatibles` is for: `result` is what it leaves and returns. -/
structure Complete (compatible : String) (table : List (Option P)) (s : Nodes P Tree)
    (result : Nodes P Tree × Int) : Prop where
  once : result.2 = 0 → ∀ ptr, ((callsSince s result.1).map Prod.fst).count ptr =
    if some ptr ∈ table ∧ isDue compatible (s.node ptr) = true then 1 else 0
  marked : result.2 = 0 → ∀ ptr, (s.node ptr).generated = false ∧ (result.1.node ptr).generated = true ↔
    ∃ rc > 0, (ptr, rc) ∈ callsSince s result.1
  failed : result.2 ≠ 0 → ∃ call ∈ callsSince s result.1, call.2 < 0

/-- What `fdt_node_generate_all` is for. -/
structure CompleteAll (table : List (Option P)) (s : Nodes P Tree) (result : Nodes P Tree × Int) : Prop where
  once : result.2 = 0 → ∀ ptr, some ptr ∈ table → (s.node ptr).generated = false →
    ((callsSince s result.1).map Prod.fst).count ptr = 1
  never : ∀ ptr, (s.node ptr).generated = true → ptr ∉ (callsSince s result.1).map Prod.fst

end Virtioso.Fdt
