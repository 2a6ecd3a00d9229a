import Mathlib.Data.Finset.Basic
import Mathlib.Data.List.Find
import Mathlib.Data.List.Nodup
import Virtioso.Foundation.Runs
import Virtioso.Vmm.Registration

/-! The IRQ registry with its records in memory.

The list links the addresses of records. `irq_res_free` passes `list_remove` the address
of its local pointer instead of the pointer, so that the comparator takes what lies
behind that pointer on the stack for a record. The record that was found is freed
whatever was unlinked.
-/

set_option autoImplicit false

namespace Virtioso.Vmm

open Foundation Irq

/-- The data pointers in `irqs`, the memory records live in, and which of it is allocated. -/
structure IrqRegistry (Addr Proxy : Type) where
  irqs : List Addr
  memory : Addr → IrqLine Proxy
  allocated : Finset Addr

/-- What external functions do during one `irq_res_assign`: the address `calloc` returns,
whether `vm_register_irq` succeeds, and the return code of `list_append`. -/
structure IrqExternal (Addr : Type) where
  calloc : Option Addr
  registers : Bool
  appended : Int

variable {Addr Proxy : Type} [DecidableEq Addr] [DecidableEq Proxy]

/-- `irq_res_init`, before any record exists. -/
def IrqRegistry.initial (memory : Addr → IrqLine Proxy) : IrqRegistry Addr Proxy := ⟨[], memory, ∅⟩

/-- `irq_res_find`, with the pointer it returns. -/
def IrqRegistry.find (s : IrqRegistry Addr Proxy) (ioProxy : Proxy) (irq : BitVec 32) : Option Addr :=
  listItem s.irqs (⟨irq, ioProxy⟩ : IrqLine Proxy) fun data key => irqLineCmp (s.memory data) key

/-- `irq_res_assign`. A record that is not used is freed again. -/
def IrqRegistry.assign (ext : IrqExternal Addr) (s : IrqRegistry Addr Proxy) (ioProxy : Proxy) (irq : BitVec 32) :
    IrqRegistry Addr Proxy × Int :=
  match ext.calloc with
  | none => (s, -1)
  | some irqLine =>
      let s := { s with memory := Function.update s.memory irqLine ⟨irq, ioProxy⟩ }
      if !ext.registers then (s, -1)
      else
        let (irqs, err) := listAppend ext.appended s.irqs irqLine
        if err ≠ 0 then ({ s with irqs }, err)
        else ({ s with irqs, allocated := insert irqLine s.allocated }, err)

/-- `irq_res_free`. `stack` is the record the comparator reads at `&res`; `left` is what the
freed memory holds afterwards. The return code of `list_remove` is only logged. -/
def IrqRegistry.free (stack left : IrqLine Proxy) (s : IrqRegistry Addr Proxy) (ioProxy : Proxy) (irq : BitVec 32) :
    IrqRegistry Addr Proxy × Int :=
  match s.find ioProxy irq with
  | none => (s, -1)
  | some res =>
      let (irqs, _) := listRemove s.irqs stack fun data key => irqLineCmp (s.memory data) key
      (⟨irqs, Function.update s.memory res left, s.allocated.erase res⟩, 0)

inductive IrqCall (Addr Proxy : Type) where
  | assign (ext : IrqExternal Addr) (ioProxy : Proxy) (irq : BitVec 32)
  | free (stack left : IrqLine Proxy) (ioProxy : Proxy) (irq : BitVec 32)

def IrqRegistry.perform (s : IrqRegistry Addr Proxy) : IrqCall Addr Proxy → IrqRegistry Addr Proxy × Int
  | .assign ext ioProxy irq => s.assign ext ioProxy irq
  | .free stack left ioProxy irq => s.free stack left ioProxy irq

def IrqRegistry.after (s : IrqRegistry Addr Proxy) (call : IrqCall Addr Proxy) : IrqRegistry Addr Proxy :=
  (s.perform call).1

/-- Memory that `calloc` returns is not allocated yet. -/
def NewMemory (s : IrqRegistry Addr Proxy) : IrqCall Addr Proxy → Prop
  | .assign ext _ _ => ∀ address ∈ ext.calloc, address ∉ s.allocated
  | .free _ _ _ _ => True

instance (s : IrqRegistry Addr Proxy) : (call : IrqCall Addr Proxy) → Decidable (NewMemory s call)
  | .assign _ _ _ => inferInstanceAs (Decidable (∀ _ ∈ _, _))
  | .free _ _ _ _ => .isTrue trivial

/-- What a successful `irq_res_free` has to do: the record is gone from the list, is not
found any more, and all others are. -/
structure Removed (s t : IrqRegistry Addr Proxy) (ioProxy : Proxy) (irq : BitVec 32) : Prop where
  unlinked : ∀ res, s.find ioProxy irq = some res → res ∉ t.irqs
  missing : t.find ioProxy irq = none
  others : ∀ other number, (other, number) ≠ (ioProxy, irq) → t.find other number = s.find other number

/-- No freed record is linked after the call, and a successful free removes its record. -/
structure RemovesOwn (s : IrqRegistry Addr Proxy) (call : IrqCall Addr Proxy) : Prop where
  linked : ∀ address ∈ (s.after call).irqs, address ∈ (s.after call).allocated
  removed : ∀ stack left ioProxy irq, call = .free stack left ioProxy irq → (s.perform call).2 = 0 →
    Removed s (s.after call) ioProxy irq

/-- What a free that finds a record reads at `&res` is the interrupt and the io_proxy of the
call, and the pair has one record only. -/
def KeyOnStack (s : IrqRegistry Addr Proxy) : IrqCall Addr Proxy → Prop
  | .assign _ _ _ => True
  | .free stack _ ioProxy irq => ∀ res ∈ s.irqs, s.memory res = ⟨irq, ioProxy⟩ →
      stack = ⟨irq, ioProxy⟩ ∧ ∀ other ∈ s.irqs, s.memory other = ⟨irq, ioProxy⟩ → other = res

instance (s : IrqRegistry Addr Proxy) : (call : IrqCall Addr Proxy) → Decidable (KeyOnStack s call)
  | .assign _ _ _ => .isTrue trivial
  | .free _ _ _ _ => inferInstanceAs (Decidable (∀ _ ∈ _, _))

structure Kempt (s : IrqRegistry Addr Proxy) : Prop where
  distinct : s.irqs.Nodup
  linked : ∀ address ∈ s.irqs, address ∈ s.allocated

section Registry
variable {s : IrqRegistry Addr Proxy} {ioProxy : Proxy} {irq : BitVec 32} {res : Addr}

omit [DecidableEq Addr] in
theorem find_none : s.find ioProxy irq = none ↔ ∀ address ∈ s.irqs, s.memory address ≠ ⟨irq, ioProxy⟩ := by
  simp [IrqRegistry.find, listItem, irqLineCmp_eq_false]

omit [DecidableEq Addr] in
theorem find_some (found : s.find ioProxy irq = some res) : res ∈ s.irqs ∧ s.memory res = ⟨irq, ioProxy⟩ :=
  ⟨List.mem_of_find?_eq_some found, irqLineCmp_eq_false.mp (by simpa using List.find?_some found)⟩

end Registry

/-! ### Assignment -/

section Assign
variable {s : IrqRegistry Addr Proxy} {ext : IrqExternal Addr} {ioProxy : Proxy} {irq : BitVec 32}

omit [DecidableEq Proxy] in
/-- An assignment links and allocates the record it got, or leaves both as they were. -/
theorem assign_cases (new : NewMemory s (.assign ext ioProxy irq)) :
    ((s.assign ext ioProxy irq).1.irqs = s.irqs ∧ (s.assign ext ioProxy irq).1.allocated = s.allocated) ∨
      ∃ address, address ∉ s.allocated ∧ (s.assign ext ioProxy irq).1.irqs = s.irqs ++ [address] ∧
        (s.assign ext ioProxy irq).1.allocated = insert address s.allocated := by
  cases calloc : ext.calloc with
  | none =>
    left
    simp [IrqRegistry.assign, calloc]
  | some address =>
    by_cases used : ext.registers = true ∧ ext.appended = 0
    · right
      refine ⟨address, new address calloc, ?_, ?_⟩
      · simp [IrqRegistry.assign, calloc, used, listAppend]
      · simp [IrqRegistry.assign, calloc, used, listAppend]
    · left
      cases registers : ext.registers with
      | false => simp [IrqRegistry.assign, calloc, registers]
      | true =>
        have failed : ext.appended ≠ 0 := fun appended => used ⟨registers, appended⟩
        simp [IrqRegistry.assign, calloc, registers, listAppend, failed]

omit [DecidableEq Proxy] in
theorem Kempt.assign (kempt : Kempt s) (new : NewMemory s (.assign ext ioProxy irq)) :
    Kempt (s.assign ext ioProxy irq).1 := by
  rcases assign_cases new with ⟨irqs, allocated⟩ | ⟨address, unused, irqs, allocated⟩
  · exact ⟨irqs ▸ kempt.distinct, by rw [irqs, allocated]; exact kempt.linked⟩
  · constructor
    · rw [irqs]
      refine kempt.distinct.append (List.nodup_singleton _) ?_
      rw [List.disjoint_singleton]
      exact fun linked => unused (kempt.linked address linked)
    · rw [irqs, allocated]
      intro other inside
      rcases List.mem_append.mp inside with old | new
      · exact Finset.mem_insert_of_mem (kempt.linked other old)
      · rw [List.mem_singleton.mp new]
        exact Finset.mem_insert_self ..

end Assign

/-! ### Freeing -/

section Free
variable {s : IrqRegistry Addr Proxy} {stack left : IrqLine Proxy} {ioProxy : Proxy} {irq : BitVec 32} {res : Addr}

theorem free_missing_record (missing : s.find ioProxy irq = none) : s.free stack left ioProxy irq = (s, -1) := by
  rw [IrqRegistry.free, missing]

theorem free_found (found : s.find ioProxy irq = some res) : s.free stack left ioProxy irq =
    (⟨(listRemove s.irqs stack fun data key => irqLineCmp (s.memory data) key).1,
      Function.update s.memory res left, s.allocated.erase res⟩, 0) := by
  rw [IrqRegistry.free, found]

/-- What remains linked does not include the freed record only if that was unlinked, and then
the comparator has read its key. -/
theorem unlinked_key {irqs : List Addr} (inside : res ∈ s.irqs) (gone : res ∉ irqs)
    (removed : (listRemove s.irqs stack fun data key => irqLineCmp (s.memory data) key).1 = irqs) :
    s.memory res = stack ∧ ∀ other ∈ s.irqs, other ≠ res → other ∈ irqs := by
  rcases listRemove_cases s.irqs stack fun data key => irqLineCmp (s.memory data) key with
    same | ⟨item, before, after, shape, rest, key⟩
  · rw [same] at removed
    rw [removed] at inside
    exact absurd inside gone
  · rw [removed] at rest
    have around : ∀ other ∈ s.irqs, other ≠ item → other ∈ irqs := by
      intro other linked differs
      rw [shape] at linked
      rw [rest]
      simpa [differs] using linked
    have own : item = res := by
      by_contra differs
      exact gone (around res inside fun same => differs same.symm)
    subst own
    exact ⟨irqLineCmp_eq_false.mp key, around⟩

theorem free_own (found : s.find ioProxy irq = some res) (left : IrqLine Proxy) :
    ∃ before after, s.irqs = before ++ res :: after ∧
      s.free ⟨irq, ioProxy⟩ left ioProxy irq =
        (⟨before ++ after, Function.update s.memory res left, s.allocated.erase res⟩, 0) := by
  obtain ⟨before, after, shape, removed, _⟩ := listItem_split found
  refine ⟨before, after, shape, ?_⟩
  rw [free_found found, removed]

theorem find_after_free (found : s.find ioProxy irq = some res) {before after : List Addr}
    (shape : s.irqs = before ++ res :: after) (once : res ∉ before ++ after) {other : Proxy} {number : BitVec 32}
    (apart : (other, number) ≠ (ioProxy, irq)) :
    IrqRegistry.find ⟨before ++ after, Function.update s.memory res left, s.allocated.erase res⟩ other number =
      s.find other number := by
  have away : irqLineCmp (s.memory res) ⟨number, other⟩ = true := by
    rw [← Bool.not_eq_false, irqLineCmp_eq_false, (find_some found).2]
    intro same
    cases same
    exact apart rfl
  have searched : s.find other number =
      (before ++ after).find? fun data => !irqLineCmp (s.memory data) ⟨number, other⟩ := by
    rw [IrqRegistry.find, listItem, shape, List.find?_append, List.find?_append,
      List.find?_cons_of_neg (by simp [away])]
  rw [searched]
  refine List.find?_congr fun address inside => ?_
  have unchanged : Function.update s.memory res left address = s.memory address :=
    Function.update_of_ne (ne_of_mem_of_not_mem inside once) ..
  exact congrArg (fun record => !irqLineCmp record ⟨number, other⟩) unchanged

theorem removes_own_of_key (kempt : Kempt s) (found : s.find ioProxy irq = some res)
    (single : ∀ other ∈ s.irqs, s.memory other = ⟨irq, ioProxy⟩ → other = res) :
    RemovesOwn s (.free ⟨irq, ioProxy⟩ left ioProxy irq) ∧ Kempt (s.after (.free ⟨irq, ioProxy⟩ left ioProxy irq)) := by
  obtain ⟨before, after, shape, freed⟩ := free_own found left
  have state : s.after (.free ⟨irq, ioProxy⟩ left ioProxy irq) =
      ⟨before ++ after, Function.update s.memory res left, s.allocated.erase res⟩ := congrArg Prod.fst freed
  have distinct := kempt.distinct
  rw [shape, List.nodup_middle, List.nodup_cons] at distinct
  -- what stays linked was linked before, and is not the record that is freed
  have member : ∀ other, other ∈ before ++ after → other ∈ s.irqs ∧ other ≠ res := by
    intro other inside
    refine ⟨?_, fun same => distinct.1 (same ▸ inside)⟩
    rw [shape, List.mem_append, List.mem_cons]
    rcases List.mem_append.mp inside with early | late
    · exact .inl early
    · exact .inr (.inr late)
  have linked : ∀ address ∈ before ++ after, address ∈ s.allocated.erase res := fun address inside =>
    Finset.mem_erase.mpr ⟨(member address inside).2, kempt.linked address (member address inside).1⟩
  refine ⟨⟨by rw [state]; exact linked, ?_⟩, by rw [state]; exact ⟨distinct.2, linked⟩⟩
  intro stack' left' ioProxy' irq' same _
  cases same
  rw [state]
  refine ⟨fun other again => ?_, ?_, fun other number apart => find_after_free found shape distinct.1 apart⟩
  · cases found.symm.trans again
    exact distinct.1
  · rw [find_none]
    intro other inside same
    obtain ⟨old, differs⟩ := member other inside
    -- a second record of the pair would have been the one that was found
    have unchanged : Function.update s.memory res left other = s.memory other := Function.update_of_ne differs ..
    exact differs (single other old (unchanged.symm.trans same))

theorem key_of_removes_own (found : s.find ioProxy irq = some res)
    (removes : RemovesOwn s (.free stack left ioProxy irq)) :
    stack = ⟨irq, ioProxy⟩ ∧ ∀ other ∈ s.irqs, s.memory other = ⟨irq, ioProxy⟩ → other = res := by
  obtain ⟨inside, key⟩ := find_some found
  have performed : s.perform (.free stack left ioProxy irq) = _ := free_found found
  have state := congrArg Prod.fst performed
  have removed := removes.removed stack left ioProxy irq rfl (congrArg Prod.snd performed)
  have gone := removed.unlinked res found
  have irqs : (listRemove s.irqs stack fun data key => irqLineCmp (s.memory data) key).1 =
      (s.after (.free stack left ioProxy irq)).irqs := (congrArg IrqRegistry.irqs state).symm
  obtain ⟨same, others⟩ := unlinked_key inside gone irqs
  refine ⟨same.symm.trans key, fun other linked equal => ?_⟩
  by_contra differs
  have missing := find_none.mp removed.missing other (others other linked differs)
  have memory : (s.after (.free stack left ioProxy irq)).memory other = s.memory other := by
    rw [IrqRegistry.after, performed]
    exact Function.update_of_ne differs ..
  exact missing (memory.trans equal)

end Free

/-! ### Runs -/

section Runs
variable {s : IrqRegistry Addr Proxy} {call : IrqCall Addr Proxy}

theorem removes_own_unfound {stack left : IrqLine Proxy} {ioProxy : Proxy} {irq : BitVec 32} (kempt : Kempt s)
    (missing : s.find ioProxy irq = none) : RemovesOwn s (.free stack left ioProxy irq) ∧
      s.after (.free stack left ioProxy irq) = s := by
  have performed : s.perform (.free stack left ioProxy irq) = (s, -1) := free_missing_record missing
  have state : s.after (.free stack left ioProxy irq) = s := congrArg Prod.fst performed
  refine ⟨⟨by rw [state]; exact kempt.linked, ?_⟩, state⟩
  intro stack' left' ioProxy' irq' same succeeds
  cases same
  rw [performed] at succeeds
  cases succeeds

theorem removes_own_iff (kempt : Kempt s) (new : NewMemory s call) : RemovesOwn s call ↔ KeyOnStack s call := by
  cases call with
  | assign ext ioProxy irq =>
    exact ⟨fun _ => trivial, fun _ => ⟨(kempt.assign new).linked, fun _ _ _ _ same => by cases same⟩⟩
  | free stack left ioProxy irq =>
    cases found : s.find ioProxy irq with
    | none =>
      exact ⟨fun _ res inside key => absurd key (find_none.mp found res inside),
        fun _ => (removes_own_unfound kempt found).1⟩
    | some res =>
      obtain ⟨inside, key⟩ := find_some found
      constructor
      · intro removes
        obtain ⟨same, single⟩ := key_of_removes_own found removes
        refine fun other linked equal => ⟨same, fun another linked' equal' => ?_⟩
        rw [single other linked equal, single another linked' equal']
      · intro onStack
        obtain ⟨rfl, single⟩ := onStack res inside key
        exact (removes_own_of_key kempt found single).1

theorem Kempt.after (kempt : Kempt s) (new : NewMemory s call) (onStack : KeyOnStack s call) : Kempt (s.after call) := by
  cases call with
  | assign ext ioProxy irq => exact kempt.assign new
  | free stack left ioProxy irq =>
    cases found : s.find ioProxy irq with
    | none =>
      rw [(removes_own_unfound kempt found).2]
      exact kempt
    | some res =>
      obtain ⟨inside, key⟩ := find_some found
      obtain ⟨rfl, single⟩ := onStack res inside key
      exact (removes_own_of_key kempt found single).2

end Runs

omit [DecidableEq Addr] [DecidableEq Proxy] in
theorem kempt_initial (memory : Addr → IrqLine Proxy) : Kempt (.initial memory) :=
  ⟨List.nodup_nil, fun _ inside => by cases inside⟩

/-- Every free of a run removes exactly its record, and no freed record stays linked, if and only
if every free that finds a record finds the only one of its pair, and the comparator reads
the key of that pair behind the local pointer. -/
theorem irq_free_removes_iff (memory : Addr → IrqLine Proxy) (calls : List (IrqCall Addr Proxy))
    (new : Along IrqRegistry.after NewMemory (.initial memory) calls) :
    Along IrqRegistry.after RemovesOwn (.initial memory) calls ↔
      Along IrqRegistry.after KeyOnStack (.initial memory) calls :=
  along_iff (I := Kempt) (fun _ _ kempt new => removes_own_iff kempt new)
    (fun _ _ kempt new onStack => kempt.after new onStack) (kempt_initial memory) new

def freedOwn : List (IrqCall Nat Bool) :=
  [.assign ⟨some 1, true, 0⟩ true 40#32, .assign ⟨some 2, true, 0⟩ false 41#32,
    .free ⟨40#32, true⟩ ⟨0#32, false⟩ true 40#32, .free ⟨0#32, false⟩ ⟨0#32, false⟩ true 40#32,
    .assign ⟨some 1, true, 0⟩ true 40#32]

theorem irq_free_removes_own : Along IrqRegistry.after RemovesOwn (.initial fun _ => ⟨0#32, false⟩) freedOwn :=
  (irq_free_removes_iff _ freedOwn (by decide)).mpr (by decide)

def freedLinked : List (IrqCall Nat Bool) :=
  [.assign ⟨some 1, true, 0⟩ true 40#32, .free ⟨0#32, false⟩ ⟨0#32, false⟩ true 40#32]

/-- The record is freed and stays in the list. -/
theorem irq_free_leaves_dangling : ¬∀ calls : List (IrqCall Nat Bool),
    Along IrqRegistry.after NewMemory (.initial fun _ => ⟨0#32, false⟩) calls →
      Along IrqRegistry.after RemovesOwn (.initial fun _ => ⟨0#32, false⟩) calls := by
  intro always
  obtain ⟨_, removes, _⟩ := always freedLinked (by decide)
  have linked := removes.linked 1 (by decide)
  revert linked
  decide

end Virtioso.Vmm
