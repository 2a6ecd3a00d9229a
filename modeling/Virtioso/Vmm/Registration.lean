import Mathlib.Data.List.Nodup
import Virtioso.Foundation.Runs
import Virtioso.Vmm.EmulatedDevice

/-! Interrupts of emulated devices, registered with the first message that names them.

A record is found by its io_proxy and its interrupt together. A message either uses
the record of its own pair, or registers it, or fails and leaves the registry as it was.
-/

set_option autoImplicit false

namespace Virtioso.Vmm

open Foundation Irq

variable {Proxy Handle : Type} [DecidableEq Proxy] [DecidableEq Handle]

/-- A `QEMU_OP_SET_IRQ` message for an emulated device, and what external functions do
while it is handled. -/
structure IrqMessage (Proxy Handle : Type) where
  ext : VmmExternal Handle
  ioProxy : Proxy
  msg : Ring.Msg
  emulated : irqIsEmulatedDevice (msg.mr1.setWidth 32) = true

def IrqMessage.irq (m : IrqMessage Proxy Handle) : BitVec 32 := m.msg.mr1.setWidth 32

def IrqMessage.op (m : IrqMessage Proxy Handle) : BitVec 32 := m.msg.mr2.setWidth 32

def IrqMessage.line (m : IrqMessage Proxy Handle) : IrqLine Proxy := ⟨m.irq, m.ioProxy⟩

/-- The emulated devices, the interrupts registered with the VM, and the pairs of a message
whose `vm_register_irq` succeeded, the latest first. -/
structure Lines (Proxy Handle : Type) where
  emudev : EmuDev Proxy Handle
  registered : Registered
  made : List (Proxy × BitVec 32)

/-- After `emudev_init`, whatever was there before. -/
def Lines.initial (emudev : EmuDev Proxy Handle) (registered : Registered) : Lines Proxy Handle :=
  ⟨{ emudev with irqs := [], mmio := emudev.mmio.init }, registered, []⟩

def Lines.perform (s : Lines Proxy Handle) (m : IrqMessage Proxy Handle) :
    EmuDev Proxy Handle × Registered × Rc :=
  handleEmudev m.ext s.emudev s.registered m.ioProxy qemuOpSetIrq m.msg

def Lines.after (s : Lines Proxy Handle) (m : IrqMessage Proxy Handle) : Lines Proxy Handle where
  emudev := (s.perform m).1
  registered := (s.perform m).2.1
  made := if (s.perform m).2.1 = s.registered then s.made else (m.ioProxy, m.irq) :: s.made

def opLevels (op : BitVec 32) : Option (List Bool) :=
  if op = rpcIrqSet then some [true]
  else if op = rpcIrqClr then some [false]
  else if op = rpcIrqPulse then some [true, false]
  else none

/-- The pair of the message has no record, and the message did not get one. -/
def RegistrationFails (s : Lines Proxy Handle) (m : IrqMessage Proxy Handle) : Prop :=
  irqResFind s.emudev.irqs m.ioProxy m.irq = none ∧
    (emudevIrqRegister m.ext s.emudev.irqs s.registered m.ioProxy m.irq).2.2 = none

/-- The next message for the pair registers it, if it gets memory and the VM accepts it. -/
def TriedAgain (s : Lines Proxy Handle) (m : IrqMessage Proxy Handle) : Prop :=
  ∀ next : IrqMessage Proxy Handle, next.line = m.line → next.ext.allocated = true →
    next.ext.registers s.registered next.irq = true → (s.after next).registered = next.irq :: s.registered

structure HitsOwnLine (s : Lines Proxy Handle) (m : IrqMessage Proxy Handle) : Prop where
  distinct : (s.after m).emudev.irqs.Nodup
  failed : RegistrationFails s m →
    (s.after m).emudev.irqs = s.emudev.irqs ∧ (s.perform m).2.2 = .error ∧ TriedAgain (s.after m) m
  own : (s.after m).emudev.driven = s.emudev.driven ∨ m.line ∈ (s.after m).emudev.irqs ∧
    (s.after m).emudev.driven = (emudevIrqOp m.ext.pci.accepts s.emudev.driven m.line m.op).1
  accepted : (s.perform m).2.2 = .handled → m.line ∈ (s.after m).emudev.irqs ∧
    ∃ levels, opLevels m.op = some levels ∧
      (s.after m).emudev.driven = levels.reverse.map (fun level => (m.irq, level)) ++ s.emudev.driven

section Registry
variable {ioProxy : Proxy} {irq : BitVec 32} {irqLine : IrqLine Proxy}

omit [DecidableEq Proxy] [DecidableEq Handle] in
theorem emudevIrqOp_succeeds {accepts : Bool → Bool} {driven : Driven} {op : BitVec 32}
    (succeeds : (emudevIrqOp accepts driven irqLine op).2 = 0) :
    ∃ levels, opLevels op = some levels ∧ (emudevIrqOp accepts driven irqLine op).1 =
      levels.reverse.map (fun level => (irqLine.irq, level)) ++ driven := by
  have drives : ∀ (driven : Driven) (level : Bool), (vmSetIrqLevel accepts driven irqLine.irq level).2 = 0 →
      vmSetIrqLevel accepts driven irqLine.irq level = ((irqLine.irq, level) :: driven, 0) := by
    intro driven level accepted
    unfold vmSetIrqLevel at accepted ⊢
    split at accepted
    · next ok => rw [if_pos ok]
    · cases accepted
  unfold emudevIrqOp at succeeds ⊢
  unfold opLevels
  split
  · next set =>
    rw [if_pos set] at succeeds
    exact ⟨[true], rfl, congrArg Prod.fst (drives driven true succeeds)⟩
  · next notSet =>
    rw [if_neg notSet] at succeeds
    split
    · next clr =>
      rw [if_pos clr] at succeeds
      exact ⟨[false], rfl, congrArg Prod.fst (drives driven false succeeds)⟩
    · next notClr =>
      rw [if_neg notClr] at succeeds
      split
      · next pulse =>
        rw [if_pos pulse] at succeeds
        unfold irqLinePulse at succeeds ⊢
        -- the second level is driven only if the first one was
        by_cases first : (vmSetIrqLevel accepts driven irqLine.irq true).2 = 0
        · simp only [drives driven true first, ne_eq, not_true_eq_false, if_false] at succeeds ⊢
          exact ⟨[true, false], rfl, congrArg Prod.fst (drives _ false succeeds)⟩
        · simp only [ne_eq, first, not_false_eq_true, if_true] at succeeds
      · next unknown =>
        rw [if_neg unknown] at succeeds
        cases succeeds

end Registry

section Drives
variable {irq : BitVec 32}

def Drives (irq : BitVec 32) (before after : Driven) : Prop :=
  ∃ drives, after = drives ++ before ∧ ∀ call ∈ drives, call.1 = irq

theorem Drives.refl (irq : BitVec 32) (driven : Driven) : Drives irq driven driven :=
  ⟨[], rfl, fun _ member => absurd member List.not_mem_nil⟩

theorem Drives.trans {a b c : Driven} (first : Drives irq a b) (next : Drives irq b c) : Drives irq a c := by
  obtain ⟨early, rfl, own⟩ := first
  obtain ⟨late, rfl, own'⟩ := next
  refine ⟨late ++ early, (List.append_assoc ..).symm, fun call member => ?_⟩
  exact (List.mem_append.mp member).elim (own' call) (own call)

theorem setIrqLevel_drives (accepts : Bool → Bool) (driven : Driven) (irq : BitVec 32) (level : Bool) :
    Drives irq driven (vmSetIrqLevel accepts driven irq level).1 := by
  unfold vmSetIrqLevel
  split
  · exact ⟨[(irq, level)], rfl, fun call member => by rw [List.mem_singleton.mp member]⟩
  · exact .refl irq driven

theorem pulse_drives {Cookie : Type} (accepts : Bool → Bool) (driven : Driven) (line : IrqLine Cookie) :
    Drives line.irq driven (irqLinePulse accepts driven line).1 := by
  have raised := setIrqLevel_drives accepts driven line.irq true
  unfold irqLinePulse
  dsimp only
  split
  · exact raised
  · exact raised.trans (setIrqLevel_drives accepts _ line.irq false)

omit [DecidableEq Proxy] in
theorem emudevIrqOp_drives (accepts : Bool → Bool) (driven : Driven) (irqLine : IrqLine Proxy) (op : BitVec 32) :
    Drives irqLine.irq driven (emudevIrqOp accepts driven irqLine op).1 := by
  unfold emudevIrqOp
  split
  · exact setIrqLevel_drives accepts driven irqLine.irq true
  split
  · exact setIrqLevel_drives accepts driven irqLine.irq false
  split
  · exact pulse_drives accepts driven irqLine
  · exact .refl irqLine.irq driven

theorem filter_drives {drives : Driven} (before : Driven) {irq : BitVec 32} (elsewhere : ∀ call ∈ drives, call.1 ≠ irq) :
    (drives ++ before).filter (fun call => call.1 = irq) = before.filter fun call => call.1 = irq := by
  have none_ : drives.filter (fun call => call.1 = irq) = [] :=
    List.filter_eq_nil_iff.mpr fun call member => by simpa using elsewhere call member
  rw [List.filter_append, none_, List.nil_append]

theorem Drives.filter {before after : Driven} (drives : Drives irq before after) {other : BitVec 32} (apart : other ≠ irq) :
    after.filter (fun call => call.1 = other) = before.filter fun call => call.1 = other := by
  obtain ⟨drives, rfl, own⟩ := drives
  exact filter_drives before fun call member same => apart (same.symm.trans (own call member))

end Drives

/-! ### One message -/

/-- What `emudev_irq_set` can do: the line is known, or it is registered, or the registration
does not get into the list, or nothing is registered. -/
inductive Handling (s : Lines Proxy Handle) (m : IrqMessage Proxy Handle) : EmuDev Proxy Handle × Registered × Int → Prop
    where
  | known : m.line ∈ s.emudev.irqs → Handling s m
      ({ s.emudev with driven := (emudevIrqOp m.ext.pci.accepts s.emudev.driven m.line m.op).1 }, s.registered,
        (emudevIrqOp m.ext.pci.accepts s.emudev.driven m.line m.op).2)
  | new : m.line ∉ s.emudev.irqs → m.ext.allocated = true ∧ m.ext.registers s.registered m.irq = true →
      m.ext.appended = 0 → Handling s m
      ({ s.emudev with
          irqs := s.emudev.irqs ++ [m.line]
          driven := (emudevIrqOp m.ext.pci.accepts s.emudev.driven m.line m.op).1 }, m.irq :: s.registered,
        (emudevIrqOp m.ext.pci.accepts s.emudev.driven m.line m.op).2)
  | dropped : m.line ∉ s.emudev.irqs → m.ext.appended ≠ 0 → Handling s m (s.emudev, m.irq :: s.registered, -1)
  | refused : m.line ∉ s.emudev.irqs → ¬(m.ext.allocated = true ∧ m.ext.registers s.registered m.irq = true) →
      Handling s m (s.emudev, s.registered, -1)

variable {s : Lines Proxy Handle} {m : IrqMessage Proxy Handle}

theorem perform_eq : s.perform m =
    let result := emudevIrqSet m.ext s.emudev s.registered m.ioProxy m.irq m.op
    (result.1, result.2.1, if result.2.2 ≠ 0 then .error else .handled) := by
  have other : qemuOpSetIrq ≠ qemuOpMmioRegionConfig := by decide
  rw [Lines.perform, handleEmudev, if_neg other, if_pos rfl]
  rfl

omit [DecidableEq Handle] in
theorem handling (s : Lines Proxy Handle) (m : IrqMessage Proxy Handle) :
    Handling s m (emudevIrqSet m.ext s.emudev s.registered m.ioProxy m.irq m.op) := by
  have emulated : ¬(!irqIsEmulatedDevice m.irq) = true := by
    have emulated : irqIsEmulatedDevice m.irq = true := m.emulated
    simp [emulated]
  rw [emudevIrqSet, if_neg emulated, irqResFind_eq]
  by_cases known : m.line ∈ s.emudev.irqs
  · have present : (⟨m.irq, m.ioProxy⟩ : IrqLine Proxy) ∈ s.emudev.irqs := known
    rw [if_pos present]
    exact .known known
  · have absent : (⟨m.irq, m.ioProxy⟩ : IrqLine Proxy) ∉ s.emudev.irqs := known
    rw [if_neg absent, emudevIrqRegister_eq]
    by_cases registers : m.ext.allocated = true ∧ m.ext.registers s.registered m.irq = true
    · rw [if_pos registers]
      by_cases appended : m.ext.appended = 0
      · rw [if_pos appended]
        exact .new known registers appended
      · rw [if_neg appended]
        exact .dropped known appended
    · rw [if_neg registers]
      exact .refused known registers

/-- The cases of a message, as equations of the state after it. -/
theorem after_cases : ∃ result, Handling s m result ∧ (s.after m).emudev = result.1 ∧
    (s.after m).registered = result.2.1 ∧ (s.perform m).2.2 = if result.2.2 ≠ 0 then .error else .handled := by
  have performed := perform_eq (s := s) (m := m)
  exact ⟨_, handling s m, congrArg Prod.fst performed, congrArg (fun result => result.2.1) performed,
    congrArg (fun result => result.2.2) performed⟩

theorem tried_again (absent : m.line ∉ s.emudev.irqs) : TriedAgain s m := by
  intro next same allocated accepted
  obtain ⟨result, outcome, _, registered, _⟩ := after_cases (s := s) (m := next)
  rw [registered]
  cases outcome with
  | known present =>
    rw [same] at present
    exact absurd present absent
  | new _ _ _ => rfl
  | dropped _ _ => rfl
  | refused _ refused => exact absurd ⟨allocated, accepted⟩ refused

omit [DecidableEq Handle] in
theorem find_line : irqResFind s.emudev.irqs m.ioProxy m.irq = none ↔ m.line ∉ s.emudev.irqs := by
  rw [irqResFind_eq]
  by_cases present : (⟨m.irq, m.ioProxy⟩ : IrqLine Proxy) ∈ s.emudev.irqs
  · rw [if_pos present]
    exact ⟨nofun, fun absent => absurd present absent⟩
  · rw [if_neg present]
    exact ⟨fun _ => present, fun _ => rfl⟩

theorem after_distinct (distinct : s.emudev.irqs.Nodup) : (s.after m).emudev.irqs.Nodup := by
  obtain ⟨result, outcome, emudev, _, _⟩ := after_cases (s := s) (m := m)
  rw [emudev]
  cases outcome with
  | known _ => exact distinct
  | new absent _ _ =>
    refine distinct.append (List.nodup_singleton _) ?_
    simpa using absent
  | dropped _ _ => exact distinct
  | refused _ _ => exact distinct

theorem after_failed (fails : RegistrationFails s m) : (s.after m).emudev.irqs = s.emudev.irqs ∧
    (s.perform m).2.2 = .error ∧ TriedAgain (s.after m) m := by
  have absent := find_line.mp fails.1
  obtain ⟨result, outcome, emudev, _, rc⟩ := after_cases (s := s) (m := m)
  have unchanged : result.1 = s.emudev → (s.after m).emudev.irqs = s.emudev.irqs ∧ TriedAgain (s.after m) m := by
    intro same
    have irqs : (s.after m).emudev.irqs = s.emudev.irqs := by rw [emudev, same]
    exact ⟨irqs, tried_again (by rwa [irqs])⟩
  cases outcome with
  | known present => exact absurd present absent
  | new _ registers appended =>
    -- a record that has been appended is found
    have made := fails.2
    rw [emudevIrqRegister_eq, if_pos registers, if_pos appended] at made
    cases made
  | dropped _ _ => exact ⟨(unchanged rfl).1, rc, (unchanged rfl).2⟩
  | refused _ _ => exact ⟨(unchanged rfl).1, rc, (unchanged rfl).2⟩

theorem after_own : (s.after m).emudev.driven = s.emudev.driven ∨ m.line ∈ (s.after m).emudev.irqs ∧
    (s.after m).emudev.driven = (emudevIrqOp m.ext.pci.accepts s.emudev.driven m.line m.op).1 := by
  obtain ⟨result, outcome, emudev, _, _⟩ := after_cases (s := s) (m := m)
  rw [emudev]
  cases outcome with
  | known present => exact .inr ⟨present, rfl⟩
  | new _ _ _ => exact .inr ⟨List.mem_append_right _ (List.mem_singleton_self _), rfl⟩
  | dropped _ _ => exact .inl rfl
  | refused _ _ => exact .inl rfl

theorem after_accepted (handled : (s.perform m).2.2 = .handled) : m.line ∈ (s.after m).emudev.irqs ∧
    ∃ levels, opLevels m.op = some levels ∧
      (s.after m).emudev.driven = levels.reverse.map (fun level => (m.irq, level)) ++ s.emudev.driven := by
  obtain ⟨result, outcome, emudev, _, rc⟩ := after_cases (s := s) (m := m)
  have succeeds : result.2.2 = 0 := by
    by_contra failed
    rw [handled, if_pos failed] at rc
    cases rc
  rw [emudev]
  cases outcome with
  | known present => exact ⟨present, emudevIrqOp_succeeds succeeds⟩
  | new _ _ _ => exact ⟨List.mem_append_right _ (List.mem_singleton_self _), emudevIrqOp_succeeds succeeds⟩
  | dropped _ _ => cases succeeds
  | refused _ _ => cases succeeds

theorem hits_own_line (distinct : s.emudev.irqs.Nodup) : HitsOwnLine s m where
  distinct := after_distinct distinct
  failed := after_failed
  own := after_own
  accepted := after_accepted

/-! ### Runs -/

structure MadeOnce (s : Lines Proxy Handle) : Prop where
  once : s.made.Nodup
  recorded : ∀ pair ∈ s.made, ⟨pair.2, pair.1⟩ ∈ s.emudev.irqs

theorem MadeOnce.after (made : MadeOnce s) (appends : m.ext.appended = 0) : MadeOnce (s.after m) := by
  obtain ⟨result, outcome, emudev, registered, _⟩ := after_cases (s := s) (m := m)
  have grown : (s.after m).made = if result.2.1 = s.registered then s.made else (m.ioProxy, m.irq) :: s.made := by
    rw [← registered]
    rfl
  cases outcome with
  | known _ =>
    rw [if_pos rfl] at grown
    exact ⟨grown ▸ made.once, fun pair inside => by rw [emudev]; exact made.recorded pair (grown ▸ inside)⟩
  | new absent _ _ =>
    rw [if_neg (List.cons_ne_self _ _)] at grown
    constructor
    · rw [grown]
      exact List.nodup_cons.mpr ⟨fun again => absent (made.recorded _ again), made.once⟩
    · intro pair inside
      rw [emudev]
      rw [grown] at inside
      rcases List.mem_cons.mp inside with rfl | old
      · exact List.mem_append_right _ (List.mem_singleton_self _)
      · exact List.mem_append_left _ (made.recorded pair old)
  | dropped _ lost => exact absurd appends lost
  | refused _ _ =>
    rw [if_pos rfl] at grown
    exact ⟨grown ▸ made.once, fun pair inside => by rw [emudev]; exact made.recorded pair (grown ▸ inside)⟩

theorem messages_hit_own_line (distinct : s.emudev.irqs.Nodup) (messages : List (IrqMessage Proxy Handle)) :
    Along Lines.after HitsOwnLine s messages := by
  induction messages generalizing s with
  | nil => trivial
  | cons m rest ih => exact ⟨hits_own_line distinct, ih (after_distinct distinct)⟩

theorem messages_made_once (made : MadeOnce s) {messages : List (IrqMessage Proxy Handle)}
    (appends : ∀ m ∈ messages, m.ext.appended = 0) : MadeOnce (messages.foldl Lines.after s) := by
  induction messages generalizing s with
  | nil => exact made
  | cons m rest ih =>
    exact ih (made.after (appends m List.mem_cons_self)) fun later inside => appends later (List.mem_cons_of_mem _ inside)

structure Numbered (s : Lines Proxy Handle) : Prop where
  numbers : (s.emudev.irqs.map (·.irq)).Nodup
  known : ∀ irqLine ∈ s.emudev.irqs, irqLine.irq ∈ s.registered

/-- `vm_register_irq` accepts no number a second time. -/
def RefusesTwice (m : IrqMessage Proxy Handle) : Prop :=
  ∀ registered irq, m.ext.registers registered irq = true → irq ∉ registered

def LeavesNumbers (s : Lines Proxy Handle) (m : IrqMessage Proxy Handle) : Prop :=
  ∀ other ∈ s.emudev.irqs, other ≠ m.line →
    (s.after m).emudev.driven.filter (fun call => call.1 = other.irq) =
      s.emudev.driven.filter fun call => call.1 = other.irq

theorem Numbered.after (numbered : Numbered s) (refuses : RefusesTwice m) : Numbered (s.after m) := by
  obtain ⟨result, outcome, emudev, registered, _⟩ := after_cases (s := s) (m := m)
  refine ⟨emudev ▸ ?_, emudev ▸ registered ▸ ?_⟩
  · cases outcome with
    | known _ | dropped _ _ | refused _ _ => exact numbered.numbers
    | new _ registers _ =>
      rw [List.map_append, List.nodup_append]
      refine ⟨numbered.numbers, List.nodup_singleton _, fun a old b last same => refuses _ _ registers.2 ?_⟩
      obtain ⟨irqLine, member, rfl⟩ := List.mem_map.mp old
      have number : irqLine.irq = m.irq := same.trans (List.mem_singleton.mp last)
      exact number ▸ numbered.known irqLine member
  · cases outcome with
    | known _ | refused _ _ => exact numbered.known
    | dropped _ _ => exact fun irqLine member => List.mem_cons_of_mem _ (numbered.known irqLine member)
    | new _ _ _ =>
      intro irqLine member
      rcases List.mem_append.mp member with old | last
      · exact List.mem_cons_of_mem _ (numbered.known irqLine old)
      · rw [List.mem_singleton.mp last]
        exact List.mem_cons_self

theorem Numbered.leaves (numbered : Numbered s) (refuses : RefusesTwice m) : LeavesNumbers s m := by
  intro other member apart
  rcases after_own (s := s) (m := m) with same | ⟨mine, driven⟩
  · rw [same]
  · have kept : other ∈ (s.after m).emudev.irqs := by
      obtain ⟨result, outcome, emudev, _, _⟩ := after_cases (s := s) (m := m)
      rw [emudev]
      cases outcome with
      | known _ | dropped _ _ | refused _ _ => exact member
      | new _ _ _ => exact List.mem_append_left _ member
    rw [driven]
    refine (emudevIrqOp_drives _ _ m.line m.op).filter fun same => apart ?_
    exact List.inj_on_of_nodup_map (numbered.after refuses).numbers kept mine same

theorem messages_leave_numbers (numbered : Numbered s) {messages : List (IrqMessage Proxy Handle)}
    (refuse : ∀ m ∈ messages, RefusesTwice m) : Along Lines.after LeavesNumbers s messages := by
  induction messages generalizing s with
  | nil => trivial
  | cons m rest ih =>
    have refuses := refuse m List.mem_cons_self
    exact ⟨numbered.leaves refuses, ih (numbered.after refuses) fun later inside =>
      refuse later (List.mem_cons_of_mem _ inside)⟩

/-- In every run of messages of any io_proxies, with external functions that fail in any way,
no pair has two records, a failed registration leaves the registry for the next message,
and levels are driven through the record of the own pair alone. Where nothing fails after
`vm_register_irq`, this succeeds at most once for a pair; where it refuses a number that is
registered, no message drives the number of another record. -/
theorem emulated_interrupts_register_once (emudev : EmuDev Proxy Handle) (registered : Registered)
    (messages : List (IrqMessage Proxy Handle)) :
    Along Lines.after HitsOwnLine (.initial emudev registered) messages ∧
      ((∀ m ∈ messages, m.ext.appended = 0) →
        (messages.foldl Lines.after (.initial emudev registered)).made.Nodup) ∧
      ((∀ m ∈ messages, RefusesTwice m) → Along Lines.after LeavesNumbers (.initial emudev registered) messages) := by
  refine ⟨messages_hit_own_line List.nodup_nil messages, fun appends => ?_, messages_leave_numbers ?_⟩
  · have start : MadeOnce (.initial emudev registered) := ⟨List.nodup_nil, fun _ made => by cases made⟩
    exact (messages_made_once start appends).once
  · exact ⟨List.nodup_nil, fun _ member => by cases member⟩

/-- An interrupt message of an io_proxy, to a VM that has memory and takes each number once. -/
def irqMessage (ioProxy : Bool) (irq op : BitVec 64) (emulated : irqIsEmulatedDevice (irq.setWidth 32) = true) :
    IrqMessage Bool Unit :=
  ⟨⟨true, 0, fun registered irq => decide (irq ∉ registered), ⟨none, true, 0, 0⟩, ⟨true, none, fun _ => true⟩⟩,
    ioProxy, ⟨16#64, irq, op, 0#64⟩, emulated⟩

/-- Two io_proxies name interrupt 200, the second one in vain; then it uses 201. -/
def rivals : List (IrqMessage Bool Unit) :=
  [irqMessage true 200#64 1#64 rfl, irqMessage false 200#64 0#64 rfl, irqMessage false 201#64 1#64 rfl,
    irqMessage true 200#64 2#64 rfl]

theorem emulated_interrupts_register_once_rivals :
    let start : Lines Bool Unit := .initial ⟨[], .initial, []⟩ []
    (rivals.foldl Lines.after start).made = [(false, 201#32), (true, 200#32)] ∧
      (rivals.foldl Lines.after start).made.Nodup ∧ Along Lines.after LeavesNumbers start rivals := by
  obtain ⟨-, once, apart⟩ := emulated_interrupts_register_once (⟨[], .initial, []⟩ : EmuDev Bool Unit) [] rivals
  refine ⟨by decide +kernel, once fun m member => ?_, apart fun m member => ?_⟩
  · simp only [rivals, List.mem_cons, List.not_mem_nil, or_false] at member
    rcases member with rfl | rfl | rfl | rfl <;> rfl
  · simp only [rivals, List.mem_cons, List.not_mem_nil, or_false] at member
    rcases member with rfl | rfl | rfl | rfl <;> exact fun _ _ accepted => of_decide_eq_true accepted

end Virtioso.Vmm
