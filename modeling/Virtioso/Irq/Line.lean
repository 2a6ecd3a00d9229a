import Mathlib.Tactic.Common

/-! Interrupt lines with one source, as in `irq_line.c`.

A line registers its interrupt with the VM once and drives the level of that
interrupt afterwards. What the VM answers is given by the caller.
-/

set_option autoImplicit false

namespace Virtioso.Irq

/-- `irq_line_t`, without the vCPU that all lines share. -/
structure IrqLine (Cookie : Type) where
  irq : BitVec 32
  cookie : Cookie
  deriving DecidableEq, Repr

/-- The interrupts registered with the VM, the latest first. -/
abbrev Registered := List (BitVec 32)

/-- The calls of `vm_set_irq_level` that succeeded, the latest first. -/
abbrev Driven := List (BitVec 32 × Bool)

/-- `vm_register_irq`; `accepts` tells whether it succeeds. -/
def vmRegisterIrq (accepts : Registered → BitVec 32 → Bool) (registered : Registered) (irq : BitVec 32) :
    Registered × Int :=
  if accepts registered irq then (irq :: registered, 0) else (registered, -1)

/-- `vm_set_irq_level`; `accepts` tells for which level it succeeds. -/
def vmSetIrqLevel (accepts : Bool → Bool) (driven : Driven) (irq : BitVec 32) (level : Bool) : Driven × Int :=
  if accepts level then ((irq, level) :: driven, 0) else (driven, -1)

variable {Cookie : Type}

/-- `irq_line_init`: the line is filled in before it is registered. -/
def irqLineInit (accepts : Registered → BitVec 32 → Bool) (registered : Registered) (irq : BitVec 32)
    (cookie : Cookie) : IrqLine Cookie × Registered × Int :=
  let (registered, err) := vmRegisterIrq accepts registered irq
  (⟨irq, cookie⟩, registered, if err ≠ 0 then -1 else 0)

/-- `irq_line_change`. -/
def irqLineChange (accepts : Bool → Bool) (driven : Driven) (line : IrqLine Cookie) (active : Bool) :
    Driven × Int :=
  vmSetIrqLevel accepts driven line.irq active

/-- `irq_line_pulse`. -/
def irqLinePulse (accepts : Bool → Bool) (driven : Driven) (line : IrqLine Cookie) : Driven × Int :=
  let (driven, err) := vmSetIrqLevel accepts driven line.irq true
  if err ≠ 0 then (driven, err) else vmSetIrqLevel accepts driven line.irq false

def registerAll (accepts : Registered → BitVec 32 → Bool) : List (BitVec 32) → Registered → Registered × Int
  | [], registered => (registered, 0)
  | irq :: rest, registered =>
      let (registered, err) := vmRegisterIrq accepts registered irq
      if err ≠ 0 then (registered, -1) else registerAll accepts rest registered

/-- A VM that refuses an interrupt registered already, and no other. -/
def refusesSecond (registered : Registered) (irq : BitVec 32) : Bool := !registered.contains irq

section
variable {accepts : Registered → BitVec 32 → Bool} {registered : Registered} {irq : BitVec 32} {cookie : Cookie}

theorem irqLineInit_accepted (accepted : accepts registered irq = true) :
    irqLineInit accepts registered irq cookie = (⟨irq, cookie⟩, irq :: registered, 0) := by
  simp [irqLineInit, vmRegisterIrq, accepted]

theorem irqLineInit_refused (refused : accepts registered irq = false) :
    irqLineInit accepts registered irq cookie = (⟨irq, cookie⟩, registered, -1) := by
  simp [irqLineInit, vmRegisterIrq, refused]

theorem registerAll_cons {rest : List (BitVec 32)} : registerAll accepts (irq :: rest) registered =
    if accepts registered irq then registerAll accepts rest (irq :: registered) else (registered, -1) := by
  by_cases accepted : accepts registered irq = true
  · simp [registerAll, vmRegisterIrq, accepted]
  · simp [registerAll, vmRegisterIrq, accepted]

theorem registerAll_refusesSecond (irqs : List (BitVec 32)) (registered : Registered) :
    (registerAll refusesSecond irqs registered).2 = 0 ↔ irqs.Nodup ∧ ∀ irq ∈ irqs, irq ∉ registered := by
  induction irqs generalizing registered with
  | nil => simp [registerAll]
  | cons irq rest ih =>
    rw [registerAll_cons]
    by_cases known : irq ∈ registered
    · have refused : refusesSecond registered irq = false := by simp [refusesSecond, known]
      simp [refused, known]
    · have accepted : refusesSecond registered irq = true := by simp [refusesSecond, known]
      rw [if_pos accepted, ih, List.nodup_cons]
      simp only [List.mem_cons, not_or, forall_eq_or_imp]
      constructor
      · rintro ⟨distinct, others⟩
        exact ⟨⟨fun again => (others irq again).1 rfl, distinct⟩, known, fun other inside => (others other inside).2⟩
      · rintro ⟨⟨once, distinct⟩, _, others⟩
        exact ⟨distinct, fun other inside => ⟨fun same => once (same ▸ inside), others other inside⟩⟩

theorem registerAll_complete {irqs : List (BitVec 32)} (complete : (registerAll accepts irqs registered).2 = 0) :
    (registerAll accepts irqs registered).1 = irqs.reverse ++ registered := by
  induction irqs generalizing registered with
  | nil => rfl
  | cons irq rest ih =>
    rw [registerAll_cons] at complete ⊢
    by_cases accepted : accepts registered irq = true
    · rw [if_pos accepted] at complete ⊢
      rw [ih complete, List.reverse_cons, List.append_assoc]
      rfl
    · rw [if_neg accepted] at complete
      cases complete

end

end Virtioso.Irq
