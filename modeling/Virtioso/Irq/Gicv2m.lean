import Virtioso.Irq.Line

/-! The MSI frame of `gicv2m.c`: a range of interrupts, each with a line of its own.

The guest raises an interrupt by writing its number to the frame, a backend through
`v2m_inject_irq`. Both turn the number into an index of the array of lines; an index
past the array is an access out of bounds, `none` below.
-/

set_option autoImplicit false

namespace Virtioso.Irq

/-- `GICV2M_IRQ_MAX`. -/
abbrev gicv2mIrqMax : Nat := 128

def v2mMsiTyper : BitVec 64 := 0x008#64
def v2mMsiSetspiNs : BitVec 64 := 0x040#64
def v2mMsiIidr : BitVec 64 := 0xFCC#64
def v2mIidr0 : BitVec 64 := 0xFD0#64
def v2mIidr11 : BitVec 64 := 0xFFC#64

/-- `gicv2m_t`. The cookie of its lines is the frame itself. -/
structure Gicv2m where
  base : BitVec 64
  size : BitVec 64
  irq : Fin gicv2mIrqMax → IrqLine Unit
  irqBase : BitVec 32
  numIrq : BitVec 32

/-- `v2m_read_fault`: the value read, `none` where it returns false. -/
def v2mReadFault (s : Gicv2m) (paddr len : BitVec 64) : Option (BitVec 32) :=
  if len ≠ 4#64 then none
  else if paddr - s.base = v2mMsiTyper then some ((s.irqBase <<< 16) ||| s.numIrq)
  else if paddr - s.base = v2mMsiIidr then some (0x53#32 <<< 20)
  else if v2mIidr0 ≤ paddr - s.base ∧ paddr - s.base ≤ v2mIidr11 then some 0#32
  else none

def Gicv2m.lineAt (s : Gicv2m) (i : BitVec 32) : Option (IrqLine Unit) :=
  if inside : i.toNat < gicv2mIrqMax then some (s.irq ⟨i.toNat, inside⟩) else none

/-- The index `spi` of `v2m_write_fault`, if it passes the test. -/
def Gicv2m.writeIndex (s : Gicv2m) (data : BitVec 32) : Option (BitVec 32) :=
  let spi := (data &&& 0x3ff#32) - s.irqBase
  if spi < s.numIrq then some spi else none

/-- `v2m_write_fault`: the levels driven and what it returns. -/
def v2mWriteFault (accepts : Bool → Bool) (s : Gicv2m) (driven : Driven) (paddr len : BitVec 64)
    (data : BitVec 32) : Option (Driven × Bool) :=
  if len ≠ 2#64 ∧ len ≠ 4#64 then some (driven, false)
  else if paddr - s.base = v2mMsiSetspiNs then
    match s.writeIndex data with
    | none => some (driven, true)
    | some spi => (s.lineAt spi).map fun line =>
        let (driven, err) := irqLinePulse accepts driven line
        (driven, err == 0)
  else some (driven, false)

/-- `v2m_irq_valid`. -/
def v2mIrqValid (s : Gicv2m) (irq : BitVec 32) : Bool := irq ≥ s.irqBase && irq < s.irqBase + s.numIrq

/-- The index of `v2m_inject_irq`, if the interrupt is valid. -/
def Gicv2m.injectIndex (s : Gicv2m) (irq : BitVec 32) : Option (BitVec 32) :=
  if v2mIrqValid s irq then some (irq - s.irqBase) else none

/-- `v2m_inject_irq`: the levels driven and its return code. -/
def v2mInjectIrq (accepts : Bool → Bool) (s : Gicv2m) (driven : Driven) (irq : BitVec 32) :
    Option (Driven × Int) :=
  match s.injectIndex irq with
  | none => some (driven, -1)
  | some i => (s.lineAt i).map (irqLinePulse accepts driven)

/-- What is stored at `s->irq[i]`. -/
def Gicv2m.setLine (s : Gicv2m) (i : Nat) (line : IrqLine Unit) : Gicv2m :=
  { s with irq := fun j => if j.val = i then line else s.irq j }

/-- The loop of `v2m_init` from `i` on, `left` iterations before its end. -/
def v2mInitFrom (accepts : Registered → BitVec 32 → Bool) :
    (left i : Nat) → Gicv2m → Registered → Gicv2m × Registered × Int
  | 0, _, s, registered => (s, registered, 0)
  | left + 1, i, s, registered =>
      let (line, registered, err) := irqLineInit accepts registered (s.irqBase + BitVec.ofNat 32 i) ()
      let s := s.setLine i line
      if err ≠ 0 then (s, registered, err) else v2mInitFrom accepts left (i + 1) s registered

/-- `v2m_init`; `reserves` tells whether `vm_reserve_memory_at` succeeds on a range. -/
def v2mInit (accepts : Registered → BitVec 32 → Bool) (reserves : BitVec 64 → BitVec 64 → Bool) (s : Gicv2m)
    (registered : Registered) : Gicv2m × Registered × Int :=
  if s.numIrq > BitVec.ofNat 32 gicv2mIrqMax then (s, registered, -1)
  else if s.irqBase + s.numIrq > 1020#32 then (s, registered, -1)
  else
    let (s, registered, err) := v2mInitFrom accepts s.numIrq.toNat 0 s registered
    if err ≠ 0 then (s, registered, err)
    else if !reserves s.base s.size then (s, registered, -1)
    else (s, registered, 0)

inductive Plat where
  | rpi4
  | qemuArmVirt
  deriving DecidableEq, Repr

/-- `v2m` of a platform, with what is in its lines. -/
def v2m (plat : Plat) (irq : Fin gicv2mIrqMax → IrqLine Unit) : Gicv2m :=
  match plat with
  | .rpi4 => ⟨0x08021000#64, 0x1000#64, irq, 144#32, 32#32⟩
  | .qemuArmVirt => ⟨0x08020000#64, 0x1000#64, irq, 96#32, 32#32⟩

def Gicv2m.number (s : Gicv2m) (i : Nat) : BitVec 32 := s.irqBase + BitVec.ofNat 32 i

section
variable (s : Gicv2m) (line : IrqLine Unit) {i : Nat} {k : Fin gicv2mIrqMax}

theorem setLine_at (here : k.val = i) : (s.setLine i line).irq k = line := if_pos here

theorem setLine_of_ne (other : k.val ≠ i) : (s.setLine i line).irq k = s.irq k := if_neg other

theorem lineAt_of_lt {i : BitVec 32} (inside : i.toNat < gicv2mIrqMax) :
    s.lineAt i = some (s.irq ⟨i.toNat, inside⟩) := dif_pos inside

end

/-- Fields that only the platform's initialiser sets. -/
structure SameRange (s t : Gicv2m) : Prop where
  base : t.base = s.base
  size : t.size = s.size
  irqBase : t.irqBase = s.irqBase
  numIrq : t.numIrq = s.numIrq

theorem sameRange_setLine (s : Gicv2m) (i : Nat) (line : IrqLine Unit) : SameRange s (s.setLine i line) :=
  ⟨rfl, rfl, rfl, rfl⟩

theorem SameRange.trans {r s t : Gicv2m} (first : SameRange r s) (next : SameRange s t) : SameRange r t :=
  ⟨next.base.trans first.base, next.size.trans first.size, next.irqBase.trans first.irqBase,
    next.numIrq.trans first.numIrq⟩

theorem SameRange.number {s t : Gicv2m} (same : SameRange s t) : t.number = s.number := by
  funext i
  rw [Gicv2m.number, Gicv2m.number, same.irqBase]

section
variable (accepts : Registered → BitVec 32 → Bool)

theorem initFrom_succ (left i : Nat) (s : Gicv2m) (registered : Registered) :
    v2mInitFrom accepts (left + 1) i s registered =
      if accepts registered (s.number i) then
        v2mInitFrom accepts left (i + 1) (s.setLine i ⟨s.number i, ()⟩) (s.number i :: registered)
      else (s.setLine i ⟨s.number i, ()⟩, registered, -1) := by
  by_cases accepted : accepts registered (s.number i) = true
  · have line : irqLineInit accepts registered (s.irqBase + BitVec.ofNat 32 i) () = _ :=
      irqLineInit_accepted accepted
    rw [if_pos accepted, v2mInitFrom, line]
    rfl
  · have line : irqLineInit accepts registered (s.irqBase + BitVec.ofNat 32 i) () = _ :=
      irqLineInit_refused (Bool.eq_false_iff.mpr accepted)
    rw [if_neg accepted, v2mInitFrom, line]
    rfl

theorem initFrom_registers (left i : Nat) (s : Gicv2m) (registered : Registered) :
    (v2mInitFrom accepts left i s registered).2 =
      registerAll accepts ((List.range' i left).map s.number) registered := by
  induction left generalizing i s registered with
  | zero => rfl
  | succ left ih =>
    rw [List.range'_succ, List.map_cons, registerAll_cons, initFrom_succ]
    by_cases accepted : accepts registered (s.number i) = true
    · rw [if_pos accepted, if_pos accepted, ih]
      rfl
    · rw [if_neg accepted, if_neg accepted]

theorem initFrom_same (left i : Nat) (s : Gicv2m) (registered : Registered) :
    SameRange s (v2mInitFrom accepts left i s registered).1 := by
  induction left generalizing i s registered with
  | zero => exact ⟨rfl, rfl, rfl, rfl⟩
  | succ left ih =>
    rw [initFrom_succ]
    split
    · exact (sameRange_setLine s i _).trans (ih _ _ _)
    · exact sameRange_setLine s i _

theorem v2mInit_loop {accepts : Registered → BitVec 32 → Bool} {reserves : BitVec 64 → BitVec 64 → Bool}
    {s : Gicv2m} {registered : Registered} (few : ¬s.numIrq > BitVec.ofNat 32 gicv2mIrqMax)
    (range : ¬s.irqBase + s.numIrq > 1020#32) :
    v2mInit accepts reserves s registered =
      let loop := v2mInitFrom accepts s.numIrq.toNat 0 s registered
      if loop.2.2 ≠ 0 then loop
      else if !reserves s.base s.size then (loop.1, loop.2.1, -1)
      else (loop.1, loop.2.1, 0) := by
  have same := initFrom_same accepts s.numIrq.toNat 0 s registered
  rw [v2mInit, if_neg few, if_neg range]
  simp only [same.base, same.size]

end

end Virtioso.Irq
