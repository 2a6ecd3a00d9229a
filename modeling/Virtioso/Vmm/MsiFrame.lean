import Virtioso.Foundation.Refinement
import Virtioso.Irq.Msi
import Virtioso.Proxy.VcpuFaults
import Virtioso.Vmm.Exclusive

/-! The MSI frame as its users see it.

The guest reads from the frame which interrupts it has, and raises them by writing to it.
Backends raise the same interrupts with messages. What a guest has read of the range is all
it takes to say what any access and any message does.
-/

set_option autoImplicit false

namespace Virtioso.Vmm

open Foundation Irq Proxy

variable {P : Type}

/-- `v2m_fault_handler`, with what `emulate_vcpu_fault` makes of the fault and a zero. -/
def v2mFaultHandler (accepts : Bool → Bool) (s : Gicv2m) (driven : Driven) (vcpu : Vcpu P)
    (emulated paddr len : BitVec 64) : Option (Driven × Vcpu P × MemoryFaultResult) :=
  if vcpu.fault.read then
    let val := v2mReadFault s paddr len
    let vcpu := vcpu.setFaultData ((val.getD 0#32).setWidth 64)
    if val = none then some (driven, vcpu, .faultUnhandled)
    else some (driven, vcpu.advanceFault, .faultHandled)
  else
    (v2mWriteFault accepts s driven paddr len (emulated.setWidth 32)).map fun (driven, handled) =>
      if handled then (driven, vcpu.advanceFault, .faultHandled) else (driven, vcpu, .faultUnhandled)

/-- A fault of a vCPU in the frame, or an interrupt message of a backend. What
`vm_set_irq_level` does may be different each time. -/
inductive FrameCall (P : Type) where
  | access (accepts : Bool → Bool) (vcpu : Vcpu P) (emulated paddr len : BitVec 64)
  | message (accepts : Bool → Bool) (irq op : BitVec 32)

inductive FrameReturn (P : Type) where
  | access (vcpu : Vcpu P) (result : MemoryFaultResult)
  | message (rc : Rc)

def frameStep (plat : Plat) (s : MsiState) : FrameCall P → Option (MsiState × FrameReturn P)
  | .access accepts vcpu emulated paddr len =>
      (v2mFaultHandler accepts (v2m plat s.irq) s.driven vcpu emulated paddr len).map
        fun (driven, vcpu, result) => ({ s with driven }, .access vcpu result)
  | .message accepts irq op => (msiIrqSet plat accepts s irq op).map fun (s, rc) => (s, .message rc)

/-! ### What the frame is for -/

structure Doorbells where
  first : Nat
  count : Nat
  deriving DecidableEq, Repr

/-- How a driver decodes the type register of a frame. -/
def doorbellsOf (typer : BitVec 32) : Doorbells :=
  ⟨((typer >>> 16) &&& 0x3ff#32).toNat, (typer &&& 0x3ff#32).toNat⟩

namespace Doorbells
variable (d : Doorbells)

def Has (irq : Nat) : Prop := d.first ≤ irq ∧ irq < d.first + d.count

instance (irq : Nat) : Decidable (d.Has irq) := inferInstanceAs (Decidable (_ ∧ _))

def register (offset : BitVec 64) : Option (BitVec 32) :=
  if offset = v2mMsiTyper then some (BitVec.ofNat 32 (d.first * 2 ^ 16 + d.count))
  else if offset = v2mMsiIidr then some 0x05300000#32
  else if v2mIidr0 ≤ offset ∧ offset ≤ v2mIidr11 then some 0#32
  else none

/-- A pulse of an interrupt, and whether both levels were driven. -/
def pulse (accepts : Bool → Bool) (driven : Driven) (irq : Nat) : Driven × Bool :=
  let (driven, err) := irqLinePulse accepts driven (⟨BitVec.ofNat 32 irq, ()⟩ : IrqLine Unit)
  (driven, err == 0)

/-- A read gets its register. A write of two or four bytes to the doorbell pulses the interrupt in
the low ten bits, if the frame has it. -/
def access (base : BitVec 64) (accepts : Bool → Bool) (driven : Driven) (vcpu : Vcpu P)
    (emulated paddr len : BitVec 64) : Driven × FrameReturn P :=
  if vcpu.fault.read then
    match if len = 4#64 then d.register (paddr - base) else none with
    | some value => (driven, .access (vcpu.setFaultData (value.setWidth 64)).advanceFault .faultHandled)
    | none => (driven, .access (vcpu.setFaultData 0#64) .faultUnhandled)
  else if (len = 2#64 ∨ len = 4#64) ∧ paddr - base = v2mMsiSetspiNs then
    let (driven, handled) :=
      if d.Has (emulated.toNat % 1024) then pulse accepts driven (emulated.toNat % 1024) else (driven, true)
    (driven, if handled then .access vcpu.advanceFault .faultHandled else .access vcpu .faultUnhandled)
  else (driven, .access vcpu .faultUnhandled)

/-- A message for another interrupt is left to others. -/
def message (accepts : Bool → Bool) (driven : Driven) (irq op : BitVec 32) : Driven × Rc :=
  if ¬d.Has irq.toNat then (driven, .none)
  else if op = rpcIrqSet ∨ op = rpcIrqPulse then
    let (driven, handled) := pulse accepts driven irq.toNat
    (driven, if handled then .handled else .error)
  else if op = rpcIrqClr then (driven, .handled)
  else (driven, .error)

def serve (base : BitVec 64) (driven : Driven) : FrameCall P → Driven × FrameReturn P
  | .access accepts vcpu emulated paddr len => d.access base accepts driven vcpu emulated paddr len
  | .message accepts irq op =>
      let (driven, rc) := d.message accepts driven irq op
      (driven, .message rc)

end Doorbells

/-! ### The frame does what it is for -/

def Filled (plat : Plat) (irq : Fin gicv2mIrqMax → IrqLine Unit) : Prop :=
  ∀ k : Fin gicv2mIrqMax, k.val < (v2m plat irq).numIrq.toNat → (irq k).irq = (v2m plat irq).number k.val

def typer (plat : Plat) : BitVec 32 :=
  let frame := v2m plat fun _ => ⟨0#32, ()⟩
  (frame.irqBase <<< 16) ||| frame.numIrq

section Frame
variable {plat : Plat} {lines : Fin gicv2mIrqMax → IrqLine Unit} {accepts : Bool → Bool} {driven : Driven}

theorem has_iff (irq : Nat) : (doorbellsOf (typer plat)).Has irq ↔ InFrame plat irq := by
  cases plat <;> exact Iff.rfl

theorem read_eq (lines : Fin gicv2mIrqMax → IrqLine Unit) (paddr len : BitVec 64) :
    v2mReadFault (v2m plat lines) paddr len =
      if len = 4#64 then (doorbellsOf (typer plat)).register (paddr - (v2m plat lines).base) else none := by
  have decoded : BitVec.ofNat 32 ((doorbellsOf (typer plat)).first * 2 ^ 16 + (doorbellsOf (typer plat)).count) =
      typer plat := by cases plat <;> decide +kernel
  have encoded : ((v2m plat lines).irqBase <<< 16) ||| (v2m plat lines).numIrq = typer plat := by
    cases plat <;> rfl
  unfold v2mReadFault Doorbells.register
  rw [decoded, encoded]
  by_cases sized : len = 4#64
  · rw [if_neg (not_not.mpr sized), if_pos sized]
    rfl
  · rw [if_pos sized, if_neg sized]

/-- An interrupt of the frame has a line of its own. -/
theorem own_line (filled : Filled plat lines) {irq : BitVec 32} (inside : InFrame plat irq.toNat) :
    ∃ i, (v2m plat lines).injectIndex irq = some i ∧ (v2m plat lines).lineAt i = some ⟨irq, ()⟩ := by
  have valid := (v2m_valid_iff plat lines irq).mpr inside
  have index : (v2m plat lines).injectIndex irq = some (irq - (v2m plat lines).irqBase) := if_pos valid
  have below := (injectIndex_lt (v2m_unwrapped plat lines) index).2.2
  have within := Nat.lt_trans below (v2m_numIrq plat lines)
  have number : (lines ⟨(irq - (v2m plat lines).irqBase).toNat, within⟩).irq = irq := by
    rw [filled _ below, Gicv2m.number, BitVec.ofNat_toNat, BitVec.setWidth_eq]
    bv_omega
  have same : (v2m plat lines).irq = lines := by cases plat <;> rfl
  refine ⟨_, index, ?_⟩
  rw [lineAt_of_lt _ within, same]
  exact congrArg (fun irq => some (⟨irq, ()⟩ : IrqLine Unit)) number

theorem no_line (lines : Fin gicv2mIrqMax → IrqLine Unit) {irq : BitVec 32} (outside : ¬InFrame plat irq.toNat) :
    (v2m plat lines).injectIndex irq = none :=
  if_neg fun valid => outside ((v2m_valid_iff plat lines irq).mp valid)

theorem pulse_eq (driven : Driven) (irq : BitVec 32) : Doorbells.pulse accepts driven irq.toNat =
    ((irqLinePulse accepts driven (⟨irq, ()⟩ : IrqLine Unit)).1,
      (irqLinePulse accepts driven (⟨irq, ()⟩ : IrqLine Unit)).2 == 0) := by
  rw [Doorbells.pulse, BitVec.ofNat_toNat, BitVec.setWidth_eq]

theorem toNat_named (emulated : BitVec 64) :
    ((emulated.setWidth 32) &&& 0x3ff#32).toNat = emulated.toNat % 1024 := by
  have mask : (0x3ff#32).toNat = 2 ^ 10 - 1 := by decide
  rw [BitVec.toNat_and, mask, Nat.and_two_pow_sub_one_eq_mod, BitVec.toNat_setWidth]
  exact Nat.mod_mod_of_dvd _ (by decide)

theorem write_eq (filled : Filled plat lines) (emulated paddr len : BitVec 64)
    (sized : len = 2#64 ∨ len = 4#64) (doorbell : paddr - (v2m plat lines).base = v2mMsiSetspiNs) :
    v2mWriteFault accepts (v2m plat lines) driven paddr len (emulated.setWidth 32) =
      some (if (doorbellsOf (typer plat)).Has (emulated.toNat % 1024)
        then Doorbells.pulse accepts driven (emulated.toNat % 1024) else (driven, true)) := by
  have passes : ¬(len ≠ 2#64 ∧ len ≠ 4#64) := fun wrong => sized.elim wrong.1 wrong.2
  have named := toNat_named emulated
  rw [v2mWriteFault, if_neg passes, if_pos doorbell, write_eq_inject (v2m_unwrapped plat lines), ← named, pulse_eq]
  by_cases inside : InFrame plat ((emulated.setWidth 32) &&& 0x3ff#32).toNat
  · obtain ⟨i, index, line⟩ := own_line filled inside
    rw [if_pos ((has_iff _).mpr inside)]
    simp only [index, line, Option.map_some]
  · rw [if_neg fun has => inside ((has_iff _).mp has)]
    simp only [no_line lines inside]

theorem message_eq {s : MsiState} (filled : Filled plat s.irq) (irq op : BitVec 32) :
    msiIrqSet plat accepts s irq op =
      some ({ s with driven := ((doorbellsOf (typer plat)).message accepts s.driven irq op).1 },
        ((doorbellsOf (typer plat)).message accepts s.driven irq op).2) := by
  unfold msiIrqSet Doorbells.message
  by_cases inside : InFrame plat irq.toNat
  · obtain ⟨i, index, line⟩ := own_line filled inside
    have valid := (v2m_valid_iff plat s.irq irq).mpr inside
    rw [if_neg (not_not.mpr ((has_iff _).mpr inside)), pulse_eq]
    simp only [valid, Bool.not_true, Bool.false_eq_true, if_false, v2mInjectIrq, index, line, Option.map_some]
    split
    · by_cases done : (irqLinePulse accepts s.driven (⟨irq, ()⟩ : IrqLine Unit)).2 = 0
      · simp [done]
      · simp [done]
    split
    · rfl
    · rfl
  · have invalid : v2mIrqValid (v2m plat s.irq) irq = false :=
      Bool.eq_false_iff.mpr fun valid => inside ((v2m_valid_iff plat s.irq irq).mp valid)
    simp [invalid, has_iff, inside]

theorem write_elsewhere (lines : Fin gicv2mIrqMax → IrqLine Unit) {paddr len : BitVec 64} (data : BitVec 32)
    (other : ¬((len = 2#64 ∨ len = 4#64) ∧ paddr - (v2m plat lines).base = v2mMsiSetspiNs)) :
    v2mWriteFault accepts (v2m plat lines) driven paddr len data = some (driven, false) := by
  unfold v2mWriteFault
  by_cases sized : len ≠ 2#64 ∧ len ≠ 4#64
  · rw [if_pos sized]
  · rw [if_neg sized, if_neg fun doorbell => other ⟨?_, doorbell⟩]
    by_contra neither
    exact sized (not_or.mp neither)

/-- Each call does what it does for one who knows the range. -/
theorem frameStep_eq {s : MsiState} (filled : Filled plat s.irq) (call : FrameCall P) :
    let served := (doorbellsOf (typer plat)).serve (v2m plat s.irq).base s.driven call
    frameStep plat s call = some ({ s with driven := served.1 }, served.2) := by
  cases call with
  | message accepts irq op =>
    simp only [frameStep, message_eq filled, Option.map_some]
    rfl
  | access accepts vcpu emulated paddr len =>
    simp only [frameStep, Doorbells.serve, v2mFaultHandler, Doorbells.access]
    by_cases read : vcpu.fault.read = true
    · simp only [read, if_true, read_eq]
      cases shown : (if len = 4#64 then
        (doorbellsOf (typer plat)).register (paddr - (v2m plat s.irq).base) else none) <;> rfl
    · by_cases doorbell : (len = 2#64 ∨ len = 4#64) ∧ paddr - (v2m plat s.irq).base = v2mMsiSetspiNs
      · simp only [read, Bool.false_eq_true, if_false, if_pos doorbell, write_eq filled _ _ _ doorbell.1 doorbell.2,
          Option.map_some]
        generalize (if (doorbellsOf (typer plat)).Has (emulated.toNat % 1024)
          then Doorbells.pulse accepts s.driven (emulated.toNat % 1024) else (s.driven, true)) = rung
        obtain ⟨driven, handled⟩ := rung
        cases handled <;> rfl
      · simp only [read, Bool.false_eq_true, if_false, if_neg doorbell, write_elsewhere _ _ doorbell, Option.map_some]

end Frame

/-- The guest reads the range of the frame from its type register. With the range in hand, any
accesses of the guest and messages of the backends, in any order, drive the levels and give
the answers that the range says; none of them leaves the array of lines. -/
theorem msi_frame_serves (plat : Plat) (accepts : Registered → BitVec 32 → Bool)
    (reserves : BitVec 64 → BitVec 64 → Bool) (lines : Fin gicv2mIrqMax → IrqLine Unit)
    (registered after : Registered) (t : Gicv2m)
    (init : v2mInit accepts reserves (v2m plat lines) registered = (t, after, 0)) :
    ∃ value, v2mReadFault t (t.base + v2mMsiTyper) 4#64 = some value ∧
      ∀ calls : List (FrameCall P), ∃ s, runCalls (frameStep plat) ⟨t.irq, []⟩ calls =
          some (s, (runSpec ((doorbellsOf value).serve t.base) [] calls).2) ∧
        s.driven = (runSpec ((doorbellsOf value).serve t.base) [] calls).1 := by
  obtain ⟨same, filled, -⟩ := init_lines init
  have frame : v2m plat t.irq = t := by
    obtain ⟨base, size, irq, irqBase, numIrq⟩ := t
    obtain ⟨rfl, rfl, rfl, rfl⟩ := same
    cases plat <;> rfl
  have lined : Filled plat t.irq := by
    intro k below
    rw [frame] at below ⊢
    rw [filled k (same.numIrq ▸ below), ← same.number]
  refine ⟨typer plat, ?_, fun calls => ?_⟩
  · rw [v2mReadFault, if_neg (by decide), if_pos (by bv_omega), ← frame]
    cases plat <;> rfl
  · have simulates : Simulates (frameStep (P := P) plat) ((doorbellsOf (typer plat)).serve t.base)
        fun s driven => s = ⟨t.irq, driven⟩ := by
      rintro _ driven call rfl
      refine ⟨_, ?_, rfl⟩
      have step := frameStep_eq (s := ⟨t.irq, driven⟩) lined call
      rw [frame] at step
      exact step
    obtain ⟨s, ran, rfl⟩ := simulates.run rfl calls
    exact ⟨_, ran, rfl⟩

/-- The frame of `plat/rpi4` in a VM with no other interrupts. -/
def rpi4Frame : Gicv2m × Registered × Int :=
  v2mInit refusesSecond (fun _ _ => true) (v2m .rpi4 fun _ => ⟨0#32, ()⟩) []

def storing : Vcpu Unit := ⟨⟨false, 0x08021040#64, 0xffffffff#64, 150#64, 0x08021040#64, 4#64⟩, true, []⟩

/-- A guest writes 150 to the doorbell, and a backend sends 144. Then the VM refuses to lower the level of
145, and 200 is not in the frame. -/
theorem msi_frame_serves_rpi4 :
    let t := rpi4Frame.1
    ∃ value, v2mReadFault t (t.base + v2mMsiTyper) 4#64 = some value ∧ doorbellsOf value = ⟨144, 32⟩ ∧
      ∃ s, runCalls (frameStep .rpi4) ⟨t.irq, []⟩
          [.access (fun _ => true) storing 150#64 0x08021040#64 4#64, .message (fun _ => true) 144#32 rpcIrqPulse,
            .message id 145#32 rpcIrqSet, .message (fun _ => true) 200#32 rpcIrqSet] =
          some (s, [.access storing.advanceFault .faultHandled, .message .handled, .message .error, .message .none]) ∧
        s.driven = [(145#32, true), (144#32, false), (144#32, true), (150#32, false), (150#32, true)] := by
  have accepted : rpi4Frame.2.2 = 0 := by decide +kernel
  obtain ⟨value, reads, serves⟩ := msi_frame_serves (P := Unit) .rpi4 refusesSecond (fun _ _ => true)
    (fun _ => ⟨0#32, ()⟩) [] rpi4Frame.2.1 rpi4Frame.1 (by rw [← accepted]; rfl)
  have word : value = 0x00900020#32 := by
    have shown : v2mReadFault rpi4Frame.1 (rpi4Frame.1.base + v2mMsiTyper) 4#64 = some 0x00900020#32 := by
      decide +kernel
    exact Option.some.inj (reads.symm.trans shown)
  subst word
  refine ⟨_, reads, by decide, ?_⟩
  obtain ⟨s, ran, drives⟩ := serves [.access (fun _ => true) storing 150#64 0x08021040#64 4#64,
    .message (fun _ => true) 144#32 rpcIrqPulse, .message id 145#32 rpcIrqSet,
    .message (fun _ => true) 200#32 rpcIrqSet]
  have base : rpi4Frame.1.base = 0x08021000#64 := by decide +kernel
  rw [base] at ran drives
  exact ⟨s, ran, drives.trans (by decide +kernel)⟩

end Virtioso.Vmm
