import Virtioso.Proxy.Dispatch

/-! The end of a request, for any message of a backend.

The slot is a field of six bits that another VM writes, and the table of callbacks has
32 entries. The assertion of `ioreq_finish` stops every slot behind the table but the
first.
-/

set_option autoImplicit false

namespace Virtioso.Proxy

open Virtioso.Ring (Msg)
open Irq (Rc)
open Rpc (Fault)

variable {W : Type} {proxy : IoProxy W}

/-- The slot that `handle_mmio` decodes. -/
def mmioSlot (msg : Msg) : BitVec 32 := (rpcMr0MmioSlot.get msg.mr0).setWidth 32

structure Completed (proxy done : IoProxy W) (msg : Msg) (slot : Fin ioacksSize) (callback : IoackFn) : Prop where
  decoded : (mmioSlot msg).toNat = slot.val
  installed : (proxy.ioacks slot).callback = some callback
  called : done.calls = proxy.calls ++ [⟨callback, msg.mr2, (proxy.ioacks slot).cookie⟩]
  cleared : (done.ioacks slot).callback = none
  others : ∀ other, other ≠ slot → done.ioacks other = proxy.ioacks other

/-- The handler stops at an assertion, or completes the request of an entry of the table. -/
def SafeEnd (proxy : IoProxy W) (msg : Msg) : Except Fault (IoProxy W × Rc) → Prop
  | .error fault => fault = .assertion
  | .ok (done, _) => ∃ slot callback, Completed proxy done msg slot callback

section Finish
variable {slot : BitVec 32} {data : BitVec 64}

theorem finish_beyond (beyond : ioacksSize < slot.toNat) : ioreqFinish proxy slot data = .error .assertion := by
  have fails : ¬slot.toNat ≤ ioacksSize := Nat.not_le_of_lt beyond
  rw [ioreqFinish, if_pos fails]
  rfl

theorem finish_behind (behind : slot.toNat = ioacksSize) : ioreqFinish proxy slot data = .error .outOfBounds := by
  have passes : ¬¬slot.toNat ≤ ioacksSize := not_not.mpr (Nat.le_of_eq behind)
  have outside : ¬slot.toNat < ioacksSize := Nat.not_lt_of_le (Nat.le_of_eq behind.symm)
  rw [ioreqFinish, if_neg passes, dif_neg outside]
  rfl

theorem finish_inside (inside : slot.toNat < ioacksSize) : ioreqFinish proxy slot data =
    match (proxy.ioacks ⟨slot.toNat, inside⟩).callback with
    | none => .error .assertion
    | some callback => .ok ({ proxy with
        calls := proxy.calls ++ [⟨callback, data, (proxy.ioacks ⟨slot.toNat, inside⟩).cookie⟩]
        ioacks := Function.update proxy.ioacks ⟨slot.toNat, inside⟩
          { proxy.ioacks ⟨slot.toNat, inside⟩ with callback := none } }, callback.returns) := by
  have passes : ¬¬slot.toNat ≤ ioacksSize := not_not.mpr (Nat.le_of_lt inside)
  rw [ioreqFinish, if_neg passes, dif_pos inside]
  rfl

end Finish

theorem handleMmio_finishes (msg : Msg) : handleMmio proxy qemuOpMmio msg =
    (ioreqFinish proxy (mmioSlot msg) msg.mr2).bind fun (done, err) =>
      .ok (done, if err ≠ 0 then .error else .handled) := by
  rw [handleMmio, if_neg (not_not.mpr rfl)]
  rfl

theorem end_safe_inside (msg : Msg) (inside : (mmioSlot msg).toNat < ioacksSize) :
    SafeEnd proxy msg (handleMmio proxy qemuOpMmio msg) := by
  rw [handleMmio_finishes, finish_inside inside]
  cases installed : (proxy.ioacks ⟨(mmioSlot msg).toNat, inside⟩).callback with
  | none => rfl
  | some callback =>
    refine ⟨⟨_, inside⟩, callback, rfl, installed, rfl, ?_, fun other apart => ?_⟩
    · simp only [Function.update_self]
    · exact Function.update_of_ne apart ..

/-- For every message and every table of callbacks, `handle_mmio` stays in the table and
completes one request, if and only if the slot is not the one right behind the table. -/
theorem handle_mmio_safe_iff (proxy : IoProxy W) (msg : Msg) :
    SafeEnd proxy msg (handleMmio proxy qemuOpMmio msg) ↔ (mmioSlot msg).toNat ≠ ioacksSize := by
  constructor
  · intro safe behind
    rw [handleMmio_finishes, finish_behind behind] at safe
    cases safe
  · intro apart
    rcases Nat.lt_or_gt_of_ne apart with inside | beyond
    · exact end_safe_inside msg inside
    · rw [handleMmio_finishes, finish_beyond beyond]
      rfl

def slotBehind : Msg := ⟨0x800#64, 0#64, 0#64, 0#64⟩

/-- The message names the MMIO operation, and passes the assertion with slot 32. -/
theorem handle_mmio_leaves_table : rpcMr0Op.get slotBehind.mr0 = 0#64 ∧
    ¬∀ (proxy : IoProxy Unit) (msg : Msg), SafeEnd proxy msg (handleMmio proxy qemuOpMmio msg) := by
  have behind : (mmioSlot slotBehind).toNat = ioacksSize := by decide
  refine ⟨by decide, fun safe => ?_⟩
  have escapes := safe ⟨fun _ => ⟨none, 0#64⟩, .initial, Rpc.rpcmsgEventTxqInit, true, [], ()⟩ slotBehind
  rw [handleMmio_finishes, finish_behind behind] at escapes
  cases escapes

end Virtioso.Proxy
