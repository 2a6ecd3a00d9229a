import Virtioso.Ring.Delivery

/-! The recorded history only grows.

A call that has been made and a position that has been handed out stay as they were
recorded, so what an element at a position is does not change any more.
-/

set_option autoImplicit false

namespace Virtioso.Ring

variable {ι Store Data Result : Type} [DecidableEq ι]
variable {v : CasVariant} {F : ElementFns Store Data Result} {s t : State ι Store Data Result}

/-- Calls and positions that have been recorded stay as they are. -/
structure Extends (h h' : History Data) : Prop where
  calls : h.calls <+: h'.calls
  handed : ∀ side, h.handed side <+: h'.handed side

theorem Extends.refl (h : History Data) : Extends h h := ⟨List.prefix_rfl, fun _ => List.prefix_rfl⟩

theorem hand_extends (h : History Data) (side : Side) (call : Nat) : Extends h (h.hand side call) := by
  refine ⟨List.prefix_rfl, fun other => ?_⟩
  by_cases same : other = side
  · subst same
    simp only [History.hand, Function.update_self]
    exact List.prefix_append ..
  · rw [hand_of_ne _ _ same]

theorem access_extends {i : ι} (access : Access s i v F t) : Extends s.history t.history := by
  cases access with
  | @acquire call => exact hand_extends s.history call.side (s.mine i).call
  | load | waitMore | waitOver | refuse | proceed | acquireRetry | write | read | abort
    | commitLoad | commitTail | commit | commitRetry => exact ⟨List.prefix_rfl, fun _ => List.prefix_rfl⟩

theorem invoke_extends (s : State ι Store Data Result) (i : ι) (call : Call Data) :
    Extends s.history (s.invoke i call).history := ⟨List.prefix_append .., fun _ => List.prefix_rfl⟩

end Virtioso.Ring
