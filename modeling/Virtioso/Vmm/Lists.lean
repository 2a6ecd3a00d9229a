import Mathlib.Data.List.Basic
import Mathlib.Tactic.Common

/-! Linked lists of `utils/list.h` and `list.c`, as used by the reservation registries.

A comparison function answers whether an element differs from a key. The key is
what the registries build on the stack, with the compared fields only.
-/

set_option autoImplicit false

namespace Virtioso.Vmm

variable {α κ : Type}

/-- `list_item`: the first element that does not differ from the key. -/
def listItem (l : List α) (key : κ) (cmp : α → κ → Bool) : Option α :=
  l.find? fun item => !cmp item key

/-- `list_append`: the list after the call and its return code `err`. -/
def listAppend (err : Int) (l : List α) (data : α) : List α × Int :=
  if err ≠ 0 then (l, err) else (l ++ [data], 0)

/-- `list_remove`: unlink the first element that does not differ from the key. -/
def listRemove (l : List α) (key : κ) (cmp : α → κ → Bool) : List α × Int :=
  if l.any fun item => !cmp item key then (l.eraseP fun item => !cmp item key, 0) else (l, -1)

variable {l : List α} {key : κ} {cmp : α → κ → Bool}

/-- What `list_item` finds is what `list_remove` unlinks: the list is around it. -/
theorem listItem_split {item : α} (found : listItem l key cmp = some item) :
    ∃ before after, l = before ++ item :: after ∧ (listRemove l key cmp).1 = before ++ after ∧
      cmp item key = false := by
  unfold listItem at found
  obtain ⟨same, before, after, shape, others⟩ := List.find?_eq_some_iff_append.mp found
  refine ⟨before, after, shape, ?_, by simpa using same⟩
  have some_ : (l.any fun item => !cmp item key) = true := List.any_eq_true.mpr
    ⟨item, by rw [shape]; simp, same⟩
  unfold listRemove
  rw [if_pos some_, shape, List.eraseP_append_right _ fun x inside => by simpa using others x inside]
  simp [same]

theorem listRemove_cases (l : List α) (key : κ) (cmp : α → κ → Bool) :
    (listRemove l key cmp).1 = l ∨ ∃ item before after, l = before ++ item :: after ∧
      (listRemove l key cmp).1 = before ++ after ∧ cmp item key = false := by
  cases found : listItem l key cmp with
  | none =>
    have differs : ¬(l.any fun item => !cmp item key) = true := by
      rw [List.any_eq_true]
      rintro ⟨item, inside, same⟩
      exact List.find?_eq_none.mp found item inside same
    left
    rw [listRemove, if_neg differs]
  | some item =>
    obtain ⟨before, after, shape, removed, same⟩ := listItem_split found
    exact .inr ⟨item, before, after, shape, removed, same⟩

end Virtioso.Vmm
