import Mathlib.Data.Fintype.EquivFin
import Virtioso.Proxy.Session
import Virtioso.Rpc.Conservation

/-! The table of callbacks and the requests in flight.

Each message in flight carries the number of a request, whose slot holds what the
request installed. Requests in flight have different slots; with as many slots as
buffers, a free slot leaves a free buffer.
-/

set_option autoImplicit false

namespace Virtioso.Proxy

open Foundation Virtioso.Ring Rpc

def number (at_ : MsgPtr → Option (Place × Nat)) (msg : MsgPtr) : Option Nat := (at_ msg).map Prod.snd

def slotOf (starts : List IoReq) (n : Nat) : Option Nat := (starts[n]?).map fun req => req.slot.toNat

structure Slots (starts : List IoReq) (ioacks : Fin ioacksSize → Ioack) (flight : MsgPtr → Option Nat) :
    Prop where
  installed : ∀ msg n, flight msg = some n → ∃ req slot, starts[n]? = some req ∧
    req.slot.toNat = slot.val ∧ ioacks slot = req.ioack
  apart : ∀ msg msg' n n', flight msg = some n → flight msg' = some n' →
    slotOf starts n = slotOf starts n' → msg = msg'
  idle : ∀ slot, (ioacks slot).callback ≠ none → ∃ msg n, flight msg = some n ∧
    slotOf starts n = some slot.val

def Unused (starts : List IoReq) (flight : MsgPtr → Option Nat) (slot : Fin ioacksSize) : Prop :=
  ∀ msg n, flight msg = some n → slotOf starts n ≠ some slot.val

section Locations
variable {at_ : MsgPtr → Option (Place × Nat)} {msg : MsgPtr} {p q : Place} {n : Nat}

theorem number_eq (here : at_ msg = some (p, n)) : number at_ msg = some n := by
  rw [number, here]
  rfl

theorem number_iff : number at_ msg = some n ↔ ∃ p, at_ msg = some (p, n) := by
  rw [number, Option.map_eq_some_iff]
  constructor
  · rintro ⟨⟨p, _⟩, found, rfl⟩
    exact ⟨p, found⟩
  · rintro ⟨p, found⟩
    exact ⟨(p, n), found, rfl⟩

theorem number_move (here : at_ msg = some (p, n)) :
    number (Function.update at_ msg (some (q, n))) = number at_ := by
  funext other
  by_cases same : other = msg
  · subst same
    rw [number, Function.update_self, number_eq here]
    rfl
  · rw [number, number, Function.update_of_ne same]

theorem number_update (target : Option (Place × Nat)) :
    number (Function.update at_ msg target) = Function.update (number at_) msg (target.map Prod.snd) := by
  funext other
  by_cases same : other = msg
  · subst same
    rw [number, Function.update_self, Function.update_self]
  · rw [number, Function.update_of_ne same, Function.update_of_ne same, number]

end Locations

section Table
variable {starts : List IoReq} {ioacks : Fin ioacksSize → Ioack} {flight : MsgPtr → Option Nat}
  {slot : Fin ioacksSize} {req : IoReq} {msg : MsgPtr} {n : Nat}

theorem slotOf_eq (started : starts[n]? = some req) : slotOf starts n = some req.slot.toNat := by
  rw [slotOf, started]
  rfl

theorem slots_initial : Slots [] (fun _ => ⟨none, 0#64⟩) fun _ => none where
  installed _ _ found := by cases found
  apart _ _ _ _ found := by cases found
  idle _ set := absurd rfl set

theorem Slots.callback_none (slots : Slots starts ioacks flight) (unused : Unused starts flight slot) :
    (ioacks slot).callback = none := by
  by_contra set
  obtain ⟨msg, n, found, here⟩ := slots.idle slot set
  exact unused msg n found here

/-- 32 messages in flight would use all 32 slots. -/
theorem Slots.room (slots : Slots starts ioacks flight) (unused : Unused starts flight slot) :
    ∃ msg, flight msg = none := by
  by_contra all
  rw [not_exists] at all
  have carried : ∀ msg, ∃ n, flight msg = some n := fun msg => Option.ne_none_iff_exists'.mp (all msg)
  choose n flies using carried
  choose req used started same _ using fun msg => slots.installed msg (n msg) (flies msg)
  have value : ∀ msg, slotOf starts (n msg) = some (used msg).val := fun msg => by
    rw [slotOf_eq (started msg), same]
  have injective : Function.Injective used := fun msg msg' equal =>
    slots.apart msg msg' _ _ (flies msg) (flies msg') (by rw [value, value, equal])
  have surjective := ((Fintype.bijective_iff_injective_and_card used).mpr ⟨injective, rfl⟩).2
  obtain ⟨msg, here⟩ := surjective slot
  exact unused msg (n msg) (flies msg) (by rw [value, here])

theorem Slots.older (slots : Slots starts ioacks flight) (found : flight msg = some n) :
    n < starts.length := by
  obtain ⟨req, _, started, _⟩ := slots.installed msg n found
  exact (List.getElem?_eq_some_iff.mp started).1

theorem slotOf_append (older : n < starts.length) : slotOf (starts ++ [req]) n = slotOf starts n := by
  rw [slotOf, List.getElem?_append_left older, slotOf]

theorem Slots.start (slots : Slots starts ioacks flight) (free : flight msg = none)
    (unused : Unused starts flight slot) (same : req.slot.toNat = slot.val) :
    Slots (starts ++ [req]) (Function.update ioacks slot req.ioack)
      (Function.update flight msg (some starts.length)) := by
  have newest : slotOf (starts ++ [req]) starts.length = some slot.val := by
    rw [slotOf_eq (List.getElem?_concat_length ..), same]
  -- a message in flight is the new one, or flew before on another slot
  have split : ∀ other n, Function.update flight msg (some starts.length) other = some n →
      (other = msg ∧ n = starts.length) ∨ (other ≠ msg ∧ flight other = some n) := by
    intro other n found
    by_cases new : other = msg
    · subst new
      rw [Function.update_self, Option.some.injEq] at found
      exact .inl ⟨rfl, found.symm⟩
    · rw [Function.update_of_ne new] at found
      exact .inr ⟨new, found⟩
  have distinct : ∀ other n, flight other = some n → slotOf (starts ++ [req]) n ≠ some slot.val :=
    fun other n found => by
      rw [slotOf_append (slots.older found)]
      exact unused other n found
  refine ⟨fun other n found => ?_, fun other other' n n' found found' equal => ?_, fun used set => ?_⟩
  · rcases split other n found with ⟨rfl, rfl⟩ | ⟨_, old⟩
    · exact ⟨req, slot, List.getElem?_concat_length .., same, Function.update_self ..⟩
    · obtain ⟨older, used, started, here, holds⟩ := slots.installed other n old
      refine ⟨older, used, by rw [List.getElem?_append_left (slots.older old), started], here, ?_⟩
      rw [Function.update_of_ne, holds]
      rintro rfl
      exact unused other n old (by rw [slotOf_eq started, here])
  · rcases split other n found with ⟨rfl, rfl⟩ | ⟨_, old⟩ <;>
      rcases split other' n' found' with ⟨rfl, rfl⟩ | ⟨_, old'⟩
    · rfl
    · exact absurd (equal.symm.trans newest) (distinct other' n' old')
    · exact absurd (equal.trans newest) (distinct other n old)
    · rw [slotOf_append (slots.older old), slotOf_append (slots.older old')] at equal
      exact slots.apart other other' n n' old old' equal
  · by_cases here : used = slot
    · subst here
      exact ⟨msg, starts.length, Function.update_self .., newest⟩
    · rw [Function.update_of_ne here] at set
      obtain ⟨other, n, found, on⟩ := slots.idle used set
      refine ⟨other, n, ?_, by rw [slotOf_append (slots.older found), on]⟩
      rw [Function.update_of_ne, found]
      rintro rfl
      rw [free] at found
      cases found

theorem Slots.finish (slots : Slots starts ioacks flight) (found : flight msg = some n)
    (here : slotOf starts n = some slot.val) (cookie : Cookie) :
    Slots starts (Function.update ioacks slot ⟨none, cookie⟩) (Function.update flight msg none) := by
  have before : ∀ other n', Function.update flight msg none other = some n' →
      other ≠ msg ∧ flight other = some n' := by
    intro other n' flies
    by_cases same : other = msg
    · subst same
      rw [Function.update_self] at flies
      cases flies
    · rw [Function.update_of_ne same] at flies
      exact ⟨same, flies⟩
  refine ⟨fun other n' flies => ?_, fun other other' n' n'' flies flies' equal => ?_, fun used set => ?_⟩
  · obtain ⟨different, old⟩ := before other n' flies
    obtain ⟨req, used, started, at_, holds⟩ := slots.installed other n' old
    -- two messages in flight are never on one slot
    refine ⟨req, used, started, at_, ?_⟩
    rw [Function.update_of_ne, holds]
    rintro rfl
    exact different (slots.apart other msg n' n old found (by rw [slotOf_eq started, at_, here]))
  · exact slots.apart other other' n' n'' (before other n' flies).2 (before other' n'' flies').2 equal
  · by_cases same : used = slot
    · subst same
      rw [Function.update_self] at set
      exact absurd rfl set
    · rw [Function.update_of_ne same] at set
      obtain ⟨other, n', flies, on⟩ := slots.idle used set
      refine ⟨other, n', ?_, on⟩
      rw [Function.update_of_ne, flies]
      rintro rfl
      rw [found] at flies
      cases flies
      rw [here, Option.some.injEq] at on
      exact same (Fin.ext on.symm)

end Table

end Virtioso.Proxy
