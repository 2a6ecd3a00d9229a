import Mathlib.Data.Fintype.Card
import Mathlib.Data.List.Nodup

/-! Tokens in places: every token is free or in exactly one place, once.

Each place lists the tokens it holds with a label for each. A location function
says where every token is. A token that moves departs from its place and arrives
at another; both keep the lists in agreement with the locations.
-/

set_option autoImplicit false

namespace Virtioso.Foundation

variable {Token Place Label : Type}

/-- The lists of all places agree with the locations of the tokens. -/
structure Occupied (at_ : Token → Option (Place × Label)) (stock : Place → List (Token × Label)) : Prop where
  once : ∀ p, (stock p).Nodup
  located : ∀ p t l, (t, l) ∈ stock p ↔ at_ t = some (p, l)

variable {at_ : Token → Option (Place × Label)} {stock : Place → List (Token × Label)}

theorem occupied_empty : Occupied (fun _ : Token => (none : Option (Place × Label))) fun _ => [] :=
  ⟨fun _ => List.nodup_nil, fun _ _ _ => by simp⟩

theorem Occupied.nodup_tokens (occupied : Occupied at_ stock) (p : Place) :
    ((stock p).map Prod.fst).Nodup := by
  refine List.Nodup.map_on ?_ (occupied.once p)
  rintro ⟨t, l⟩ here ⟨t', l'⟩ there same
  have first := (occupied.located p t l).mp here
  have second := (occupied.located p t' l').mp there
  cases same
  rw [first] at second
  cases second
  rfl

theorem Occupied.mem_tokens (occupied : Occupied at_ stock) {p : Place} {t : Token} :
    t ∈ (stock p).map Prod.fst ↔ ∃ l, at_ t = some (p, l) := by
  simp only [List.mem_map, Prod.exists, exists_and_right, exists_eq_right, occupied.located]

/-- A place lists a token once if the token is there, and not at all otherwise. -/
theorem Occupied.count [DecidableEq Token] [DecidableEq Place] (occupied : Occupied at_ stock)
    (p : Place) (t : Token) :
    ((stock p).map Prod.fst).count t = if (at_ t).map Prod.fst = some p then 1 else 0 := by
  have there : t ∈ (stock p).map Prod.fst ↔ (at_ t).map Prod.fst = some p := by
    rw [occupied.mem_tokens, Option.map_eq_some_iff]
    constructor
    · rintro ⟨l, found⟩
      exact ⟨(p, l), found, rfl⟩
    · rintro ⟨⟨_, l⟩, found, rfl⟩
      exact ⟨l, found⟩
  split
  · next here => exact List.count_eq_one_of_mem (occupied.nodup_tokens p) (there.mpr here)
  · next away => exact List.count_eq_zero_of_not_mem fun member => away (there.mp member)

theorem Occupied.length_lt [Fintype Token] (occupied : Occupied at_ stock) {p : Place} {t : Token}
    (away : ∀ l, at_ t ≠ some (p, l)) : (stock p).length < Fintype.card Token := by
  have missing : t ∉ (stock p).map Prod.fst := fun member => by
    obtain ⟨l, found⟩ := occupied.mem_tokens.mp member
    exact away l found
  have more := (List.nodup_cons.mpr ⟨missing, occupied.nodup_tokens p⟩).length_le_card
  rw [List.length_cons, List.length_map] at more
  exact more

variable [DecidableEq Token] [DecidableEq Place]

theorem Occupied.arrive (occupied : Occupied at_ stock) {t : Token} (free : at_ t = none) (p : Place)
    (l : Label) :
    Occupied (Function.update at_ t (some (p, l))) (Function.update stock p (stock p ++ [(t, l)])) where
  once r := by
    by_cases here : r = p
    · subst here
      rw [Function.update_self]
      refine List.nodup_append.mpr ⟨occupied.once r, List.nodup_singleton _, ?_⟩
      -- a free token is listed nowhere
      rintro ⟨t', l'⟩ member _ new rfl
      obtain ⟨rfl, rfl⟩ := Prod.mk.inj (List.mem_singleton.mp new)
      rw [(occupied.located r _ _).mp member] at free
      cases free
    · rw [Function.update_of_ne here]
      exact occupied.once r
  located r t' l' := by
    by_cases same : t' = t
    · subst same
      have absent : ∀ r, (t', l') ∉ stock r := fun r member => by
        rw [(occupied.located r _ _).mp member] at free
        cases free
      by_cases here : r = p
      · subst here
        simp [absent, eq_comm]
      · simp [here, absent, Ne.symm here]
    · by_cases here : r = p
      · subst here
        simp [same, occupied.located]
      · simp [same, here, occupied.located]

theorem Occupied.depart [DecidableEq Label] (occupied : Occupied at_ stock) {t : Token} {p : Place} {l : Label}
    (here : (t, l) ∈ stock p) :
    Occupied (Function.update at_ t none) (Function.update stock p ((stock p).erase (t, l))) where
  once r := by
    by_cases same : r = p
    · subst same
      rw [Function.update_self]
      exact (occupied.once r).erase _
    · rw [Function.update_of_ne same]
      exact occupied.once r
  located r t' l' := by
    have location := (occupied.located p t l).mp here
    by_cases token : t' = t
    · -- the token was at its place only, and there only once
      subst token
      rw [Function.update_self]
      refine iff_of_false (fun member => ?_) (by simp)
      by_cases same : r = p
      · subst same
        rw [Function.update_self, (occupied.once r).mem_erase_iff] at member
        have found := (occupied.located r _ _).mp member.2
        rw [location] at found
        cases found
        exact member.1 rfl
      · rw [Function.update_of_ne same] at member
        have found := (occupied.located r _ _).mp member
        rw [location] at found
        cases found
        exact same rfl
    · rw [Function.update_of_ne token]
      by_cases same : r = p
      · subst same
        rw [Function.update_self, (occupied.once r).mem_erase_iff, occupied.located]
        simp [token]
      · rw [Function.update_of_ne same, occupied.located]

theorem Occupied.move [DecidableEq Label] (occupied : Occupied at_ stock) {t : Token} {p r : Place}
    {l : Label} (here : (t, l) ∈ stock p) (other : r ≠ p) :
    Occupied (Function.update at_ t (some (r, l)))
      (Function.update (Function.update stock p ((stock p).erase (t, l))) r (stock r ++ [(t, l)])) := by
  have arrived := (occupied.depart here).arrive (Function.update_self ..) r l
  rwa [Function.update_idem, Function.update_of_ne other] at arrived

end Virtioso.Foundation
