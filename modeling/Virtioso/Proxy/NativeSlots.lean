import Virtioso.Proxy.Session

/-! Slots of native threads, as `ioreq_native_slot` hands them out.

The slot of a thread is kept in thread-local storage; the next free one is a plain
global that all threads read, read again and write. Two threads that read it before
either has written it get one slot; a thread whose check has passed does not see that
another one has taken the last.
-/

set_option autoImplicit false

namespace Virtioso.Proxy

open Foundation

/-- `SEL4_MMIO_NATIVE_BASE`. -/
abbrev sel4MmioNativeBase : Nat := 16

/-- Control points of `ioreq_native_slot`, each before one access to `free_native_slot`. -/
inductive SlotPoint where
  | idle
  | check
  | load
  /-- with the value read for the increment -/
  | store (value : Nat)
  deriving DecidableEq, Repr

def SlotPoint.stores : SlotPoint → Bool
  | .store _ => true
  | _ => false

/-- `free_native_slot`, and by thread the slot in `ioreq_native_data`, 0 for none, and the
control point; with what the calls returned, oldest first. -/
structure NativeSlots (T : Type) where
  freeNativeSlot : Nat
  slot : T → Nat
  point : T → SlotPoint
  returned : List (T × Int)

inductive SlotAction (T : Type) where
  /-- with the return code of `sync_sem_new` -/
  | call (t : T) (semNew : Int)
  | access (t : T)
  deriving DecidableEq, Repr

variable {T : Type}

def NativeSlots.initial : NativeSlots T := ⟨sel4MmioNativeBase, fun _ => 0, fun _ => .idle, []⟩

section Steps
variable [DecidableEq T]

def NativeSlots.put (s : NativeSlots T) (t : T) (p : SlotPoint) : NativeSlots T :=
  { s with point := Function.update s.point t p }

def NativeSlots.answer (s : NativeSlots T) (t : T) (result : Int) : NativeSlots T :=
  { s.put t .idle with returned := s.returned ++ [(t, result)] }

/-- The write of the increment, and what follows it. -/
def NativeSlots.take (s : NativeSlots T) (t : T) (value : Nat) : NativeSlots T :=
  { s with freeNativeSlot := value + 1, slot := Function.update s.slot t value }.answer t value

/-- The next access of thread `t` in its call. -/
def NativeSlots.access (s : NativeSlots T) (t : T) : Option (NativeSlots T) :=
  match s.point t with
  | .idle => none
  | .check => if s.freeNativeSlot ≥ ioacksSize then some (s.answer t (-1)) else some (s.put t .load)
  | .load => some (s.put t (.store s.freeNativeSlot))
  | .store value => some (s.take t value)

def NativeSlots.step (s : NativeSlots T) : SlotAction T → Option (NativeSlots T)
  | .call t semNew =>
      if s.point t ≠ .idle then none
      else if s.slot t ≠ 0 then some (s.answer t (s.slot t))
      else if semNew ≠ 0 then some (s.answer t (-1))
      else some (s.put t .check)
  | .access t => s.access t

end Steps

/-- What the calls have returned: a thread keeps the slot it got, no other thread gets it, it is
one for native threads, and the slots that are used up are those that were got. -/
structure UniqueSlots (s : NativeSlots T) : Prop where
  stable : ∀ before t slot after, s.returned = before ++ (t, slot) :: after → 0 ≤ slot →
    ∀ later, (t, later) ∈ after → later = slot
  apart : ∀ t u slot, (t, slot) ∈ s.returned → (u, slot) ∈ s.returned → 0 ≤ slot → t = u
  range : ∀ t slot, (t, slot) ∈ s.returned → 0 ≤ slot → sel4MmioNativeBase ≤ slot ∧ slot < ioacksSize
  consumed : ∀ n : Nat, sel4MmioNativeBase ≤ n ∧ n < s.freeNativeSlot ↔ ∃ t, (t, (n : Int)) ∈ s.returned

/-- When a thread reads the variable for its increment, a slot is still free, and no other
thread has read it for its own increment and not written it yet. -/
def IncrementsAlone (s : NativeSlots T) : SlotAction T → Prop
  | .call _ _ => True
  | .access t => s.point t = .load →
      s.freeNativeSlot < ioacksSize ∧ ∀ u, u ≠ t → (s.point u).stores = false

instance [Fintype T] [DecidableEq T] (s : NativeSlots T) : (a : SlotAction T) → Decidable (IncrementsAlone s a)
  | .call _ _ => .isTrue trivial
  | .access _ => inferInstanceAs (Decidable (_ → _ ∧ _))

structure SlotInv (s : NativeSlots T) : Prop where
  base : sel4MmioNativeBase ≤ s.freeNativeSlot ∧ s.freeNativeSlot ≤ ioacksSize
  stored : ∀ t value, s.point t = .store value → value = s.freeNativeSlot ∧ s.freeNativeSlot < ioacksSize ∧
    ∀ u, (s.point u).stores = true → u = t
  busy : ∀ t, s.point t ≠ .idle → s.slot t = 0
  held : ∀ t, s.slot t ≠ 0 → sel4MmioNativeBase ≤ s.slot t ∧ s.slot t < s.freeNativeSlot ∧
    (t, (s.slot t : Int)) ∈ s.returned
  alone : ∀ t u, s.slot t ≠ 0 → s.slot t = s.slot u → t = u
  used : ∀ n, sel4MmioNativeBase ≤ n → n < s.freeNativeSlot → ∃ t, s.slot t = n
  record : ∀ t slot, (t, slot) ∈ s.returned → 0 ≤ slot → slot = s.slot t ∧ s.slot t ≠ 0
  stable : ∀ before t slot after, s.returned = before ++ (t, slot) :: after → 0 ≤ slot →
    ∀ later, (t, later) ∈ after → later = slot

theorem slotInv_initial : SlotInv (NativeSlots.initial : NativeSlots T) where
  base := ⟨Nat.le_refl _, (by decide : sel4MmioNativeBase ≤ ioacksSize)⟩
  stored _ _ stores := by cases stores
  busy _ busy := absurd rfl busy
  held _ some_ := absurd rfl some_
  alone _ _ some_ := absurd rfl some_
  used n above below := absurd above (Nat.not_le_of_lt below)
  record _ _ inside := by cases inside
  stable before t slot after shape := by cases before <;> cases shape

theorem SlotInv.unique {s : NativeSlots T} (inv : SlotInv s) : UniqueSlots s where
  stable := inv.stable
  apart t u slot mine yours positive := by
    have own := inv.record t slot mine positive
    have other := inv.record u slot yours positive
    have same : (s.slot t : Int) = s.slot u := own.1.symm.trans other.1
    exact inv.alone t u own.2 (Int.ofNat_inj.mp same)
  range t slot inside positive := by
    obtain ⟨rfl, some_⟩ := inv.record t slot inside positive
    have bounds := inv.held t some_
    have top := inv.base.2
    omega
  consumed n := by
    constructor
    · rintro ⟨above, below⟩
      obtain ⟨t, rfl⟩ := inv.used n above below
      have some_ : s.slot t ≠ 0 := by
        have base : 0 < sel4MmioNativeBase := by decide
        omega
      exact ⟨t, (inv.held t some_).2.2⟩
    · rintro ⟨t, inside⟩
      obtain ⟨same, some_⟩ := inv.record t n inside (Int.natCast_nonneg n)
      obtain rfl := Int.ofNat_inj.mp same
      exact ⟨(inv.held t some_).1, (inv.held t some_).2.1⟩

section Steps
variable [DecidableEq T] {s : NativeSlots T} {t : T}

theorem put_point (s : NativeSlots T) (t u : T) (p : SlotPoint) :
    (s.put t p).point u = if u = t then p else s.point u := Function.update_apply ..

theorem take_point (s : NativeSlots T) (t u : T) (value : Nat) :
    (s.take t value).point u = if u = t then .idle else s.point u := Function.update_apply ..

theorem take_slot (s : NativeSlots T) (t u : T) (value : Nat) :
    (s.take t value).slot u = if u = t then value else s.slot u := Function.update_apply ..

theorem take_returned (s : NativeSlots T) (t : T) (value : Nat) :
    (s.take t value).returned = s.returned ++ [(t, (value : Int))] := rfl

theorem SlotInv.move (inv : SlotInv s) {p : SlotPoint} (busy : p ≠ .idle → s.slot t = 0)
    (stored : ∀ u value, (s.put t p).point u = .store value → value = s.freeNativeSlot ∧ s.freeNativeSlot < ioacksSize ∧
      ∀ w, ((s.put t p).point w).stores = true → w = u) : SlotInv (s.put t p) where
  base := inv.base
  stored := stored
  busy u active := by
    rw [put_point] at active
    split at active
    · next same =>
      subst same
      exact busy active
    · exact inv.busy u active
  held := inv.held
  alone := inv.alone
  used := inv.used
  record := inv.record
  stable := inv.stable

theorem SlotInv.put (inv : SlotInv s) {p : SlotPoint} (quiet : p.stores = false)
    (busy : p ≠ .idle → s.slot t = 0) : SlotInv (s.put t p) := by
  have elsewhere : ∀ u, ((s.put t p).point u).stores = true → (s.put t p).point u = s.point u := by
    intro u stores
    rw [put_point] at stores ⊢
    split at stores
    · rw [quiet] at stores
      cases stores
    · next other => exact if_neg other
  apply inv.move busy
  intro u value stores
  have same : s.point u = .store value := by
    rw [← elsewhere u (by rw [stores]; rfl), stores]
  obtain ⟨current, room, only⟩ := inv.stored u value same
  refine ⟨current, room, fun w stores' => only w ?_⟩
  rwa [elsewhere w stores'] at stores'

theorem SlotInv.load (inv : SlotInv s) (loads : s.point t = .load) (room : s.freeNativeSlot < ioacksSize)
    (only : ∀ u, u ≠ t → (s.point u).stores = false) : SlotInv (s.put t (.store s.freeNativeSlot)) := by
  have own : ∀ u, ((s.put t (.store s.freeNativeSlot)).point u).stores = true → u = t := by
    intro u stores
    by_contra other
    rw [put_point, if_neg other, only u other] at stores
    cases stores
  apply inv.move fun _ => inv.busy t (by rw [loads]; nofun)
  intro u value stores
  obtain rfl := own u (by rw [stores]; rfl)
  rw [put_point, if_pos rfl] at stores
  cases stores
  exact ⟨rfl, room, own⟩

omit [DecidableEq T] in
theorem stable_concat {returned : List (T × Int)} {result : Int}
    (stable : ∀ before u slot after, returned = before ++ (u, slot) :: after → 0 ≤ slot →
      ∀ later, (u, later) ∈ after → later = slot)
    (own : ∀ slot, (t, slot) ∈ returned → 0 ≤ slot → result = slot) {before after : List (T × Int)} {u : T}
    {slot : Int} (shape : returned ++ [(t, result)] = before ++ (u, slot) :: after) (positive : 0 ≤ slot)
    {later : Int} (inside : (u, later) ∈ after) : later = slot := by
  obtain rfl | ⟨front, last, rfl⟩ := List.eq_nil_or_concat after
  · cases inside
  · have split : returned ++ [(t, result)] = (before ++ (u, slot) :: front) ++ [last] := by
      rw [shape, List.append_assoc, List.cons_append]
      simp
    obtain ⟨old, new⟩ := List.append_inj' split rfl
    obtain rfl := (List.cons.inj new).1
    rcases List.mem_append.mp (by simpa using inside : (u, later) ∈ front ++ [(t, result)]) with earlier | now
    · exact stable before u slot front old positive later earlier
    · cases List.mem_singleton.mp now
      exact own slot (by rw [old]; simp) positive

/-- A call returns the slot of its thread, or fails while the thread has none. -/
theorem SlotInv.answer (inv : SlotInv s) {result : Int} (own : 0 ≤ result → result = s.slot t ∧ s.slot t ≠ 0)
    (failed : ¬0 ≤ result → s.slot t = 0) : SlotInv (s.answer t result) := by
  have put : SlotInv (s.put t .idle) := inv.put rfl nofun
  refine ⟨put.base, put.stored, put.busy, fun u some_ => ?_, put.alone, put.used, fun u slot inside positive => ?_,
    fun before u slot after shape positive later inside => ?_⟩
  · obtain ⟨above, below, given⟩ := inv.held u some_
    exact ⟨above, below, List.mem_append_left _ given⟩
  · rcases List.mem_append.mp inside with old | new
    · exact inv.record u slot old positive
    · cases List.mem_singleton.mp new
      exact own positive
  · refine stable_concat inv.stable (fun slot old positive => ?_) shape positive inside
    -- the thread has a slot, so the call does not fail
    obtain ⟨same, some_⟩ := inv.record t slot old positive
    by_cases succeeds : 0 ≤ result
    · rw [same]
      exact (own succeeds).1
    · exact absurd (failed succeeds) some_

theorem SlotInv.store (inv : SlotInv s) {value : Nat} (stores : s.point t = .store value) :
    SlotInv (s.take t value) := by
  obtain ⟨rfl, room, only⟩ := inv.stored t value stores
  have base : 16 ≤ s.freeNativeSlot := inv.base.1
  have none_ : s.slot t = 0 := inv.busy t (by rw [stores]; nofun)
  have mine : (s.take t s.freeNativeSlot).slot t = s.freeNativeSlot := by rw [take_slot, if_pos rfl]
  have theirs : ∀ u, u ≠ t → (s.take t s.freeNativeSlot).slot u = s.slot u := by
    intro u other
    rw [take_slot, if_neg other]
  -- a slot that is in use lies below the free one
  have before : ∀ u, s.slot u ≠ 0 → u ≠ t ∧ s.slot u < s.freeNativeSlot := by
    intro u some_
    refine ⟨?_, (inv.held u some_).2.1⟩
    rintro rfl
    exact some_ none_
  constructor
  case base => exact ⟨Nat.le_succ_of_le base, room⟩
  case stored =>
    intro u value stores
    rw [take_point] at stores
    split at stores
    · cases stores
    · next other => exact absurd (only u (by rw [stores]; rfl)) other
  case busy =>
    intro u active
    rw [take_point] at active
    split at active
    · exact absurd rfl active
    · next other => exact (theirs u other).trans (inv.busy u active)
  case held =>
    intro u some_
    rw [take_returned]
    by_cases same : u = t
    · subst same
      rw [mine]
      exact ⟨base, Nat.lt_succ_self _, List.mem_append_right _ (List.mem_singleton_self _)⟩
    · rw [theirs u same] at some_ ⊢
      obtain ⟨above, below, given⟩ := inv.held u some_
      exact ⟨above, Nat.lt_succ_of_lt below, List.mem_append_left _ given⟩
  case alone =>
    intro u w some_ same
    by_cases first : u = t
    · by_cases second : w = t
      · rw [first, second]
      · rw [first, mine, theirs w second] at same
        have below := (before w (by omega)).2
        omega
    · rw [theirs u first] at some_ same
      by_cases second : w = t
      · rw [second, mine] at same
        have below := (before u some_).2
        omega
      · rw [theirs w second] at same
        exact inv.alone u w some_ same
  case used =>
    intro n above below
    rcases Nat.lt_succ_iff_lt_or_eq.mp below with old | new
    · obtain ⟨u, here⟩ := inv.used n above old
      have some_ : s.slot u ≠ 0 := by
        have positive : 16 ≤ n := above
        omega
      exact ⟨u, (theirs u (before u some_).1).trans here⟩
    · exact ⟨t, mine.trans new.symm⟩
  case record =>
    intro u slot inside positive
    rw [take_returned] at inside
    rcases List.mem_append.mp inside with old | new
    · obtain ⟨same, some_⟩ := inv.record u slot old positive
      rw [theirs u (before u some_).1]
      exact ⟨same, some_⟩
    · cases List.mem_singleton.mp new
      rw [mine]
      exact ⟨rfl, by omega⟩
  case stable =>
    intro before' u slot after shape positive later inside
    refine stable_concat inv.stable (fun slot old positive => ?_) shape positive inside
    exact absurd none_ (inv.record t slot old positive).2

theorem SlotInv.step (inv : SlotInv s) {a : SlotAction T} {next : NativeSlots T} (alone : IncrementsAlone s a)
    (edge : s.step a = some next) : SlotInv next := by
  cases a with
  | call t semNew =>
    simp only [NativeSlots.step] at edge
    split at edge
    · cases edge
    split at edge
    · next some_ =>
      cases edge
      exact inv.answer (fun _ => ⟨rfl, some_⟩) fun negative => absurd (Int.natCast_nonneg _) negative
    next none_ =>
    rw [not_not] at none_
    split at edge
    · cases edge
      exact inv.answer (fun positive => absurd positive (by decide)) fun _ => none_
    · cases edge
      exact inv.put rfl fun _ => none_
  | access t =>
    have next_ : s.access t = some next := edge
    unfold NativeSlots.access at next_
    split at next_
    · cases next_
    · next checks =>
      have none_ : s.slot t = 0 := inv.busy t (by rw [checks]; nofun)
      split at next_
      · cases next_
        exact inv.answer (fun positive => absurd positive (by decide)) fun _ => none_
      · cases next_
        exact inv.put rfl fun _ => none_
    · next loads =>
      cases next_
      obtain ⟨room, only⟩ := alone loads
      exact inv.load loads room only
    · next value stores =>
      cases next_
      exact inv.store stores

theorem step_store {value : Nat} (stores : s.point t = .store value) : s.step (.access t) = some (s.take t value) := by
  simp only [NativeSlots.step, NativeSlots.access, stores]

/-- A thread that reads the variable while another one is between its read and its write, or
with no slot left, ends up with the slot of the other one, or with none of the table. -/
theorem SlotInv.race (inv : SlotInv s) {a : SlotAction T} (disturbed : ¬IncrementsAlone s a) :
    ∃ rest next, execute NativeSlots.step s (a :: rest) = some next ∧ ¬UniqueSlots next := by
  cases a with
  | call t semNew => exact absurd trivial disturbed
  | access t =>
    obtain ⟨loads, crowded⟩ : s.point t = .load ∧
        ¬(s.freeNativeSlot < ioacksSize ∧ ∀ u, u ≠ t → (s.point u).stores = false) := by
      simpa only [IncrementsAlone, Classical.not_imp] using disturbed
    have first : s.step (.access t) = some (s.put t (.store s.freeNativeSlot)) := by
      simp only [NativeSlots.step, NativeSlots.access, loads]
    have second : (s.put t (.store s.freeNativeSlot)).step (.access t) =
        some ((s.put t (.store s.freeNativeSlot)).take t s.freeNativeSlot) := step_store (Function.update_self ..)
    by_cases room : s.freeNativeSlot < ioacksSize
    · obtain ⟨u, other, stores⟩ : ∃ u, u ≠ t ∧ (s.point u).stores = true := by
        by_contra none_
        simp only [not_exists, not_and, Bool.not_eq_true] at none_
        exact crowded ⟨room, none_⟩
      obtain ⟨value, holds⟩ : ∃ value, s.point u = .store value := by
        cases point : s.point u with
        | store value => exact ⟨value, rfl⟩
        | _ =>
          rw [point] at stores
          cases stores
      obtain ⟨rfl, _, _⟩ := inv.stored u value holds
      -- both have read the same value
      have third := step_store (s := (s.put t (.store s.freeNativeSlot)).take t s.freeNativeSlot)
        (by rw [take_point, if_neg other, put_point, if_neg other, holds])
      refine ⟨[.access t, .access u], _,
        by simp only [execute, first, second, third, Option.bind_some]; rfl, fun unique => ?_⟩
      have same := unique.apart t u s.freeNativeSlot (by simp [take_returned]) (by simp [take_returned])
        (Int.natCast_nonneg _)
      exact other same.symm
    · refine ⟨[.access t], _, by simp only [execute, first, second, Option.bind_some]; rfl, fun unique => ?_⟩
      have bounds := unique.range t s.freeNativeSlot (by simp [take_returned]) (Int.natCast_nonneg _)
      exact room (by omega)

/-- While every thread increments the variable alone, with a slot left, the slots are unique. The
first increment that is not alone leads to a slot that two threads have, or that is none of
the table. -/
theorem native_slots_unique_iff_alone (s : NativeSlots T)
    (reached : Reach NativeSlots.step IncrementsAlone .initial s) :
    UniqueSlots s ∧ ∀ a, ¬IncrementsAlone s a →
      ∃ rest next, execute NativeSlots.step s (a :: rest) = some next ∧ ¬UniqueSlots next := by
  have inv : SlotInv s := reached.invariant slotInv_initial fun _ _ _ inv alone edge => inv.step alone edge
  exact ⟨inv.unique, fun _ disturbed => inv.race disturbed⟩

end Steps

def inTurn : List (SlotAction Bool) :=
  [.call true 1, .call true 0, .access true, .call false 0, .access true, .access true, .access false, .access false,
    .access false, .call true 0]

theorem native_slots_unique_in_turn : ∃ s : NativeSlots Bool,
    execute (guarded NativeSlots.step IncrementsAlone) .initial inTurn = some s ∧
      s.returned = [(true, -1), (true, 16), (false, 17), (true, 16)] ∧ UniqueSlots s := by
  obtain ⟨s, ran, calls⟩ : ∃ s : NativeSlots Bool,
      execute (guarded NativeSlots.step IncrementsAlone) .initial inTurn = some s ∧
        s.returned = [(true, -1), (true, 16), (false, 17), (true, 16)] := ⟨_, rfl, rfl⟩
  exact ⟨s, ran, calls, (native_slots_unique_iff_alone s (.of_execute ran)).1⟩

def alternating : List (SlotAction Bool) :=
  [.call true 0, .call false 0, .access true, .access false, .access true, .access false, .access true, .access false]

/-- Both threads get slot 16. -/
theorem native_slots_not_unique :
    ¬∀ s : NativeSlots Bool, Reach NativeSlots.step anyStep .initial s → UniqueSlots s := by
  intro claim
  obtain ⟨s, ran, calls⟩ : ∃ s : NativeSlots Bool, execute (guarded NativeSlots.step anyStep) .initial alternating =
      some s ∧ s.returned = [(true, 16), (false, 16)] := ⟨_, rfl, rfl⟩
  have same := (claim s (.of_execute ran)).apart true false 16 (by rw [calls]; decide) (by rw [calls]; decide) (by decide)
  cases same

end Virtioso.Proxy
