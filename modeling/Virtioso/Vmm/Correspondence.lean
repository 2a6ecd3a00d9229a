import Mathlib.Data.List.Nodup
import Virtioso.Vmm.MmioReservations

/-! The MMIO registry and the reservations of the VM, in one-to-one correspondence.

A call keeps the correspondence, and changes nothing when it fails, exactly if no
external call fails after a first one has succeeded: neither function undoes the
first one.
-/

set_option autoImplicit false

namespace Virtioso.Vmm

open Foundation

variable {Proxy Handle : Type} [DecidableEq Proxy] [DecidableEq Handle]
variable {s : MmioState Proxy Handle} {ext : MmioExternal Handle} {region : Region Proxy}

theorem Kept.unchanged {call : MmioCall Proxy Handle} (matched : Corresponds s) (same : s.after call = s) :
    Kept s call where
  corresponds := by rwa [same]
  error _ := same
  released made live gone := by
    rw [same] at gone
    exact absurd live gone

/-! ### Assignment -/

theorem assign_refused (none_ : ext.reserved = none) : s.perform (.assign ext region) = (s, -1) := by
  simp [MmioState.perform, mmioResAssign, none_]

theorem assign_reserved {res : Handle} (reserved : ext.reserved = some res) :
    s.perform (.assign ext region) =
      if ext.allocated = true ∧ ext.appended = 0 then
        (⟨s.mmioReservations ++ [⟨region, res⟩], s.live ++ [(res, region)]⟩, 0)
      else (⟨s.mmioReservations, s.live ++ [(res, region)]⟩, if ext.allocated then ext.appended else -1) := by
  simp only [MmioState.perform, mmioResAssign, reserved, listAppend]
  cases ext.allocated with
  | false => simp
  | true =>
    by_cases appended : ext.appended = 0
    · simp [appended]
    · simp [appended]

omit [DecidableEq Proxy] [DecidableEq Handle] in
theorem Corresponds.assign {res : Handle} (matched : Corresponds s) (new : res ∉ s.live.map Prod.fst) :
    Corresponds ⟨s.mmioReservations ++ [⟨region, res⟩], s.live ++ [(res, region)]⟩ := by
  obtain ⟨distinct, same⟩ := matched
  constructor
  · rw [List.map_append]
    refine distinct.append (List.nodup_singleton _) ?_
    simpa using new
  · rw [List.map_append]
    exact same.append_right _

theorem kept_assign (matched : Corresponds s) (new : Fresh s (.assign ext region)) :
    Kept s (.assign ext region) ↔ Undisturbed s (.assign ext region) := by
  cases reserved : ext.reserved with
  | none =>
    have same : s.after (.assign ext region) = s := by
      unfold MmioState.after
      rw [assign_refused reserved]
    exact ⟨fun _ => by simp [Undisturbed, reserved], fun _ => .unchanged matched same⟩
  | some res =>
    have call : s.perform (.assign ext region) = _ := assign_reserved reserved
    by_cases finished : ext.allocated = true ∧ ext.appended = 0
    · -- both stores get the new object
      rw [if_pos finished] at call
      refine ⟨fun _ _ => finished, fun _ => ⟨?_, fun failed => ?_, fun made live gone => ?_⟩⟩
      · unfold MmioState.after
        rw [call]
        exact matched.assign (new res reserved)
      · rw [call] at failed
        exact absurd rfl failed
      · unfold MmioState.after at gone
        rw [call] at gone
        exact absurd (List.mem_append_left _ live) gone
    · -- the object stays reserved, and the call returns an error
      rw [if_neg finished] at call
      refine ⟨fun kept => ?_, fun calm => absurd (calm (by simp [reserved])) finished⟩
      have failed : (s.perform (.assign ext region)).2 ≠ 0 := by
        rw [call]
        cases allocated : ext.allocated with
        | false => simp
        | true => simpa [allocated] using finished
      have same := congrArg (fun t => t.live.length) (kept.error failed)
      simp [MmioState.after, call] at same

/-! ### Freeing -/

theorem free_missing (none_ : listItem s.mmioReservations region mmioResCmp = none) :
    s.perform (.free ext region) = (s, -1) := by
  simp [MmioState.perform, mmioResFree, none_]

omit [DecidableEq Handle] in
theorem find_missing : listItem s.mmioReservations region mmioResCmp = none ↔
    ¬∃ mmio ∈ s.mmioReservations, mmio.toRegion = region := by
  simp [listItem, mmioResCmp_eq_false]

omit [DecidableEq Proxy] in
theorem Corresponds.free {before after : List (MmioReservation Proxy Handle)}
    {mmio : MmioReservation Proxy Handle} (matched : Corresponds s)
    (shape : s.mmioReservations = before ++ mmio :: after) :
    Corresponds ⟨before ++ after, s.live.filter fun made => made.1 ≠ mmio.res⟩ := by
  obtain ⟨distinct, same⟩ := matched
  have around : s.live.Perm ((mmio.res, mmio.toRegion) ::
      (before ++ after).map fun mmio => (mmio.res, mmio.toRegion)) := by
    rw [shape] at same
    refine same.trans ?_
    rw [List.map_append, List.map_cons, List.map_append]
    exact List.perm_middle
  have others : mmio.res ∉ ((before ++ after).map fun mmio => (mmio.res, mmio.toRegion)).map Prod.fst := by
    have one := (around.map Prod.fst).nodup_iff.mp distinct
    rw [List.map_cons, List.nodup_cons] at one
    exact one.1
  constructor
  · exact distinct.sublist (List.filter_sublist.map Prod.fst)
  · -- objects are distinct, so that the filter takes out one pair and keeps all others
    have rest := around.filter fun made => made.1 ≠ mmio.res
    rw [List.filter_cons_of_neg (by simp)] at rest
    refine rest.trans (List.Perm.of_eq (List.filter_eq_self.mpr fun made inside => ?_))
    have different : made.1 ≠ mmio.res := fun equal =>
      others (equal ▸ List.mem_map_of_mem (f := Prod.fst) inside)
    simpa using different

theorem kept_free (matched : Corresponds s) :
    Kept s (.free ext region) ↔ Undisturbed s (.free ext region) := by
  cases found : listItem s.mmioReservations region mmioResCmp with
  | none =>
    have missing := find_missing.mp found
    have same : s.after (.free ext region) = s := by
      unfold MmioState.after
      rw [free_missing found]
    exact ⟨fun _ present => absurd present missing, fun _ => .unchanged matched same⟩
  | some mmio =>
    obtain ⟨before, after, shape, removed, equal⟩ := listItem_split found
    have key := mmioResCmp_eq_false.mp equal
    have present : ∃ mmio ∈ s.mmioReservations, mmio.toRegion = region :=
      ⟨mmio, by rw [shape]; simp, key⟩
    have call : s.perform (.free ext region) =
        (⟨before ++ after, (vmReservationFree ext.freed s.live mmio.res).1⟩,
          (vmReservationFree ext.freed s.live mmio.res).2) := by
      simp [MmioState.perform, mmioResFree, found, removed]
    by_cases freed : ext.freed = 0
    · refine ⟨fun _ _ => freed, fun _ => ?_⟩
      simp only [vmReservationFree, freed, ne_eq, not_true_eq_false, if_false] at call
      refine ⟨?_, fun failed => ?_, fun made live gone => ⟨ext, ?_⟩⟩
      · unfold MmioState.after
        rw [call]
        exact matched.free shape
      · rw [call] at failed
        exact absurd rfl failed
      · -- the only object that is gone is the one of the entry, made for its region
        unfold MmioState.after at gone
        rw [call] at gone
        have object : made.1 = mmio.res := by
          by_contra other
          exact gone (List.mem_filter.mpr ⟨live, by simpa using other⟩)
        have entry : (mmio.res, mmio.toRegion) ∈ s.live := by
          refine matched.2.mem_iff.mpr ?_
          rw [shape]
          simp
        have one := List.inj_on_of_nodup_map matched.1 live entry object
        rw [one, key]
    · -- the entry is gone, the object stays reserved
      refine ⟨fun kept => ?_, fun calm => absurd (calm present) freed⟩
      have failed : (s.perform (.free ext region)).2 ≠ 0 := by
        rw [call]
        simp [vmReservationFree, freed]
      have same := congrArg (fun t => t.mmioReservations.length) (kept.error failed)
      simp [MmioState.after, call, shape] at same

/-! ### Runs -/

theorem kept_iff (matched : Corresponds s) {call : MmioCall Proxy Handle} (new : Fresh s call) :
    Kept s call ↔ Undisturbed s call := by
  cases call with
  | assign ext region => exact kept_assign matched new
  | free ext region => exact kept_free matched

omit [DecidableEq Proxy] [DecidableEq Handle] in
theorem corresponds_initial : Corresponds (.initial : MmioState Proxy Handle) :=
  ⟨List.nodup_nil, List.Perm.refl _⟩

/-- Every call of a run keeps registry and reservations in correspondence, if and only if
in every call nothing fails that an earlier success would have to be undone for. -/
theorem mmio_registry_iff_undisturbed (calls : List (MmioCall Proxy Handle))
    (fresh : Along MmioState.after Fresh .initial calls) :
    Along MmioState.after Kept .initial calls ↔ Along MmioState.after Undisturbed .initial calls :=
  along_iff (I := Corresponds) (fun _ _ matched new => kept_iff matched new)
    (fun _ _ matched new calm => ((kept_iff matched new).mpr calm).corresponds)
    corresponds_initial fresh

instance (s : MmioState Proxy Handle) : (call : MmioCall Proxy Handle) → Decidable (Fresh s call)
  | .assign _ _ => inferInstanceAs (Decidable (∀ res ∈ _, _))
  | .free _ _ => .isTrue trivial

instance (s : MmioState Proxy Handle) : (call : MmioCall Proxy Handle) → Decidable (Undisturbed s call)
  | .assign _ _ => inferInstanceAs (Decidable (_ → _))
  | .free _ _ => inferInstanceAs (Decidable (_ → _))

/-- Two io_proxies map a region each, one unmaps it, and maps it again. -/
def remapping : List (MmioCall Bool Nat) :=
  [.assign ⟨some 1, true, 0, 0⟩ ⟨0x1000#64, 0x1000#64, true⟩,
    .assign ⟨some 2, true, 0, 0⟩ ⟨0x4000#64, 0x2000#64, false⟩,
    .free ⟨none, true, 0, 0⟩ ⟨0x1000#64, 0x1000#64, true⟩,
    .free ⟨none, true, 0, 0⟩ ⟨0x1000#64, 0x1000#64, true⟩,
    .assign ⟨some 1, true, 0, 0⟩ ⟨0x1000#64, 0x1000#64, true⟩]

theorem mmio_registry_remapping : Along MmioState.after Kept .initial remapping :=
  (mmio_registry_iff_undisturbed remapping (by decide)).mpr (by decide)

/-- The region is reserved with the VM, and `calloc` fails. -/
def exhausted : List (MmioCall Bool Nat) := [.assign ⟨some 1, false, 0, 0⟩ ⟨0x1000#64, 0x1000#64, true⟩]

/-- The call fails and leaves a reservation that no entry refers to. -/
theorem mmio_registry_leaks : ¬Along MmioState.after Kept .initial exhausted := by
  rintro ⟨kept, _⟩
  have same := kept.error (by decide)
  revert same
  decide

end Virtioso.Vmm
