import Virtioso.Foundation.Places
import Virtioso.Proxy.Session

/-! Lifetime of a slot of the callback table.

Requesters and the thread that handles responses take turns access by access. The
backend answers each request once, in any order, and changes only its data word.
`ioreq_finish` wakes the requester before it clears the slot; a requester that is
back at the check of `ioreq_start` in between finds its own callback.
-/

set_option autoImplicit false

namespace Virtioso.Proxy

open Foundation Virtioso.Ring Rpc

structure Requesters (ι : Type) where
  slot : ι → Fin ioacksSize
  cookie : ι → Cookie
  slot_injective : Function.Injective slot
  cookie_injective : Function.Injective cookie

/-- Control points of a requester, each before one access of `ioreq_start` or of the
wait for its semaphore or the resumption of its vCPU. -/
inductive StartPoint where
  | ready
  | check (req : IoReq)
  | callback (req : IoReq)
  | cookie (req : IoReq)
  | send (req : IoReq)
  | waiting
  deriving DecidableEq, Repr

/-- A message on its way, with the request it belongs to. No step looks at the request. -/
structure Errand where
  req : IoReq
  words : Msg
  deriving DecidableEq, Repr

/-- An errand and its requester, at whom no step looks either. -/
abbrev Parcel (ι : Type) := ι × Errand

/-- Control points of the handling thread, each before one access of `ioreq_finish`. -/
inductive FinishPoint (ι : Type) where
  | idle
  | check (parcel : Parcel ι)
  | call (parcel : Parcel ι) (slot : Fin ioacksSize)
  | clear (slot : Fin ioacksSize)
  deriving DecidableEq

/-- `posted` counts, by cookie, the wake-ups that were not consumed. -/
structure Lifetime (ι : Type) where
  ioacks : Fin ioacksSize → Ioack
  posted : Cookie → Nat
  transit : List (Parcel ι)
  responses : List (Parcel ι)
  point : ι → StartPoint
  handler : FinishPoint ι
  /-- an assertion failed -/
  aborted : Bool

inductive LifeAction (ι : Type) where
  | start (i : ι) (req : IoReq)
  | access (i : ι)
  | answer (parcel : Parcel ι) (data : BitVec 64)
  | handle

variable {ι : Type}

def Lifetime.initial : Lifetime ι where
  ioacks _ := ⟨none, 0#64⟩
  posted _ := 0
  transit := []
  responses := []
  point _ := .ready
  handler := .idle
  aborted := false

def Lifetime.ioack (s : Lifetime ι) (slot : Fin ioacksSize) (ioack : Ioack) : Lifetime ι :=
  { s with ioacks := Function.update s.ioacks slot ioack }

def Lifetime.handle (s : Lifetime ι) : Option (Lifetime ι) :=
  match s.handler with
  | .idle =>
      match s.responses with
      | [] => none
      | parcel :: rest => some { s with handler := .check parcel, responses := rest }
  | .check parcel =>
      let slot := (rpcMr0MmioSlot.get parcel.2.words.mr0).toNat
      if inside : slot < ioacksSize then
        if (s.ioacks ⟨slot, inside⟩).callback = none then some { s with aborted := true }
        else some { s with handler := .call parcel ⟨slot, inside⟩ }
      else some { s with aborted := true }
  | .call _ slot =>
      -- every callback posts the semaphore, or resumes the vCPU, of its cookie
      let cookie := (s.ioacks slot).cookie
      some { s with
        posted := Function.update s.posted cookie (s.posted cookie + 1)
        handler := .clear slot }
  | .clear slot => some { s.ioack slot { s.ioacks slot with callback := none } with handler := .idle }

section Steps
variable [DecidableEq ι]

def Lifetime.put (s : Lifetime ι) (i : ι) (p : StartPoint) : Lifetime ι :=
  { s with point := Function.update s.point i p }

/-- The next access of requester `i`. -/
def Lifetime.access (r : Requesters ι) (s : Lifetime ι) (i : ι) : Option (Lifetime ι) :=
  let slot := r.slot i
  match s.point i with
  | .ready => none
  | .check req =>
      if (s.ioacks slot).callback = none then some (s.put i (.callback req))
      else some { s with aborted := true }
  | .callback req =>
      some ((s.ioack slot { s.ioacks slot with callback := some req.callback }).put i (.cookie req))
  | .cookie req => some ((s.ioack slot { s.ioacks slot with cookie := req.cookie }).put i (.send req))
  | .send req => some { s.put i .waiting with transit := s.transit ++ [(i, ⟨req, req.words⟩)] }
  | .waiting =>
      if 0 < s.posted (r.cookie i) then
        some { s.put i .ready with
          posted := Function.update s.posted (r.cookie i) (s.posted (r.cookie i) - 1) }
      else none

/-- A failed assertion stops the program. -/
def Lifetime.step (r : Requesters ι) (s : Lifetime ι) (a : LifeAction ι) : Option (Lifetime ι) :=
  if s.aborted then none
  else
    match a with
    | .start i req => if s.point i = .ready then some (s.put i (.check req)) else none
    | .access i => s.access r i
    | .answer (i, ⟨req, words⟩) data =>
        if (i, ⟨req, words⟩) ∈ s.transit then
          some { s with
            transit := s.transit.erase (i, ⟨req, words⟩)
            responses := s.responses ++ [(i, ⟨req, { words with mr2 := data }⟩)] }
        else none
    | .handle => s.handle

end Steps

structure Own (r : Requesters ι) (i : ι) (req : IoReq) : Prop where
  valid : req.Valid
  slot : req.slot.toNat = (r.slot i).val
  cookie : req.cookie = r.cookie i

instance (r : Requesters ι) (i : ι) (req : IoReq) : Decidable (Own r i req) :=
  decidable_of_iff (req.Valid ∧ req.slot.toNat = (r.slot i).val ∧ req.cookie = r.cookie i)
    ⟨fun ⟨valid, slot, cookie⟩ => ⟨valid, slot, cookie⟩, fun own => ⟨own.valid, own.slot, own.cookie⟩⟩

def Permitted (r : Requesters ι) (_ : Lifetime ι) : LifeAction ι → Prop
  | .start i req => Own r i req
  | .access _ | .answer _ _ | .handle => True

def StartPoint.checks : StartPoint → Bool
  | .check _ => true
  | _ => false

/-- No requester checks its slot after the handling thread has called its callback and
before it has cleared the slot. -/
def Unraced (r : Requesters ι) (s : Lifetime ι) : LifeAction ι → Prop
  | .start i req => Own r i req
  | .access i => (s.point i).checks = true → s.handler ≠ .clear (r.slot i)
  | .answer _ _ | .handle => True

inductive Stage where
  | transit
  | responses
  | handler
  deriving DecidableEq, Repr

/-- The response in the hands of the handling thread, until its callback is called. -/
def FinishPoint.parcels : FinishPoint ι → List (Parcel ι)
  | .check parcel | .call parcel _ => [parcel]
  | .idle | .clear _ => []

def Lifetime.stock (s : Lifetime ι) : Stage → List (Parcel ι)
  | .transit => s.transit
  | .responses => s.responses
  | .handler => s.handler.parcels

/-- The callback of this request is installed and its response is not processed. -/
def Lifetime.Pending (s : Lifetime ι) (i : ι) (req : IoReq) : Prop :=
  s.point i = .cookie req ∨ s.point i = .send req ∨ ∃ p words, (i, ⟨req, words⟩) ∈ s.stock p

/-- No assertion has failed, and each pending request is the only one on its slot and
finds there what it installed. -/
structure Safe (r : Requesters ι) (s : Lifetime ι) : Prop where
  passed : s.aborted = false
  installed : ∀ i req, s.Pending i req → (s.ioacks (r.slot i)).callback = some req.callback
  alone : ∀ i req p words, (i, ⟨req, words⟩) ∈ s.stock p →
    s.point i = .waiting ∧ s.ioacks (r.slot i) = req.ioack

inductive Settled (r : Requesters ι) (s : Lifetime ι) (i : ι) : Option (Stage × Errand) → Prop where
  | rest : s.point i = .ready ∨ (∃ req, s.point i = .check req ∧ Own r i req) → s.posted (r.cookie i) = 0 →
      (s.ioacks (r.slot i)).callback = none ∨ s.handler = .clear (r.slot i) → Settled r s i none
  | passed {req : IoReq} : s.point i = .callback req → Own r i req → s.posted (r.cookie i) = 0 →
      s.handler ≠ .clear (r.slot i) → Settled r s i none
  | armed {req : IoReq} : s.point i = .cookie req → Own r i req → s.posted (r.cookie i) = 0 →
      (s.ioacks (r.slot i)).callback = some req.callback → s.handler ≠ .clear (r.slot i) → Settled r s i none
  | complete {req : IoReq} : s.point i = .send req → Own r i req → s.posted (r.cookie i) = 0 →
      s.ioacks (r.slot i) = req.ioack → s.handler ≠ .clear (r.slot i) → Settled r s i none
  | flying {p : Stage} {req : IoReq} {words : Msg} : s.point i = .waiting → Own r i req →
      s.posted (r.cookie i) = 0 → s.ioacks (r.slot i) = req.ioack → words.mr0 = req.words.mr0 →
      s.handler ≠ .clear (r.slot i) → Settled r s i (some (p, ⟨req, words⟩))
  | woken : s.point i = .waiting → s.posted (r.cookie i) = 1 →
      (s.ioacks (r.slot i)).callback = none ∨ s.handler = .clear (r.slot i) → Settled r s i none

structure LifeInv (r : Requesters ι) (s : Lifetime ι) (at_ : ι → Option (Stage × Errand)) : Prop where
  occupied : Occupied at_ s.stock
  settled : ∀ i, Settled r s i (at_ i)
  calling : ∀ parcel slot, s.handler = .call parcel slot → slot = r.slot parcel.1
  clearing : ∀ slot, s.handler = .clear slot → (s.ioacks slot).callback ≠ none
  passed : s.aborted = false

section Preservation
variable {r : Requesters ι} {s t : Lifetime ι} {i j : ι} {at_ : ι → Option (Stage × Errand)}
  {place : Option (Stage × Errand)}

theorem Settled.frame (settled : Settled r s j place) (point : t.point j = s.point j)
    (posted : t.posted (r.cookie j) = s.posted (r.cookie j))
    (ioacks : t.ioacks (r.slot j) = s.ioacks (r.slot j))
    (handler : t.handler = .clear (r.slot j) ↔ s.handler = .clear (r.slot j)) : Settled r t j place := by
  cases settled with
  | rest at_ zero free => exact .rest (by rwa [point]) (by rwa [posted]) (by rwa [ioacks, handler])
  | passed at_ own zero apart =>
    exact .passed (by rwa [point]) own (by rwa [posted]) (by rwa [ne_eq, handler])
  | armed at_ own zero holds apart =>
    exact .armed (by rwa [point]) own (by rwa [posted]) (by rwa [ioacks]) (by rwa [ne_eq, handler])
  | complete at_ own zero holds apart =>
    exact .complete (by rwa [point]) own (by rwa [posted]) (by rwa [ioacks]) (by rwa [ne_eq, handler])
  | flying at_ own zero holds words apart =>
    exact .flying (by rwa [point]) own (by rwa [posted]) (by rwa [ioacks]) words (by rwa [ne_eq, handler])
  | woken at_ one free => exact .woken (by rwa [point]) (by rwa [posted]) (by rwa [ioacks, handler])

theorem Settled.stage {p q : Stage} {req : IoReq} {words words' : Msg}
    (settled : Settled r s i (some (p, ⟨req, words⟩))) (same : words'.mr0 = words.mr0) :
    Settled r s i (some (q, ⟨req, words'⟩)) := by
  cases settled with
  | flying at_ own zero holds kept apart => exact .flying at_ own zero holds (same.trans kept) apart

theorem LifeInv.safe (inv : LifeInv r s at_) : Safe r s := by
  have flies : ∀ i req p words, (i, ⟨req, words⟩) ∈ s.stock p →
      s.point i = .waiting ∧ s.ioacks (r.slot i) = req.ioack := fun i req p words here => by
    have settled := inv.settled i
    rw [(inv.occupied.located _ _ _).mp here] at settled
    cases settled with
    | flying at_ _ _ holds _ _ => exact ⟨at_, holds⟩
  refine ⟨inv.passed, fun i req pending => ?_, flies⟩
  rcases pending with armed | complete | ⟨p, words, here⟩
  · have settled := inv.settled i
    generalize at_ i = place at settled
    cases settled <;> simp_all
  · have settled := inv.settled i
    generalize at_ i = place at settled
    cases settled <;> simp_all [IoReq.ioack]
  · rw [(flies i req p words here).2]
    rfl

/-- The response being handled names the slot of its requester, who waits. -/
theorem LifeInv.handled (inv : LifeInv r s at_) {req : IoReq} {words : Msg}
    (here : (i, ⟨req, words⟩) ∈ s.stock .handler) :
    (rpcMr0MmioSlot.get words.mr0).toNat = (r.slot i).val ∧ s.ioacks (r.slot i) = req.ioack ∧
      req.cookie = r.cookie i ∧ s.point i = .waiting ∧ s.posted (r.cookie i) = 0 := by
  have settled := inv.settled i
  rw [(inv.occupied.located _ _ _).mp here] at settled
  cases settled with
  | flying at_ own zero holds kept apart =>
    refine ⟨?_, holds, own.cookie, at_, zero⟩
    rw [kept, (req.decodes own.valid).slot, BitVec.toNat_setWidth_of_le (by decide), own.slot]

theorem LifeInv.finish_check (inv : LifeInv r s at_) {parcel : Parcel ι} (at_check : s.handler = .check parcel)
    (edge : s.handle = some t) : ∃ at_, LifeInv r t at_ := by
  obtain ⟨i, req, words⟩ := parcel
  have here : (i, ⟨req, words⟩) ∈ s.stock .handler := by
    simp only [Lifetime.stock, at_check]
    exact List.mem_cons_self
  obtain ⟨named, holds, _⟩ := inv.handled here
  have slot : ∀ inside, (⟨(rpcMr0MmioSlot.get words.mr0).toNat, inside⟩ : Fin ioacksSize) = r.slot i :=
    fun _ => Fin.ext named
  have inside : (rpcMr0MmioSlot.get words.mr0).toNat < ioacksSize := named ▸ (r.slot i).isLt
  simp only [Lifetime.handle, at_check, inside, dite_true, slot, holds, IoReq.ioack, reduceCtorEq,
    if_false, Option.some.injEq] at edge
  subst edge
  refine ⟨at_, ?_, fun j => (inv.settled j).frame rfl rfl rfl (by simp [at_check]), fun parcel slot called => ?_,
    fun slot at_ => (by cases at_), inv.passed⟩
  · convert inv.occupied using 1
    funext p
    cases p with
    | transit | responses => rfl
    | handler => simp [Lifetime.stock, at_check, FinishPoint.parcels]
  · cases called
    rfl

theorem LifeInv.clear (inv : LifeInv r s at_) {slot : Fin ioacksSize} (at_clear : s.handler = .clear slot)
    (edge : s.handle = some t) : ∃ at_, LifeInv r t at_ := by
  simp only [Lifetime.handle, at_clear, Option.some.injEq] at edge
  subst edge
  refine ⟨at_, ?_, fun j => ?_, fun _ _ at_ => (by cases at_), fun _ at_ => (by cases at_), inv.passed⟩
  · convert inv.occupied using 1
    funext p
    cases p with
    | transit | responses => rfl
    | handler => simp [Lifetime.stock, at_clear, FinishPoint.parcels]
  · have settled := inv.settled j
    by_cases own : r.slot j = slot
    · -- a requester past its check would lose what it has installed
      subst own
      generalize at_ j = place at settled ⊢
      cases settled with
      | rest at_ zero _ => exact .rest at_ zero (.inl (by simp [Lifetime.ioack]))
      | woken at_ one _ => exact .woken at_ one (.inl (by simp [Lifetime.ioack]))
      | passed _ _ _ apart | armed _ _ _ _ apart | complete _ _ _ _ apart | flying _ _ _ _ _ apart =>
        exact absurd at_clear apart
    · refine settled.frame rfl rfl (Function.update_of_ne own ..) ?_
      simp [at_clear, Ne.symm own]

section Requester
variable [DecidableEq ι]

@[simp] theorem life_put_self (s : Lifetime ι) (i : ι) (p : StartPoint) : (s.put i p).point i = p :=
  Function.update_self ..

theorem life_put_of_ne (s : Lifetime ι) (p : StartPoint) (other : j ≠ i) :
    (s.put i p).point j = s.point j := Function.update_of_ne other ..

/-- A step of requester `i` that moves no message keeps the invariant if it leaves
requester `i` in order. -/
theorem LifeInv.advance (inv : LifeInv r s at_) (settled : Settled r t i (at_ i))
    (points : ∀ j, j ≠ i → t.point j = s.point j)
    (posted : ∀ j, j ≠ i → t.posted (r.cookie j) = s.posted (r.cookie j))
    (ioacks : ∀ slot, slot ≠ r.slot i → t.ioacks slot = s.ioacks slot)
    (here : s.handler = .clear (r.slot i) → (t.ioacks (r.slot i)).callback ≠ none)
    (handler : t.handler = s.handler) (stock : t.stock = s.stock) (passed : t.aborted = s.aborted) :
    LifeInv r t at_ where
  occupied := stock ▸ inv.occupied
  settled j := by
    by_cases same : j = i
    · subst same
      exact settled
    · exact (inv.settled j).frame (points j same) (posted j same)
        (ioacks _ fun equal => same (r.slot_injective equal)) (by rw [handler])
  calling parcel slot at_ := inv.calling parcel slot (handler ▸ at_)
  clearing slot at_ := by
    rw [handler] at at_
    by_cases own : slot = r.slot i
    · subst own
      exact here at_
    · rw [ioacks slot own]
      exact inv.clearing slot at_
  passed := passed.trans inv.passed

theorem LifeInv.start (inv : LifeInv r s at_) {req : IoReq} (own : Own r i req) (ready : s.point i = .ready) :
    LifeInv r (s.put i (.check req)) at_ := by
  refine inv.advance ?_ (fun j other => life_put_of_ne s _ other) (fun _ _ => rfl) (fun _ _ => rfl)
    (inv.clearing _) rfl rfl rfl
  have settled := inv.settled i
  generalize at_ i = place at settled ⊢
  cases settled with
  | rest _ zero free => exact .rest (.inr ⟨req, life_put_self .., own⟩) zero free
  | passed at_ | armed at_ | complete at_ | flying at_ | woken at_ => rw [ready] at at_; cases at_

theorem LifeInv.check (inv : LifeInv r s at_) {req : IoReq} (at_check : s.point i = .check req)
    (apart : s.handler ≠ .clear (r.slot i)) (edge : s.access r i = some t) : ∃ at_, LifeInv r t at_ := by
  have settled := inv.settled i
  have next : (s.ioacks (r.slot i)).callback = none ∧ s.posted (r.cookie i) = 0 ∧ Own r i req ∧ at_ i = none := by
    generalize at_ i = place at settled ⊢
    cases settled with
    | rest at_ zero free =>
      rcases at_ with ready | ⟨asked, at_, own⟩
      · rw [at_check] at ready
        cases ready
      · rw [at_check] at at_
        cases at_
        exact ⟨free.resolve_right apart, zero, own, rfl⟩
    | passed at_ | armed at_ | complete at_ | flying at_ | woken at_ => rw [at_check] at at_; cases at_
  obtain ⟨idle, zero, own, nowhere⟩ := next
  simp only [Lifetime.access, at_check, idle, if_true, Option.some.injEq] at edge
  subst edge
  refine ⟨at_, inv.advance ?_ (fun j other => life_put_of_ne s _ other) (fun _ _ => rfl) (fun _ _ => rfl)
    (inv.clearing _) rfl rfl rfl⟩
  rw [nowhere]
  exact .passed (life_put_self ..) own zero apart

theorem LifeInv.install (inv : LifeInv r s at_) {req : IoReq} (at_callback : s.point i = .callback req)
    (edge : s.access r i = some t) : ∃ at_, LifeInv r t at_ := by
  have settled := inv.settled i
  have next : Own r i req ∧ s.posted (r.cookie i) = 0 ∧ s.handler ≠ .clear (r.slot i) ∧ at_ i = none := by
    generalize at_ i = place at settled ⊢
    cases settled with
    | passed at_ own zero apart =>
      rw [at_callback] at at_
      cases at_
      exact ⟨own, zero, apart, rfl⟩
    | rest at_ | armed at_ | complete at_ | flying at_ | woken at_ => simp [at_callback] at at_
  obtain ⟨own, zero, apart, nowhere⟩ := next
  simp only [Lifetime.access, at_callback, Option.some.injEq] at edge
  subst edge
  refine ⟨at_, inv.advance ?_ (fun j other => life_put_of_ne _ _ other) (fun _ _ => rfl)
    (fun slot other => Function.update_of_ne other ..) (fun clear => absurd clear apart) rfl rfl rfl⟩
  rw [nowhere]
  exact .armed (life_put_self ..) own zero (by simp [Lifetime.put, Lifetime.ioack]) apart

theorem LifeInv.name (inv : LifeInv r s at_) {req : IoReq} (at_cookie : s.point i = .cookie req)
    (edge : s.access r i = some t) : ∃ at_, LifeInv r t at_ := by
  have settled := inv.settled i
  have next : Own r i req ∧ s.posted (r.cookie i) = 0 ∧
      (s.ioacks (r.slot i)).callback = some req.callback ∧ s.handler ≠ .clear (r.slot i) ∧ at_ i = none := by
    generalize at_ i = place at settled ⊢
    cases settled with
    | armed at_ own zero holds apart =>
      rw [at_cookie] at at_
      cases at_
      exact ⟨own, zero, holds, apart, rfl⟩
    | rest at_ | passed at_ | complete at_ | flying at_ | woken at_ => simp [at_cookie] at at_
  obtain ⟨own, zero, holds, apart, nowhere⟩ := next
  simp only [Lifetime.access, at_cookie, Option.some.injEq] at edge
  subst edge
  refine ⟨at_, inv.advance ?_ (fun j other => life_put_of_ne _ _ other) (fun _ _ => rfl)
    (fun slot other => Function.update_of_ne other ..) (fun clear => absurd clear apart) rfl rfl rfl⟩
  rw [nowhere]
  exact .complete (life_put_self ..) own zero (by simp [Lifetime.put, Lifetime.ioack, holds, IoReq.ioack]) apart

theorem LifeInv.wake (inv : LifeInv r s at_) (at_wait : s.point i = .waiting)
    (edge : s.access r i = some t) : ∃ at_, LifeInv r t at_ := by
  simp only [Lifetime.access, at_wait, Option.ite_none_right_eq_some, Option.some.injEq] at edge
  obtain ⟨posted, rfl⟩ := edge
  have settled := inv.settled i
  have next : s.posted (r.cookie i) = 1 ∧
      ((s.ioacks (r.slot i)).callback = none ∨ s.handler = .clear (r.slot i)) ∧ at_ i = none := by
    generalize at_ i = place at settled ⊢
    cases settled with
    | woken _ one free => exact ⟨one, free, rfl⟩
    | flying _ _ zero => omega
    | rest at_ | passed at_ | armed at_ | complete at_ => simp [at_wait] at at_
  obtain ⟨one, free, nowhere⟩ := next
  refine ⟨at_, inv.advance ?_ (fun j other => life_put_of_ne _ _ other)
    (fun j other => Function.update_of_ne (fun same => other (r.cookie_injective same)) ..)
    (fun _ _ => rfl) (inv.clearing _) rfl rfl rfl⟩
  rw [nowhere]
  exact .rest (.inl (life_put_self ..)) (by simp [one]) free

theorem LifeInv.send (inv : LifeInv r s at_) {req : IoReq} (at_send : s.point i = .send req)
    (edge : s.access r i = some t) : ∃ at_, LifeInv r t at_ := by
  have settled := inv.settled i
  have next : Own r i req ∧ s.posted (r.cookie i) = 0 ∧ s.ioacks (r.slot i) = req.ioack ∧
      s.handler ≠ .clear (r.slot i) ∧ at_ i = none := by
    -- only a requester that has completed its entry stands before the send
    generalize at_ i = place at settled ⊢
    cases settled with
    | complete at_ own zero holds apart =>
      rw [at_send] at at_
      cases at_
      exact ⟨own, zero, holds, apart, rfl⟩
    | rest at_ | passed at_ | armed at_ | flying at_ | woken at_ => simp [at_send] at at_
  obtain ⟨own, zero, holds, apart, nowhere⟩ := next
  simp only [Lifetime.access, at_send, Option.some.injEq] at edge
  subst edge
  refine ⟨Function.update at_ i (some (.transit, ⟨req, req.words⟩)), ?_, fun j => ?_, inv.calling, inv.clearing,
    inv.passed⟩
  · have arrives := inv.occupied.arrive nowhere .transit ⟨req, req.words⟩
    convert arrives using 1
    funext p
    cases p <;> rfl
  · by_cases same : j = i
    · subst same
      rw [Function.update_self]
      exact .flying (life_put_self ..) own zero holds rfl apart
    · rw [Function.update_of_ne same]
      exact (inv.settled j).frame (life_put_of_ne _ _ same) rfl rfl Iff.rfl

theorem LifeInv.answer (inv : LifeInv r s at_) {req : IoReq} {words : Msg}
    (here : (i, ⟨req, words⟩) ∈ s.stock .transit) (data : BitVec 64) :
    ∃ at_, LifeInv r { s with
      transit := s.transit.erase (i, ⟨req, words⟩)
      responses := s.responses ++ [(i, ⟨req, { words with mr2 := data }⟩)] } at_ := by
  have location := (inv.occupied.located .transit _ _).mp here
  refine ⟨Function.update at_ i (some (.responses, ⟨req, { words with mr2 := data }⟩)), ?_, fun j => ?_,
    inv.calling, inv.clearing, inv.passed⟩
  · have arrives := (inv.occupied.depart here).arrive (Function.update_self ..) .responses
      ⟨req, { words with mr2 := data }⟩
    rw [Function.update_idem] at arrives
    convert arrives using 1
    funext p
    cases p <;> rfl
  · by_cases same : j = i
    · subst same
      rw [Function.update_self]
      have settled := inv.settled j
      rw [location] at settled
      have answered : Settled r s j (some (.responses, ⟨req, { words with mr2 := data }⟩)) := settled.stage rfl
      exact answered.frame rfl rfl rfl Iff.rfl
    · rw [Function.update_of_ne same]
      exact (inv.settled j).frame rfl rfl rfl Iff.rfl

theorem LifeInv.receive (inv : LifeInv r s at_) {req : IoReq} {words : Msg} {rest : List (Parcel ι)}
    (idle : s.handler = .idle) (oldest : s.responses = (i, ⟨req, words⟩) :: rest) :
    ∃ at_, LifeInv r { s with handler := .check (i, ⟨req, words⟩), responses := rest } at_ := by
  have here : (i, ⟨req, words⟩) ∈ s.stock .responses := by
    simp only [Lifetime.stock, oldest]
    exact List.mem_cons_self
  have location := (inv.occupied.located .responses _ _).mp here
  refine ⟨Function.update at_ i (some (.handler, ⟨req, words⟩)), ?_, fun j => ?_,
    fun parcel slot at_ => (by cases at_), fun slot at_ => (by cases at_), inv.passed⟩
  -- the message moves from the queue to the handler
  · have moves := inv.occupied.move here (r := .handler) (by decide)
    convert moves using 1
    funext p
    cases p with
    | transit => rfl
    | responses => simp [Lifetime.stock, oldest]
    | handler => simp [Lifetime.stock, idle, FinishPoint.parcels]
  · have frame : ∀ {place}, Settled r s j place →
        Settled r { s with handler := .check (i, ⟨req, words⟩), responses := rest } j place :=
      fun settled => settled.frame rfl rfl rfl (by simp [idle])
    by_cases same : j = i
    · subst same
      rw [Function.update_self]
      have settled := inv.settled j
      rw [location] at settled
      exact frame (settled.stage rfl)
    · rw [Function.update_of_ne same]
      exact frame (inv.settled j)

/-- The callback wakes the requester of its slot, and only that one. -/
theorem LifeInv.call (inv : LifeInv r s at_) {parcel : Parcel ι} {slot : Fin ioacksSize}
    (at_call : s.handler = .call parcel slot) (edge : s.handle = some t) : ∃ at_, LifeInv r t at_ := by
  obtain ⟨i, req, words⟩ := parcel
  have here : (i, ⟨req, words⟩) ∈ s.stock .handler := by
    simp only [Lifetime.stock, at_call]
    exact List.mem_cons_self
  obtain ⟨_, holds, cookie, waits, zero⟩ := inv.handled here
  -- the handler calls the entry that the message names, and that is the requester's own
  have own : slot = r.slot i := inv.calling _ _ at_call
  subst own
  have cookie : (s.ioacks (r.slot i)).cookie = r.cookie i := by rw [holds, IoReq.ioack, cookie]
  simp only [Lifetime.handle, at_call, cookie, Option.some.injEq] at edge
  subst edge
  refine ⟨Function.update at_ i none, ?_, fun j => ?_, fun _ _ at_ => (by cases at_), fun slot at_ => ?_,
    inv.passed⟩
  · have departs := inv.occupied.depart here
    convert departs using 1
    funext p
    cases p with
    | transit | responses => rfl
    | handler => simp [Lifetime.stock, at_call, FinishPoint.parcels]
  · by_cases same : j = i
    · subst same
      rw [Function.update_self]
      exact .woken waits (by simp [zero]) (.inr rfl)
    · rw [Function.update_of_ne same]
      refine (inv.settled j).frame rfl (Function.update_of_ne (fun equal => same (r.cookie_injective equal)) ..)
        rfl ?_
      simp only [FinishPoint.clear.injEq, at_call, reduceCtorEq, iff_false]
      exact fun equal => same (r.slot_injective equal.symm)
  · cases at_
    rw [holds]
    exact Option.some_ne_none _

theorem LifeInv.handle (inv : LifeInv r s at_) (edge : s.handle = some t) : ∃ at_, LifeInv r t at_ := by
  cases point : s.handler with
  | idle =>
    simp only [Lifetime.handle, point] at edge
    cases oldest : s.responses with
    | nil =>
      rw [oldest] at edge
      cases edge
    | cons parcel rest =>
      rw [oldest] at edge
      cases edge
      exact inv.receive point oldest
  | check parcel => exact inv.finish_check point edge
  | call parcel slot => exact inv.call point edge
  | clear slot => exact inv.clear point edge

theorem LifeInv.access (inv : LifeInv r s at_) (unraced : Unraced r s (.access i))
    (edge : s.access r i = some t) : ∃ at_, LifeInv r t at_ := by
  cases point : s.point i with
  | ready => simp [Lifetime.access, point] at edge
  | check req => exact inv.check point (unraced (by rw [point]; rfl)) edge
  | callback req => exact inv.install point edge
  | cookie req => exact inv.name point edge
  | send req => exact inv.send point edge
  | waiting => exact inv.wake point edge

theorem LifeInv.step (inv : LifeInv r s at_) {a : LifeAction ι} (unraced : Unraced r s a)
    (edge : s.step r a = some t) : ∃ at_, LifeInv r t at_ := by
  unfold Lifetime.step at edge
  rw [if_neg (by simp [inv.passed])] at edge
  cases a with
  | start i req =>
    obtain ⟨ready, edge⟩ := Option.ite_none_right_eq_some.mp edge
    cases edge
    exact ⟨at_, inv.start unraced ready⟩
  | access i => exact inv.access unraced edge
  | answer parcel data =>
    obtain ⟨here, edge⟩ := Option.ite_none_right_eq_some.mp edge
    cases edge
    exact inv.answer here data
  | handle => exact inv.handle edge

/-- A check between the call of the callback and the clearing of its slot fails. -/
theorem LifeInv.race (inv : LifeInv r s at_) {a : LifeAction ι} (permitted : Permitted r s a)
    (raced : ¬Unraced r s a) (edge : s.step r a = some t) : t.aborted = true := by
  unfold Lifetime.step at edge
  rw [if_neg (by simp [inv.passed])] at edge
  cases a with
  | start i req => exact absurd permitted raced
  | answer parcel data | handle => exact absurd trivial raced
  | access i =>
    simp only [Unraced, ne_eq, not_forall, not_not] at raced
    obtain ⟨checks, clearing⟩ := raced
    have set := inv.clearing _ clearing
    cases point : s.point i with
    | check req =>
      simp only [Lifetime.access, point, set, if_false, Option.some.injEq] at edge
      subst edge
      rfl
    | ready | callback _ | cookie _ | send _ | waiting => simp [point, StartPoint.checks] at checks

end Requester

end Preservation

theorem lifeInv_initial (r : Requesters ι) : LifeInv r .initial fun _ => none where
  occupied := by
    convert occupied_empty using 1
    funext p
    cases p <;> rfl
  settled _ := .rest (.inl rfl) rfl (.inl rfl)
  calling _ _ at_ := by cases at_
  clearing _ at_ := by cases at_
  passed := rfl

section Runs
variable [DecidableEq ι] (r : Requesters ι)

instance (s : Lifetime ι) : (a : LifeAction ι) → Decidable (Permitted r s a)
  | .start i req => inferInstanceAs (Decidable (Own r i req))
  | .access _ | .answer _ _ | .handle => .isTrue trivial

instance (s : Lifetime ι) : (a : LifeAction ι) → Decidable (Unraced r s a)
  | .start i req => inferInstanceAs (Decidable (Own r i req))
  | .access _ => inferInstanceAs (Decidable (_ → _))
  | .answer _ _ | .handle => .isTrue trivial

/-- While no requester checks its slot between the call of its callback and the
clearing, no assertion fails and every pending request keeps its slot. The first check
in between fails. -/
theorem slot_lifetime_iff_unraced (s : Lifetime ι)
    (reached : Reach (Lifetime.step r) (Unraced r) .initial s) :
    Safe r s ∧ ∀ a t, Permitted r s a → s.step r a = some t → (Safe r t ↔ Unraced r s a) := by
  have sound := reached.invariant (P := fun s => ∃ at_, LifeInv r s at_) ⟨_, lifeInv_initial r⟩
    fun s a t before unraced edge => by
      obtain ⟨at_, inv⟩ := before
      exact inv.step unraced edge
  obtain ⟨at_, inv⟩ := sound
  refine ⟨inv.safe, fun a t permitted edge => ⟨fun safe => ?_, fun unraced => ?_⟩⟩
  · by_contra raced
    have failed := inv.race permitted raced edge
    rw [safe.passed] at failed
    cases failed
  · obtain ⟨_, after⟩ := inv.step unraced edge
    exact after.safe

end Runs

def oneNative : Requesters Unit where
  slot _ := 20
  cookie _ := 200#64
  slot_injective _ _ _ := rfl
  cookie_injective _ _ _ := rfl

def nativeRead : IoReq :=
  ⟨20#32, .ioackNativeRead, .ioackNativeWrite, 200#64, 0#32, 0#32, 16#64, 4#64, 0#64⟩

def untilCalled : List (LifeAction Unit) :=
  [.start () nativeRead, .access (), .access (), .access (), .access (),
    .answer ((), ⟨nativeRead, nativeRead.words⟩) 9#64, .handle, .handle, .handle]

/-- The woken thread starts its next request before the slot is cleared. -/
theorem slot_not_safe :
    ¬∀ s, Reach (Lifetime.step oneNative) (Permitted oneNative) .initial s → Safe oneNative s := by
  intro claim
  have fails : (execute (guarded (Lifetime.step oneNative) (Permitted oneNative)) .initial
      (untilCalled ++ [.access (), .start () nativeRead, .access ()])).map Lifetime.aborted = some true := by
    decide +kernel
  obtain ⟨s, ran, aborted⟩ := Option.map_eq_some_iff.mp fails
  have passed := (claim s (.of_execute ran)).passed
  rw [aborted] at passed
  cases passed

/-- The same two requests, the slot cleared in between. -/
theorem slot_lifetime_cleared :
    ∃ s, execute (guarded (Lifetime.step oneNative) (Unraced oneNative)) .initial
        (untilCalled ++ [.access (), .start () nativeRead, .handle, .access (), .access ()]) = some s ∧
      s.point () = .cookie nativeRead ∧ Safe oneNative s := by
  have installs : (execute (guarded (Lifetime.step oneNative) (Unraced oneNative)) .initial
      (untilCalled ++ [.access (), .start () nativeRead, .handle, .access (), .access ()])).map
        (fun s => s.point ()) = some (.cookie nativeRead) := by decide +kernel
  obtain ⟨s, ran, at_⟩ := Option.map_eq_some_iff.mp installs
  exact ⟨s, ran, at_, (slot_lifetime_iff_unraced oneNative s (.of_execute ran)).1⟩

end Virtioso.Proxy
