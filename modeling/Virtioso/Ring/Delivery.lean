import Virtioso.Ring.Safety

/-! Delivery: what producers put into the ring is what consumers take out.

Positions are the indices of the history's `handed` lists, so a position belongs
to the call listed at it. The theorem ties them to what the code computes: the
`entry` of a call, the slot it accesses, and the data that comes out.
-/

set_option autoImplicit false

namespace Virtioso.Ring

open Foundation

variable {ι Store Data Result : Type}

/-- What a thread in or after a dequeue has read from its slot. -/
def Point.received : Point Data Result → Option Result
  | .commit .dequeue got _ => got
  | .returned (.dequeued result) => some result
  | _ => none

structure Delivery (F : ElementFns Store Data Result) (s : State ι Store Data Result) : Prop where
  /-- a call is handed at most one position, and only on its own side -/
  once : ∀ side, (s.history.handed side).Nodup
  kind : ∀ side, ∀ c ∈ s.history.handed side, ∃ call, s.history.calls[c]? = some call ∧ call.side = side
  /-- the entry a call works on stores the one position it was handed -/
  entry : ∀ i call entry, s.point i = .element call entry →
    ∃ p, (s.history.handed call.side)[p]? = some (s.mine i).call ∧ entry = BitVec.ofNat 32 p
  /-- a position goes to a consumer only after its producer has committed it -/
  produced : ∀ p, p < s.history.acquired .cons → p ∈ s.history.committed .prod
  /-- the consumer of position `p` received what the producer of position `p` put there -/
  content : ∀ i result p, (s.point i).received = some result →
    (s.history.handed .cons)[p]? = some (s.mine i).call →
    ∃ data, s.history.dataAt p = some data ∧ result = F.deliver data
  /-- whoever writes the slot of position `p + 32` finds position `p` consumed -/
  overwrite : ∀ i data entry p, s.point i = .element (.enqueue data) entry →
    (s.history.handed .prod)[p + bufferSize]? = some (s.mine i).call → p ∈ s.history.committed .cons
  /-- an enqueue that returned 0 has committed its position -/
  kept : ∀ i, s.point i = .returned .enqueued →
    ∃ p ∈ s.history.committed .prod, (s.history.handed .prod)[p]? = some (s.mine i).call
  /-- a call that returned -1 has no position -/
  refused : ∀ i, s.point i = .returned .refused → ∀ side, (s.mine i).call ∉ s.history.handed side
  sound : ∀ i, s.point i ≠ .aborted

theorem position_unique {s : State ι Store Data Result} {side : Side} {p r c : Nat}
    (unique : (s.history.handed side).Nodup) (first : (s.history.handed side)[p]? = some c)
    (second : (s.history.handed side)[r]? = some c) : p = r := by
  have below := (List.getElem?_eq_some_iff.mp first).1
  exact (List.getElem?_inj below unique).mp (first.trans second.symm)

theorem Inv.delivery {F : ElementFns Store Data Result} {s : State ι Store Data Result}
    (inv : Inv F s) : Delivery F s where
  once side := (inv.bound side).unique
  kind side := (inv.bound side).kind
  entry i call entry at_ := by
    have ok := inv.thread i
    rw [at_] at ok
    exact ⟨_, ok.1.handed, ok.2⟩
  produced p below := by
    have order := inv.order
    exact (inv.bound .prod).visible_committed p (by omega)
  content i result p received handed := by
    have ok := inv.thread i
    have unique := (inv.bound .cons).unique
    cases at_ : s.point i with
    | idle | aborted | acquire _ _ | element _ _ => simp [at_, Point.received] at received
    | commit call got point =>
      cases call with
      | enqueue _ => simp [at_, Point.received] at received
      | dequeue =>
        simp only [at_, Point.received] at received
        subst received
        rw [at_] at ok
        obtain ⟨flight, ⟨data, found, same⟩, _⟩ := ok
        cases position_unique unique flight.handed handed
        exact ⟨data, found, same⟩
    | returned value =>
      cases value with
      | refused | enqueued => simp [at_, Point.received] at received
      | dequeued got =>
        simp only [at_, Point.received, Option.some.injEq] at received
        subst received
        rw [at_] at ok
        obtain ⟨own, _, data, found, same⟩ := ok
        cases position_unique unique own handed
        exact ⟨data, found, same⟩
  overwrite i data entry p at_ handed := by
    have room := inv.room
    have below : p + bufferSize < s.history.acquired .prod := (List.getElem?_eq_some_iff.mp handed).1
    exact (inv.bound .cons).visible_committed p (by omega)
  kept i at_ := by
    have ok := inv.thread i
    rw [at_] at ok
    exact ⟨_, ok.2, ok.1⟩
  refused i at_ := by
    have ok := inv.thread i
    rwa [at_] at ok
  sound i at_ := by
    have ok := inv.thread i
    rwa [at_] at ok

variable [DecidableEq ι]

/-- A step hands out no position, or the next one of one side, to the thread that steps. -/
def HandsOutNext (s t : State ι Store Data Result) : Action ι Data → Prop
  | .invoke _ _ => t.history.handed = s.history.handed
  | .access i => t.history.handed = s.history.handed ∨
      ∃ call, t.point i = .element call (BitVec.ofNat 32 (s.history.acquired call.side)) ∧
        t.history.handed = Function.update s.history.handed call.side
          (s.history.handed call.side ++ [(s.mine i).call])

theorem hands_out_next {F : ElementFns Store Data Result} {s t : State ι Store Data Result}
    (inv : Inv F s) {v : CasVariant} {a : Action ι Data} (window : Windowed s a)
    (edge : step v F s a = some t) : HandsOutNext s t a := by
  rcases step_cases edge with ⟨i, call, rfl, _, rfl⟩ | ⟨i, rfl, _, access⟩
  · rfl
  · cases access with
    | @acquire call ot at_ tail =>
      have after := (inv.acquire at_ tail (by simpa [Windowed, Ring.window, at_] using window)).thread i
      refine .inr ⟨call, ?_, rfl⟩
      simp only [State.afterAcquire, State.put, Function.update_self, ThreadOk] at after ⊢
      rw [after.2]
    | load | waitMore | waitOver | refuse | proceed | acquireRetry | write | read | abort
      | commitLoad | commitTail | commit | commitRetry => exact .inl rfl

/-- Any number of threads on one zero-initialised queue: in every reachable state
positions and data are delivered as above, and every further step hands out at
most the next position. -/
theorem mpmc_delivery (v : CasVariant) (F : ElementFns Store Data Result) (zeroed : Store)
    (s : State ι Store Data Result) (reached : Reachable v F zeroed s) :
    Delivery F s ∧
      ∀ a t, Windowed s a → step v F s a = some t → HandsOutNext s t a := by
  have inv := reachable_inv reached
  exact ⟨inv.delivery, fun _ _ window edge => hands_out_next inv window edge⟩

/-- Two threads enqueue, their accesses interleaved, and one dequeues. -/
def exchange : List (Action Bool MsgPtr) :=
  .invoke true (.enqueue 3) :: .invoke false (.enqueue 5) ::
    List.replicate 5 (.access true) ++ List.replicate 8 (.access false) ++
    List.replicate 3 (.access true) ++ .invoke false .dequeue :: List.replicate 8 (.access false)

theorem mpmc_delivery_exchange :
    ∃ s, execute (guarded (step .user rpcElement) Windowed) (.initial fun _ => 0#16) exchange = some s ∧
      s.point false = .returned (.dequeued 3) ∧ Delivery rpcElement s := by
  obtain ⟨s, ran, got⟩ : ∃ s,
      execute (guarded (step .user rpcElement) Windowed) (.initial fun _ => 0#16) exchange = some s ∧
        s.point false = .returned (.dequeued 3) := ⟨_, rfl, rfl⟩
  exact ⟨s, ran, got, (mpmc_delivery .user rpcElement _ s (.of_execute ran)).1⟩

end Virtioso.Ring
