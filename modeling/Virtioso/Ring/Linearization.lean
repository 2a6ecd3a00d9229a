import Virtioso.Foundation.Simulation
import Virtioso.Ring.Growth
import Virtioso.Ring.Quiescence
import Virtioso.Ring.Refusal

/-! The shared ring is a linearizable FIFO.

What the callers see of any interleaving, the calls and their returns, an atomic FIFO could
have shown as well. A call takes effect with the compare-and-swap on its tail. The only
difference from a plain FIFO is when a call may be refused: an element counts while its
dequeue has not returned, and does not count yet while its enqueue has not.
-/

set_option autoImplicit false

namespace Virtioso.Ring

open Foundation

variable {ι Store Data Result : Type}

inductive FifoEffect (F : ElementFns Store Data Result) (phase : ι → CallPhase (Call Data) (Return Result)) :
    List Data → Call Data → Return Result → List Data → Prop where
  | enqueue {contents : List Data} {data : Data} : contents.length < bufferSize →
      FifoEffect F phase contents (.enqueue data) .enqueued (contents ++ [data])
  | dequeue {oldest : Data} {rest : List Data} :
      FifoEffect F phase (oldest :: rest) .dequeue (.dequeued (F.deliver oldest)) rest
  | full {contents : List Data} {data : Data} :
      (contents.length = bufferSize ∨ ∃ j result, phase j = .done (.dequeued result)) →
      FifoEffect F phase contents (.enqueue data) .refused contents
  | empty {contents : List Data} : (contents = [] ∨ ∃ j, phase j = .done .enqueued) →
      FifoEffect F phase contents .dequeue .refused contents

abbrev atomicFifo (F : ElementFns Store Data Result) [DecidableEq ι] :
    Machine (AtomicObject ι (Call Data) (Return Result) (List Data)) (CallEvent ι (Call Data) (Return Result)) :=
  AtomicStep (FifoEffect F)

def Action.event (t : State ι Store Data Result) : Action ι Data → Option (CallEvent ι (Call Data) (Return Result))
  | .invoke i call => some (.call i call)
  | .access i =>
      match t.point i with
      | .returned value => some (.ret i value)
      | _ => none

def sharedRing [DecidableEq ι] (v : CasVariant) (F : ElementFns Store Data Result) :
    Machine (Observed ι Store Data Result) (CallEvent ι (Call Data) (Return Result)) :=
  ofSteps (Observed.step v F) Brief fun _ a next => (a.event next.state).toList

/-- How far a call is: it has its effect once it has its position. -/
def Point.phase (F : ElementFns Store Data Result) (h : History Data) (m : Mine) :
    Point Data Result → CallPhase (Call Data) (Return Result)
  | .idle | .returned _ | .aborted => .ready
  | .acquire call _ => .called call
  | .element (.enqueue _) _ => .done .enqueued
  | .element .dequeue _ =>
      match h.dataAt m.position with
      | some data => .done (.dequeued (F.deliver data))
      | none => .ready
  | .commit _ got _ => .done (committedReturn got)

def State.atomic (F : ElementFns Store Data Result) (s : State ι Store Data Result) :
    AtomicObject ι (Call Data) (Return Result) (List Data) :=
  ⟨s.history.undelivered, fun i => (s.point i).phase F s.history (s.mine i)⟩

section Undelivered
variable {h h' : History Data} {p c : Nat} {data : Data}

theorem Extends.dataAt (grows : Extends h h') (found : h.dataAt p = some data) : h'.dataAt p = some data := by
  obtain ⟨made, calls⟩ := grows.calls
  obtain ⟨handed, positions⟩ := grows.handed .prod
  simp only [History.dataAt] at found ⊢
  cases at_ : (h.handed .prod)[p]? with
  | none => simp [at_] at found
  | some c =>
    cases call : h.calls[c]? with
    | none => simp [at_, call] at found
    | some _ =>
      rw [← calls, ← positions, List.getElem?_append_left (List.getElem?_eq_some_iff.mp at_).1, at_, Option.bind_some,
        List.getElem?_append_left (List.getElem?_eq_some_iff.mp call).1]
      simpa [at_] using found

variable {F : ElementFns Store Data Result} {s : State ι Store Data Result}

theorem Inv.between_kept (inv : Inv F s) (grows : Extends s.history h') {first n : Nat}
    (below : first + n ≤ s.history.acquired .prod) :
    (List.range' first n).filterMap h'.dataAt = (List.range' first n).filterMap s.history.dataAt := by
  apply List.filterMap_congr
  intro p member
  obtain ⟨_, inside⟩ := List.mem_range'_1.mp member
  obtain ⟨data, found⟩ := (inv.bound .prod).data (Nat.lt_of_lt_of_le inside below)
  rw [found, grows.dataAt found]

theorem Inv.undelivered_kept (inv : Inv F s) (grows : Extends s.history h')
    (same : ∀ side, h'.acquired side = s.history.acquired side) : h'.undelivered = s.history.undelivered := by
  have order := inv.order
  have reach := (inv.bound .prod).visible_le
  rw [History.undelivered, same, same]
  exact inv.between_kept grows (by omega)

theorem Inv.undelivered_enqueue (inv : Inv F s) {m : Mine} (fresh : Fresh s.history m (.enqueue data)) :
    (s.history.hand .prod m.call).undelivered = s.history.undelivered ++ [data] := by
  have order := inv.order
  have reach := (inv.bound .prod).visible_le
  have last : (s.history.hand .prod m.call).dataAt (s.history.acquired .prod) = some data := by
    refine dataAt_eq (c := m.call) ?_ fresh.1
    simp [History.hand, History.acquired]
  have others : (s.history.hand .prod m.call).acquired .cons = s.history.acquired .cons := rfl
  rw [History.undelivered, hand_acquired, others, Nat.succ_sub (by omega), List.range'_1_concat,
    List.filterMap_append, inv.between_kept (hand_extends ..) (by omega)]
  congr 1
  rw [Nat.add_sub_cancel' (by omega), List.filterMap_cons_some last, List.filterMap_nil]

theorem Inv.undelivered_dequeue (inv : Inv F s) (left : s.history.acquired .cons < s.history.acquired .prod) (c : Nat) :
    ∃ data, s.history.dataAt (s.history.acquired .cons) = some data ∧
      s.history.undelivered = data :: (s.history.hand .cons c).undelivered := by
  obtain ⟨data, found⟩ := (inv.bound .prod).data left
  have others : (s.history.hand .cons c).acquired .prod = s.history.acquired .prod := rfl
  refine ⟨data, found, ?_⟩
  rw [History.undelivered, History.undelivered, hand_acquired, others,
    show s.history.acquired .prod - s.history.acquired .cons =
      s.history.acquired .prod - (s.history.acquired .cons + 1) + 1 by omega,
    List.range'_succ, List.filterMap_cons_some found, inv.between_kept (hand_extends ..) (by omega)]

end Undelivered

variable {v : CasVariant} {F : ElementFns Store Data Result} {s t : State ι Store Data Result} {i : ι}

/-! ### How far the calls are -/

theorem Inv.taken (inv : Inv F s) (flight : (s.point i).inFlight = some .cons) :
    ∃ result, (s.point i).phase F s.history (s.mine i) = .done (.dequeued result) := by
  have ok := inv.thread i
  cases at_ : s.point i with
  | idle | acquire _ _ | returned _ | aborted => simp [at_, Point.inFlight] at flight
  | element call entry =>
    rw [at_] at ok flight
    cases call with
    | enqueue data => cases flight
    | dequeue =>
      obtain ⟨data, found, _⟩ := inv.read ok.1
      exact ⟨F.deliver data, by simp only [Point.phase, found]⟩
  | commit call got point =>
    rw [at_] at ok flight
    cases call with
    | enqueue data => cases flight
    | dequeue =>
      cases got with
      | none => exact ok.2.1.elim
      | some result => exact ⟨result, rfl⟩

theorem Inv.added (inv : Inv F s) (flight : (s.point i).inFlight = some .prod) :
    (s.point i).phase F s.history (s.mine i) = .done .enqueued := by
  have ok := inv.thread i
  cases at_ : s.point i with
  | idle | acquire _ _ | returned _ | aborted => simp [at_, Point.inFlight] at flight
  | element call entry =>
    rw [at_] at flight
    cases call with
    | enqueue data => rfl
    | dequeue => cases flight
  | commit call got point =>
    rw [at_] at ok flight
    cases call with
    | enqueue data =>
      cases got with
      | none => rfl
      | some result => exact ok.2.1.elim
    | dequeue => cases flight

theorem Inv.phase_kept (inv : Inv F s) {h : History Data} (grows : Extends s.history h) (j : ι) :
    (s.point j).phase F h (s.mine j) = (s.point j).phase F s.history (s.mine j) := by
  have ok := inv.thread j
  cases at_ : s.point j with
  | idle | acquire _ _ | returned _ | aborted | commit _ _ _ => rfl
  | element call entry =>
    cases call with
    | enqueue data => rfl
    | dequeue =>
      rw [at_] at ok
      obtain ⟨data, found, _⟩ := inv.read ok.1
      simp only [Point.phase, found, grows.dataAt found]

/-- A full or an empty ring looks so to its callers, or there is somebody to wait for. -/
theorem Inv.may_refuse (inv : Inv F s) (held : Held s) {call : Call Data} (justified : Justified s.history call.side) :
    FifoEffect F (s.atomic F).phase (s.atomic F).contents call .refused (s.atomic F).contents := by
  have order := inv.order
  have shown := (inv.bound .prod).visible_le
  have length : (s.atomic F).contents.length = _ := inv.undelivered.1
  cases call with
  | enqueue data =>
    apply FifoEffect.full
    by_cases quiet : ∀ j, (s.point j).inFlight ≠ some .cons
    · left
      have released := (inv.quiet held quiet).2
      simp only [Justified, Call.side] at justified
      omega
    · right
      obtain ⟨j, flight⟩ := not_forall_not.mp quiet
      exact ⟨j, inv.taken flight⟩
  | dequeue =>
    apply FifoEffect.empty
    by_cases quiet : ∀ j, (s.point j).inFlight ≠ some .prod
    · left
      have visible := (inv.quiet held quiet).2
      simp only [Justified, Call.side] at justified
      exact List.length_eq_zero_iff.mp (by omega)
    · right
      obtain ⟨j, flight⟩ := not_forall_not.mp quiet
      exact ⟨j, inv.added flight⟩

/-! ### Simulation -/

variable [DecidableEq ι]

theorem Inv.atomic_access (inv : Inv F s) (access : Access s i v F t) :
    t.atomic F = ⟨t.history.undelivered,
      Function.update (s.atomic F).phase i ((t.point i).phase F t.history (t.mine i))⟩ := by
  refine congrArg (AtomicObject.mk _) (funext fun j => ?_)
  by_cases eq : j = i
  · subst j
    rw [Function.update_self]
  · rw [Function.update_of_ne eq, access.point_of_ne eq, access.mine_of_ne eq]
    exact inv.phase_kept (access_extends access) j

theorem Inv.unseen (inv : Inv F s) (access : Access s i v F t) (history : t.history = s.history)
    (running : (t.point i).running = true)
    (phase : (t.point i).phase F t.history (t.mine i) = (s.point i).phase F s.history (s.mine i)) :
    Shows (atomicFifo F) (s.atomic F) ((Action.access i).event t).toList (t.atomic F) := by
  have silent : (Action.access i).event t = none := by
    cases at_ : t.point i <;> simp [at_, Point.running, Action.event] at running ⊢
  have same : t.atomic F = s.atomic F := by
    rw [inv.atomic_access access, phase, history]
    exact congrArg (AtomicObject.mk _) (Function.update_eq_self i _)
  rw [silent, same]
  exact .start

theorem Inv.returns (inv : Inv F s) (access : Access s i v F t) (kept : t.history.undelivered = s.history.undelivered)
    {value : Return Result} (ended : t.point i = .returned value)
    (effect : Shows (atomicFifo F) (s.atomic F) []
      ⟨s.history.undelivered, Function.update (s.atomic F).phase i (.done value)⟩) :
    Shows (atomicFifo F) (s.atomic F) ((Action.access i).event t).toList (t.atomic F) := by
  have seen : (Action.access i).event t = some (.ret i value) := by simp only [Action.event, ended]
  have returned := effect.next (.ret (Function.update_self ..))
  rw [Function.update_idem] at returned
  rw [seen, inv.atomic_access access, kept, ended]
  exact returned

/-- The compare-and-swap on the tail is where a call takes effect. -/
theorem Inv.takes_effect (inv : Inv F s) {call : Call Data} {ot : Marker} (at_ : s.point i = .acquire call (.cas ot))
    (after : Inv F (s.afterAcquire i call ot)) : ∃ value,
      FifoEffect F (s.atomic F).phase s.history.undelivered call value (s.afterAcquire i call ot).history.undelivered ∧
      ((s.afterAcquire i call ot).atomic F).phase i = .done value := by
  have ok := inv.thread i
  rw [at_] at ok
  have length := inv.undelivered.1
  have freed := (inv.bound .cons).visible_le
  have reach := (inv.bound .prod).visible_le
  have behind := inv.order
  cases call with
  | enqueue data =>
    have room := after.room
    simp only [State.afterAcquire, Call.side, hand_acquired] at room
    refine ⟨.enqueued, ?_, ?_⟩
    · have grown : (s.afterAcquire i (.enqueue data) ot).history.undelivered = _ := inv.undelivered_enqueue ok.1
      rw [grown]
      refine .enqueue ?_
      change s.history.acquired .prod + 1 ≤ s.history.visible .cons + bufferSize at room
      omega
    · simp [State.atomic, State.afterAcquire, State.put, Point.phase]
  | dequeue =>
    have order := after.order
    simp only [State.afterAcquire, Call.side, hand_acquired] at order
    obtain ⟨data, found, taken⟩ := inv.undelivered_dequeue (c := (s.mine i).call) (by
      change s.history.acquired .cons + 1 ≤ s.history.visible .prod at order
      omega)
    refine ⟨.dequeued (F.deliver data), ?_, ?_⟩
    · rw [taken]
      exact .dequeue
    · have still : (s.history.hand .cons (s.mine i).call).dataAt (s.history.acquired .cons) = some data :=
        (hand_extends ..).dataAt found
      simp [State.atomic, State.afterAcquire, State.put, Point.phase, Call.side, still]

/-- One access of the ring is at most an effect and a return of the atomic FIFO. -/
theorem Watched.simulated {o : Observed ι Store Data Result} (watched : Watched F o) (held : Held o.state)
    (brief : Brief o (.access i)) (access : Access o.state i v F t) :
    Shows (atomicFifo F) (o.state.atomic F) ((Action.access i).event t).toList (t.atomic F) := by
  have inv := watched.inv
  have ok := inv.thread i
  have moved := inv.atomic_access access
  have own := access
  cases access with
  | load at_ | waitMore at_ _ | waitOver at_ _ | proceed at_ _ | acquireRetry at_ _ | write at_
    | commitLoad at_ | commitTail at_ | commitRetry at_ _ =>
    refine inv.unseen own rfl ?_ ?_
    · simp [State.put, State.afterWrite, Point.running]
    · simp [State.put, State.afterWrite, at_, Point.phase, committedReturn]
  | @read entry result at_ got =>
    rw [at_] at ok
    obtain ⟨data, found, reads⟩ := inv.read ok.1
    rw [ok.2] at got
    have same : result = F.deliver data := Option.some.inj (got.symm.trans reads)
    refine inv.unseen own rfl ?_ ?_
    · simp [State.put, Point.running]
    · simp [State.put, at_, Point.phase, committedReturn, found, same]
  | abort at_ got =>
    rw [at_] at ok
    obtain ⟨data, _, reads⟩ := inv.read ok.1
    rw [ok.2] at got
    cases got.symm.trans reads
  | @refuse call ot at_ none =>
    rw [at_] at ok
    have noted := watched.noted i
    rw [at_] at noted
    have recent := noted.2
    have pending : (o.state.atomic F).phase i = .called call := by simp only [State.atomic, at_, Point.phase]
    have justified : Justified o.state.history call.side :=
      inv.justified ok.2 (by simp only [Brief] at brief; omega) none
    refine inv.returns own rfl (Function.update_self ..) ?_
    exact .step (AtomicStep.effect pending (inv.may_refuse held justified))
  | @acquire call ot at_ same =>
    have pending : (o.state.atomic F).phase i = .called call := by simp only [State.atomic, at_, Point.phase]
    have windowed := watched.windowed brief
    simp only [Windowed, window, at_] at windowed
    obtain ⟨value, effect, done⟩ := inv.takes_effect at_ (inv.acquire at_ same windowed)
    have silent : (Action.access i).event (o.state.afterAcquire i call ot) = none := by
      simp [Action.event, State.afterAcquire, State.put]
    have final : (o.state.afterAcquire i call ot).atomic F =
        ⟨_, Function.update (o.state.atomic F).phase i (.done value)⟩ := moved.trans (by rw [← done]; rfl)
    rw [silent, final]
    exact .step (AtomicStep.effect pending effect)
  | @commit call got oh nh at_ same =>
    have pending : (o.state.atomic F).phase i = .done (committedReturn got) := by
      simp only [State.atomic, at_, Point.phase]
    refine inv.returns own rfl (Function.update_self ..) ?_
    rw [← pending, Function.update_eq_self]
    exact .start

theorem Inv.called (inv : Inv F s) (ready : (s.point i).ready = true) (call : Call Data) :
    Shows (atomicFifo F) (s.atomic F) [.call i call] ((s.invoke i call).atomic F) := by
  have before : (s.atomic F).phase i = .ready := by
    cases at_ : s.point i <;> simp [at_, Point.ready, State.atomic, Point.phase] at ready ⊢
  have contents : (s.invoke i call).history.undelivered = s.history.undelivered :=
    inv.undelivered_kept (invoke_extends s i call) fun _ => rfl
  have after : ((s.invoke i call).atomic F) =
      ⟨s.history.undelivered, Function.update (s.atomic F).phase i (.called call)⟩ := by
    rw [← contents]
    refine congrArg (AtomicObject.mk _) (funext fun j => ?_)
    by_cases eq : j = i
    · subst j
      simp [State.invoke, Point.phase]
    · simp only [State.invoke, State.atomic, Function.update_of_ne eq]
      exact inv.phase_kept (invoke_extends s i call) j
  rw [after]
  exact Shows.step (AtomicStep.call before)

theorem ring_simulates (v : CasVariant) (F : ElementFns Store Data Result) :
    ForwardSimulation (sharedRing v F) (atomicFifo F) fun (o : Observed ι Store Data Result) fifo =>
      (Watched F o ∧ Held o.state) ∧ fifo = o.state.atomic F := by
  rintro o _ _ next ⟨⟨watched, held⟩, rfl⟩ ⟨a, brief, edge, rfl⟩
  have after := watched.step brief edge
  obtain ⟨t, moved, rfl⟩ := Option.map_eq_some_iff.mp edge
  rcases step_cases moved with ⟨i, call, rfl, ready, rfl⟩ | ⟨i, rfl, _, access⟩
  · exact ⟨_, watched.inv.called ready call, ⟨after, held.step after.inv moved⟩, rfl⟩
  · exact ⟨_, watched.simulated held brief access, ⟨after, held.step after.inv moved⟩, rfl⟩

/-- Whatever calls and returns any interleaving on a zero-initialised ring shows, an atomic
FIFO shows them too, and ends with the data that are in the ring. -/
theorem ring_linearizable (v : CasVariant) (F : ElementFns Store Data Result) (zeroed : Store)
    (o : Observed ι Store Data Result) (seen : List (CallEvent ι (Call Data) (Return Result)))
    (run : Shows (sharedRing v F) (.initial zeroed) seen o) :
    Shows (atomicFifo F) ⟨[], fun _ => .ready⟩ seen (o.state.atomic F) := by
  obtain ⟨fifo, shown, _, rfl⟩ := (ring_simulates v F).shows
    ⟨⟨Watched.initial F zeroed, held_initial zeroed⟩, rfl⟩ run
  exact shown

/-- A dequeue is refused while another one has the only element, and has not returned. -/
theorem ring_linearizable_overlapping : ∃ fifo : AtomicObject Bool (Call MsgPtr) (Return MsgPtr) (List MsgPtr),
    Shows (atomicFifo rpcElement) ⟨[], fun _ => .ready⟩
      [.call true (.enqueue 1), .ret true .enqueued, .call false .dequeue, .call true .dequeue, .ret true .refused]
      fifo ∧ fifo.contents = [] ∧ fifo.phase false = .done (.dequeued 1) := by
  obtain ⟨o, ran, seen, contents, phase⟩ : ∃ o : Observed Bool RingIds MsgPtr MsgPtr,
      execute (guarded (Observed.step .kernel rpcElement) Brief) (.initial fun _ => 0#16)
          (overlapping ++ [.access true]) = some o ∧
        shownBy (guarded (Observed.step .kernel rpcElement) Brief) (fun _ a next => (a.event next.state).toList)
          (.initial fun _ => 0#16) (overlapping ++ [.access true]) = [.call true (.enqueue 1), .ret true .enqueued,
            .call false .dequeue, .call true .dequeue, .ret true .refused] ∧
        (o.state.atomic rpcElement).contents = [] ∧
        (o.state.atomic rpcElement).phase false = .done (.dequeued 1) := ⟨_, rfl, rfl, rfl, rfl⟩
  have run := Shows.of_execute (fun _ a (next : Observed Bool RingIds MsgPtr MsgPtr) => (a.event next.state).toList) ran
  exact ⟨_, ring_linearizable .kernel rpcElement _ o _ (seen ▸ run), contents, phase⟩

end Virtioso.Ring
