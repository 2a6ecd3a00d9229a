import Virtioso.Proxy.Notification
import Virtioso.Ring.Consumer
import Virtioso.Ring.Tracking

/-! No message waits for an unrelated doorbell.

The frontend leaves a loop only when it finds the queue empty. A queue fills again
by the head update of a thread that rings afterwards, and the notification it sets
starts both loops anew. So what is visible is announced, or is looked for.
-/

set_option autoImplicit false

namespace Virtioso.Proxy

open Foundation Virtioso.Ring Rpc

section Roles
variable {ι Store Data Result : Type}

/-- Backend threads only enqueue, and the frontend is the only consumer. -/
structure Roles (r : State (Agent ι) Store Data Result) : Prop where
  backends : ∀ i, (r.point (.backend i)).side ≠ some .cons
  frontend : (r.point .frontend).side ≠ some .prod
  sole : Sole (r.queue.bound .cons) (r.point .frontend)

variable [DecidableEq ι] {r t : State (Agent ι) Store Data Result} {i : ι} {v : CasVariant}
  {F : ElementFns Store Data Result}

theorem Roles.invoke_backend (roles : Roles r) (data : Data) :
    Roles (r.invoke (.backend i) (.enqueue data)) where
  backends j := by
    by_cases same : j = i
    · subst same
      simp [State.invoke, Point.side, Call.side]
    · simpa [State.invoke, same] using roles.backends j
  frontend := by simpa [State.invoke] using roles.frontend
  sole := by simpa [State.invoke] using roles.sole

theorem Roles.invoke_frontend (roles : Roles r) (ready : (r.point .frontend).ready = true) :
    Roles (r.invoke .frontend .dequeue) where
  backends j := by simpa [State.invoke] using roles.backends j
  frontend := by simp [State.invoke, Point.side, Call.side]
  sole := by
    have sole := roles.sole
    simp only [State.invoke, Function.update_self]
    cases point : r.point .frontend with
    | idle | returned value =>
      rw [point] at sole
      exact sole
    | acquire _ _ | element _ _ | commit _ _ _ | aborted => simp [point, Point.ready] at ready

theorem Roles.access_backend (roles : Roles r) (access : Access r (.backend i) v F t) : Roles t where
  backends j := by
    by_cases same : j = i
    · subst same
      rcases access.keeps_side with outside | kept
      · simp [outside]
      · rw [kept]
        exact roles.backends j
    · rw [access.point_of_ne (by simpa using same)]
      exact roles.backends j
  frontend := by
    rw [access.point_of_ne (by simp)]
    exact roles.frontend
  sole := by
    rw [access.point_of_ne (by simp), access.bound_of_ne (roles.backends i)]
    exact roles.sole

omit [DecidableEq ι] in
theorem running_side (running : (r.point .frontend).running = true) (roles : Roles r) :
    (r.point .frontend).side = some .cons := by
  have frontend := roles.frontend
  cases point : r.point .frontend with
  | idle | returned _ | aborted => simp [point, Point.running] at running
  | acquire call _ | element call _ | commit call _ _ =>
    rw [point] at frontend
    cases call with
    | dequeue => rfl
    | enqueue data => exact absurd rfl frontend

theorem Roles.access_frontend (roles : Roles r) (running : (r.point .frontend).running = true)
    (access : Access r .frontend v F t) : Roles t where
  backends j := by
    rw [access.point_of_ne (by simp)]
    exact roles.backends j
  frontend := by
    rcases access.keeps_side with outside | kept
    · simp [outside]
    · rw [kept]
      exact roles.frontend
  sole := roles.sole.access (running_side running roles) access

theorem Roles.empty (roles : Roles r) (access : Access r (.backend i) v F t)
    (empty : rpcmsgQueueEmpty r.queue = true) :
    rpcmsgQueueEmpty t.queue = true ∨ ∃ value, t.point (.backend i) = .returned value ∧ value ≠ .refused := by
  rcases access.head .prod with kept | ended
  · left
    have cons : t.queue.cons = r.queue.cons := access.bound_of_ne (roles.backends i)
    have prod : t.queue.prod.head = r.queue.prod.head := kept
    rw [rpcmsgQueueEmpty, cons, prod]
    exact empty
  · exact .inr ended

end Roles

variable {ι : Type}

def Wakeup.Checks (s : Wakeup ι) (c : Channel) : Prop :=
  match s.front with
  | .idle => False
  | .register => True
  | .loop d => (d = c → (s.rings c).point .frontend ≠ .returned .refused) ∧ (d = .events → c = .events)

/-- What is visible in this queue is announced, or is looked for. -/
def Wakeup.Announced (s : Wakeup ι) (c : Channel) : Prop :=
  rpcmsgQueueEmpty (s.rings c).queue = true ∨ s.pending = true ∨ (∃ i, s.Unannounced i c) ∨ s.Checks c

structure WakeInv (s : Wakeup ι) : Prop where
  roles : ∀ c, Roles (s.rings c)
  away : ∀ c, s.front ≠ .loop c → ((s.rings c).point .frontend).inFlight = none
  announced : ∀ c, s.Announced c

theorem wakeInv_initial : WakeInv (.initial : Wakeup ι) where
  roles _ := ⟨fun _ => by simp [Wakeup.initial, State.initial, Point.side],
    by simp [Wakeup.initial, State.initial, Point.side], rfl⟩
  away _ _ := rfl
  announced _ := .inl rfl

/-- What a step leaves of a queue and its surroundings keeps the queue announced. -/
theorem Wakeup.Announced.frame {s t : Wakeup ι} {c : Channel} (announced : s.Announced c)
    (queue : (t.rings c).queue = (s.rings c).queue) (pending : s.pending = true → t.pending = true)
    (unannounced : ∀ i, s.Unannounced i c → t.Unannounced i c) (checks : s.Checks c → t.Announced c) :
    t.Announced c := by
  rcases announced with empty | set | ⟨i, sent⟩ | looks
  · exact .inl (queue ▸ empty)
  · exact .inr (.inl (pending set))
  · exact .inr (.inr (.inl ⟨i, unannounced i sent⟩))
  · exact checks looks

section Preservation
variable [DecidableEq ι] {s t : Wakeup ι} {v : CasVariant}

omit [DecidableEq ι] in
theorem roles_update (roles : ∀ d, Roles (s.rings d)) {c : Channel} {r : State (Agent ι) c.Store c.Data c.Data}
    (new : Roles r) : ∀ d, Roles (Function.update s.rings c r d) :=
  (Function.forall_update_iff s.rings fun _ r => Roles r).mpr ⟨new, fun d _ => roles d⟩

theorem WakeInv.send (inv : WakeInv s) {i : ι} {c : Channel} {data : c.Data} (resting : s.backend i = .resting)
    (edge : (s.ringStep v c (.invoke (.backend i) (.enqueue data))).map
      (fun s => s.setBackend i (.sending c)) = some t) : WakeInv t := by
  obtain ⟨_, stepped, rfl⟩ := Option.map_eq_some_iff.mp edge
  obtain ⟨r, called, rfl⟩ := Option.map_eq_some_iff.mp stepped
  obtain ⟨_, called⟩ := Option.ite_none_right_eq_some.mp called
  cases called
  have front : ∀ d, ((Function.update s.rings c ((s.rings c).invoke (.backend i) (.enqueue data))) d).point
      .frontend = (s.rings d).point .frontend := fun d => by
    by_cases same : d = c
    · subst same
      simp [State.invoke]
    · simp [same]
  refine ⟨roles_update inv.roles ((inv.roles c).invoke_backend data), fun d apart => ?_,
    fun d => (inv.announced d).frame ?_ id (fun j sent => ?_) fun looks => ?_⟩
  · simp only [Wakeup.setBackend, front]
    exact inv.away d apart
  · by_cases same : d = c
    · subst same
      simp [Wakeup.setBackend, State.invoke]
    · simp [Wakeup.setBackend, same]
  · -- a backend that starts to send has announced what it sent before
    obtain ⟨sending, value, returned, accepted⟩ := sent
    have other : j ≠ i := by
      rintro rfl
      rw [resting] at sending
      cases sending
    refine ⟨by simpa [Wakeup.setBackend, other] using sending, value, ?_, accepted⟩
    by_cases same : d = c
    · subst same
      simpa [Wakeup.setBackend, State.invoke, other] using returned
    · simpa [Wakeup.setBackend, same] using returned
  · right; right; right
    simpa only [Wakeup.Checks, Wakeup.setBackend, front] using looks

theorem WakeInv.work (inv : WakeInv s) {i : ι} {c : Channel} (sending : s.backend i = .sending c)
    (edge : s.ringStep v c (.access (.backend i)) = some t) : WakeInv t := by
  obtain ⟨r, stepped, rfl⟩ := Option.map_eq_some_iff.mp edge
  obtain ⟨running, stepped⟩ := Option.ite_none_right_eq_some.mp stepped
  cases stepped
  have access := access_cases (s := s.rings c) (i := .backend i) v c.element running
  generalize (s.rings c).access v c.element (.backend i) = r at access
  have front : ∀ d, ((Function.update s.rings c r) d).point .frontend = (s.rings d).point .frontend := fun d => by
    by_cases same : d = c
    · subst same
      simp [access.point_of_ne]
    · simp [same]
  have checks : ∀ d, s.Checks d → ({ s with rings := Function.update s.rings c r } : Wakeup ι).Checks d := by
    intro d looks
    simpa only [Wakeup.Checks, front] using looks
  -- the thread that takes the step has not finished its enqueue
  have sent : ∀ d j, s.Unannounced j d →
      ({ s with rings := Function.update s.rings c r } : Wakeup ι).Unannounced j d := by
    rintro d j ⟨to_d, value, returned, accepted⟩
    refine ⟨to_d, value, ?_, accepted⟩
    by_cases same : d = c
    · subst same
      have other : j ≠ i := by
        rintro rfl
        rw [returned] at running
        cases running
      simpa [access.point_of_ne, other] using returned
    · simpa [same] using returned
  refine ⟨roles_update inv.roles ((inv.roles c).access_backend access), fun d apart => ?_, fun d => ?_⟩
  · simp only [front]
    exact inv.away d apart
  · by_cases same : d = c
    · subst same
      rcases inv.announced d with empty | set | ⟨j, unannounced⟩ | looks
      · rcases (inv.roles d).empty access empty with stays | ⟨value, returned, accepted⟩
        · exact .inl (by simpa using stays)
        · exact .inr (.inr (.inl ⟨i, sending, value, by simpa using returned, accepted⟩))
      · exact .inr (.inl set)
      · exact .inr (.inr (.inl ⟨j, sent d j unannounced⟩))
      · exact .inr (.inr (.inr (checks d looks)))
    · exact (inv.announced d).frame (by simp [same]) id (sent d) fun looks => .inr (.inr (.inr (checks d looks)))

theorem WakeInv.enter {c : Channel} (roles : ∀ d, Roles (s.rings d))
    (away : ∀ d, d ≠ c → ((s.rings d).point .frontend).inFlight = none)
    (before : c = .events → s.Announced .responses ∧ ¬s.Checks .responses)
    (edge : s.enter v c = some t) : WakeInv t := by
  obtain ⟨_, stepped, rfl⟩ := Option.map_eq_some_iff.mp edge
  obtain ⟨r, called, rfl⟩ := Option.map_eq_some_iff.mp stepped
  obtain ⟨ready, called⟩ := Option.ite_none_right_eq_some.mp called
  cases called
  refine ⟨roles_update roles ((roles c).invoke_frontend ready), fun d apart => ?_, fun d => ?_⟩
  · have other : d ≠ c := fun same => apart (congrArg FrontPoint.loop same.symm)
    simpa [other] using away d other
  · by_cases same : d = c
    · -- the loop that is entered checks its queue
      subst same
      exact .inr (.inr (.inr ⟨fun _ => by simp [State.invoke], id⟩))
    · cases c with
      | responses =>
        cases d with
        | responses => exact absurd rfl same
        | events => exact .inr (.inr (.inr ⟨fun other => (by cases other), fun _ => rfl⟩))
      | events =>
        cases d with
        | events => exact absurd rfl same
        | responses =>
          obtain ⟨announced, unchecked⟩ := before rfl
          refine announced.frame (by simp) id (fun j sent => ?_) fun looks => absurd looks unchecked
          obtain ⟨sending, value, returned, accepted⟩ := sent
          exact ⟨sending, value, by simpa using returned, accepted⟩

theorem WakeInv.look (inv : WakeInv s) {c : Channel} (front : s.front = .loop c)
    (edge : s.ringStep v c (.access .frontend) = some t) : WakeInv t := by
  obtain ⟨r, stepped, rfl⟩ := Option.map_eq_some_iff.mp edge
  obtain ⟨running, stepped⟩ := Option.ite_none_right_eq_some.mp stepped
  cases stepped
  have access := access_cases (s := s.rings c) (i := .frontend) v c.element running
  generalize (s.rings c).access v c.element .frontend = r at access
  have own := running_side running (inv.roles c)
  refine ⟨roles_update inv.roles ((inv.roles c).access_frontend running access), fun d apart => ?_, fun d => ?_⟩
  · have other : d ≠ c := fun same => apart (by rw [front, same])
    simpa [other] using inv.away d apart
  · by_cases same : d = c
    · subst same
      by_cases refused : r.point .frontend = .returned .refused
      · -- the loop ends on an empty queue
        left
        simpa using access.refused_empty own (inv.roles d).sole refused
      · right; right; right
        simp only [Wakeup.Checks, front]
        exact ⟨fun _ => by simpa using refused, id⟩
    · refine (inv.announced d).frame (by simp [same]) id (fun j sent => ?_) fun looks => ?_
      · obtain ⟨sending, value, returned, accepted⟩ := sent
        exact ⟨sending, value, by simpa [same] using returned, accepted⟩
      · right; right; right
        simpa [Wakeup.Checks, front, same] using looks

theorem WakeInv.stepFront (inv : WakeInv s) (edge : s.stepFront v = some t) : WakeInv t := by
  cases front : s.front with
  | idle =>
    simp only [Wakeup.stepFront, front, Option.ite_none_right_eq_some, Option.some.injEq] at edge
    obtain ⟨_, rfl⟩ := edge
    exact ⟨inv.roles, fun c _ => inv.away c (by simp [front]), fun _ => .inr (.inr (.inr trivial))⟩
  | register =>
    simp only [Wakeup.stepFront, front] at edge
    refine WakeInv.enter (s := ⟨s.rings, s.backend, .register, s.pending, true⟩) (c := .responses) inv.roles
      (fun d _ => inv.away d (by simp [front])) ?_ edge
    intro other
    cases other
  | loop c =>
    have away : ∀ d, d ≠ c → ((s.rings d).point .frontend).inFlight = none :=
      fun d other => inv.away d (by simp [front, Ne.symm other])
    simp only [Wakeup.stepFront, front] at edge
    cases point : (s.rings c).point .frontend with
    | returned value =>
      rw [point] at edge
      cases value with
      | refused =>
        -- the loop over the responses is followed by that over the events, and this one by none
        cases c with
        | responses =>
          refine WakeInv.enter inv.roles (fun d other => ?_) (fun _ => ⟨inv.announced _, fun looks => ?_⟩) edge
          · cases d with
            | responses => simp [point, Point.inFlight]
            | events => exact absurd rfl other
          · simp only [Wakeup.Checks, front] at looks
            exact looks.1 trivial point
        | events =>
          cases edge
          refine ⟨inv.roles, fun d _ => ?_, fun d => (inv.announced d).frame rfl id (fun _ sent => sent) fun looks => ?_⟩
          · cases d with
            | responses => exact away .responses (by decide)
            | events => simp [point, Point.inFlight]
          · simp only [Wakeup.Checks, front] at looks
            cases looks.2 trivial
            exact absurd point (looks.1 rfl)
      | enqueued | dequeued message =>
        refine WakeInv.enter inv.roles away (fun events => ⟨inv.announced _, fun looks => ?_⟩) edge
        simp only [Wakeup.Checks, front] at looks
        cases looks.2 events
    | idle | aborted | acquire _ _ | element _ _ | commit _ _ _ =>
      rw [point] at edge
      exact inv.look front edge

theorem WakeInv.stepBackend (inv : WakeInv s) {i : ι} (edge : s.stepBackend v i = some t) : WakeInv t := by
  cases sending : s.backend i with
  | resting => simp [Wakeup.stepBackend, sending] at edge
  | sending c =>
    simp only [Wakeup.stepBackend, sending] at edge
    cases point : (s.rings c).point (.backend i) with
    | returned value =>
      rw [point] at edge
      cases value with
      | refused =>
        cases edge
        refine ⟨inv.roles, inv.away, fun d => (inv.announced d).frame rfl id (fun j sent => ?_) fun looks =>
          .inr (.inr (.inr looks))⟩
        obtain ⟨to_d, value, returned, accepted⟩ := sent
        -- the refused call has put nothing into its queue, so it announces nothing
        have other : j ≠ i := by
          rintro rfl
          rw [sending] at to_d
          cases to_d
          rw [point] at returned
          cases returned
          exact accepted rfl
        exact ⟨by simpa [Wakeup.setBackend, other] using to_d, value, returned, accepted⟩
      | enqueued | dequeued _ =>
        cases edge
        exact ⟨inv.roles, inv.away, fun _ => .inr (.inl rfl)⟩
    | idle | aborted | acquire _ _ | element _ _ | commit _ _ _ =>
      rw [point] at edge
      exact inv.work sending edge

theorem WakeInv.step (inv : WakeInv s) {w : Agent ι → CasVariant} {a : WakeAction ι}
    (edge : s.step w a = some t) : WakeInv t := by
  cases a with
  | send i c data =>
    obtain ⟨resting, edge⟩ := Option.ite_none_right_eq_some.mp edge
    exact inv.send resting edge
  | backend i => exact inv.stepBackend edge
  | front => exact inv.stepFront edge
  | run =>
    obtain ⟨idle, edge⟩ := Option.ite_none_right_eq_some.mp edge
    cases edge
    exact ⟨inv.roles, fun c _ => inv.away c (by simp [idle]), fun _ => .inr (.inr (.inr trivial))⟩

end Preservation

theorem WakeInv.empty {s : Wakeup ι} (inv : WakeInv s) (calm : s.Calm) (c : Channel) :
    rpcmsgQueueEmpty (s.rings c).queue = true := by
  rcases inv.announced c with empty | set | ⟨i, sent⟩ | looks
  · exact empty
  · rw [calm.pending] at set
    cases set
  · exact absurd sent (calm.announced i c)
  · simp only [Wakeup.Checks, calm.front] at looks

section Windows
variable [DecidableEq ι] {s t : Wakeup ι}

/-- A step leaves the queues, or steps on one of them, with the window of its own access. -/
def Wakeup.Moves (s : Wakeup ι) (a : WakeAction ι) (t : Wakeup ι) : Prop :=
  t.rings = s.rings ∨ ∃ c act v r, Ring.step v c.element (s.rings c) act = some r ∧
    t.rings = Function.update s.rings c r ∧ (WindowedWake s a → Windowed (s.rings c) act)

theorem ringStep_moves {v : CasVariant} {a : WakeAction ι} {c : Channel} {act : Action (Agent ι) c.Data}
    (edge : s.ringStep v c act = some t) (window : WindowedWake s a → Windowed (s.rings c) act) :
    s.Moves a t := by
  obtain ⟨r, stepped, rfl⟩ := Option.map_eq_some_iff.mp edge
  exact .inr ⟨c, act, v, r, stepped, rfl, window⟩

theorem enter_rings {v : CasVariant} {c : Channel} (edge : s.enter v c = some t) :
    ∃ r, Ring.step v c.element (s.rings c) (.invoke .frontend .dequeue) = some r ∧
      t.rings = Function.update s.rings c r := by
  obtain ⟨_, entered, rfl⟩ := Option.map_eq_some_iff.mp edge
  obtain ⟨r, called, rfl⟩ := Option.map_eq_some_iff.mp entered
  exact ⟨r, called, rfl⟩

theorem step_moves {w : Agent ι → CasVariant} {a : WakeAction ι} (edge : s.step w a = some t) :
    s.Moves a t := by
  cases a with
  | send i c data =>
    obtain ⟨_, edge⟩ := Option.ite_none_right_eq_some.mp edge
    obtain ⟨_, stepped, rfl⟩ := Option.map_eq_some_iff.mp edge
    obtain ⟨r, called, rfl⟩ := Option.map_eq_some_iff.mp stepped
    exact .inr ⟨c, _, _, r, called, rfl, fun _ => trivial⟩
  | run =>
    obtain ⟨_, edge⟩ := Option.ite_none_right_eq_some.mp edge
    cases edge
    exact .inl rfl
  | backend i =>
    cases sending : s.backend i with
    | resting => simp [Wakeup.step, Wakeup.stepBackend, sending] at edge
    | sending c =>
      have window : WindowedWake s (.backend i) → Windowed (s.rings c) (.access (.backend i)) :=
        fun windowed => windowed c _ (by simp [Wakeup.queueOf, sending])
      simp only [Wakeup.step, Wakeup.stepBackend, sending] at edge
      split at edge
      · cases edge
        exact .inl rfl
      · cases edge
        exact .inl rfl
      · exact ringStep_moves edge window
  | front =>
    cases front : s.front with
    | idle =>
      simp only [Wakeup.step, Wakeup.stepFront, front, Option.ite_none_right_eq_some, Option.some.injEq] at edge
      obtain ⟨_, rfl⟩ := edge
      exact .inl rfl
    | register =>
      simp only [Wakeup.step, Wakeup.stepFront, front] at edge
      obtain ⟨r, called, moved⟩ := enter_rings edge
      exact .inr ⟨.responses, _, _, r, called, moved, fun _ => trivial⟩
    | loop c =>
      have window : WindowedWake s .front → Windowed (s.rings c) (.access .frontend) :=
        fun windowed => windowed c _ (by simp [Wakeup.queueOf, front])
      simp only [Wakeup.step, Wakeup.stepFront, front] at edge
      split at edge
      · cases c with
        | responses =>
          obtain ⟨r, called, moved⟩ := enter_rings edge
          exact .inr ⟨.events, _, _, r, called, moved, fun _ => trivial⟩
        | events =>
          cases edge
          exact .inl rfl
      · obtain ⟨r, called, moved⟩ := enter_rings edge
        exact .inr ⟨c, _, _, r, called, moved, fun _ => trivial⟩
      · exact ringStep_moves edge window

def RingsOk (s : Wakeup ι) : Prop := ∀ c, Ring.Inv c.element (s.rings c) ∧ Ring.Held (s.rings c)

theorem RingsOk.step (ok : RingsOk s) {w : Agent ι → CasVariant} {a : WakeAction ι}
    (windowed : WindowedWake s a) (edge : s.step w a = some t) : RingsOk t := by
  rcases step_moves edge with same | ⟨c, act, v, r, stepped, moved, window⟩
  · intro d
    rw [same]
    exact ok d
  · intro d
    rw [moved]
    by_cases here : d = c
    · subst here
      rw [Function.update_self]
      have after := (ok d).1.step (window windowed) stepped
      exact ⟨after, (ok d).2.step after stepped⟩
    · rw [Function.update_of_ne here]
      exact ok d

end Windows

structure Taken {κ Store Data Result : Type} (r : State κ Store Data Result) : Prop where
  level : ∀ side, (r.queue.bound side).head = (r.queue.bound side).tail
  all : (r.history.handed .cons).length = (r.history.handed .prod).length

theorem taken_of_empty {κ Store Data Result : Type} [DecidableEq κ] {F : ElementFns Store Data Result}
    {r : State κ Store Data Result} (inv : Ring.Inv F r) (held : Ring.Held r)
    (quiet : ∀ i, (r.point i).inFlight = none) (empty : rpcmsgQueueEmpty r.queue = true) : Taken r := by
  have still (side : Side) (i : κ) : (r.point i).inFlight ≠ some side := by
    rw [quiet]
    exact Option.some_ne_none _ ∘ Eq.symm
  refine ⟨fun side => by rw [inv.quiet_bound held (still side)], ?_⟩
  have order := inv.order
  have room := inv.room
  have prod := congrArg (fun b => b.head.pos) (inv.quiet_bound held (still .prod))
  have cons := congrArg (fun b => b.head.pos) (inv.quiet_bound held (still .cons))
  rw [rpcmsgQueueEmpty, beq_iff_eq] at empty
  simp only [Queue.bound, stored] at prod cons
  rw [prod, cons] at empty
  rw [(inv.quiet held (still .prod)).2] at order
  rw [(inv.quiet held (still .cons)).2] at room
  -- equal heads modulo the word are equal, as producers are one ring ahead at most
  have same : r.history.acquired .cons = r.history.acquired .prod :=
    ofNat_inj_of_window order (by simp only [bufferSize] at room; omega) empty.symm
  exact same

/-- In a calm state both queues are empty. Unless a window has wrapped, all messages
that were ever sent have been taken out. -/
theorem no_stranded_messages [DecidableEq ι] (w : Agent ι → CasVariant) (s : Wakeup ι)
    (reached : Reach (Wakeup.step w) anyStep .initial s) (calm : s.Calm) :
    (∀ c, rpcmsgQueueEmpty (s.rings c).queue = true) ∧
      (Reach (Wakeup.step w) WindowedWake .initial s → ∀ c, Taken (s.rings c)) := by
  have inv := reached.invariant (P := WakeInv) wakeInv_initial fun _ _ _ inv _ edge => inv.step edge
  refine ⟨inv.empty calm, fun windowed c => ?_⟩
  have ok := windowed.invariant (P := RingsOk) (fun c => ⟨Ring.Inv.initial c.element c.zeroed, held_initial _⟩)
    fun _ _ _ ok window edge => ok.step window edge
  refine taken_of_empty (ok c).1 (ok c).2 (fun agent => ?_) (inv.empty calm c)
  cases agent with
  | frontend => exact inv.away c (by simp [calm.front])
  | backend i => exact calm.flight i c

def answered : List (WakeAction Unit) :=
  .run :: List.replicate 9 .front ++ driverRpcReplyCall () 3 :: List.replicate 9 (.backend ()) ++
    List.replicate 19 .front

theorem answered_reached :
    (execute (guarded (Wakeup.step fun _ => .user) anyStep) .initial answered).map (fun s =>
      ((s.pending, s.front, s.backend ()), [Channel.responses, .events].map fun c =>
        (((s.rings c).point (.backend ())).inFlight, (s.rings c).queue.cons.tail.pos))) =
      some ((false, .idle, .resting), [(none, 1#32), (none, 0#32)]) := by
  decide +kernel

/-- The reply has been taken out, and nothing is left. -/
theorem no_stranded_messages_answered :
    ∃ s, execute (guarded (Wakeup.step fun _ => .user) anyStep) .initial answered = some s ∧
      (s.rings .responses).queue.cons.tail.pos = 1#32 ∧ ∀ c, rpcmsgQueueEmpty (s.rings c).queue = true := by
  obtain ⟨s, ran, found⟩ := Option.map_eq_some_iff.mp answered_reached
  simp only [List.map_cons, List.map_nil, Prod.mk.injEq, List.cons.injEq] at found
  obtain ⟨⟨pending, front, resting⟩, ⟨response, taken⟩, ⟨event, _⟩, _⟩ := found
  have calm : s.Calm := by
    refine ⟨pending, front, fun i c => ?_, fun i c sent => ?_⟩
    · cases c with
      | responses => exact response
      | events => exact event
    · have sending := sent.1
      rw [resting] at sending
      cases sending
  exact ⟨s, ran, taken, (no_stranded_messages _ s (.of_execute ran) calm).1⟩

end Virtioso.Proxy
