import Virtioso.Proxy.Stranded
import Virtioso.Ring.Growth

/-! The frontend handles what the backends send, once and in order.

`rpc_run` takes messages out of the two queues one after the other and hands each to
`rpc_process`. What it has handed over is recorded here beside the state, and compared
with what the backends put in, in the order of the positions. One thread at a time runs
the loops, and every message is handled: a failed one would end them and the program.
-/

set_option autoImplicit false

namespace Virtioso.Proxy

open Foundation Virtioso.Ring Rpc

def dataOf {Data : Type} : Call Data → Option Data
  | .enqueue data => some data
  | .dequeue => none

def sentData {Data : Type} (h : History Data) : List Data :=
  (h.handed .prod).filterMap fun n => h.calls[n]?.bind dataOf

/-- A dequeue that has a position and is not followed by another one. -/
def inHand {Data Result : Type} : Point Data Result → Bool
  | .element _ _ | .commit _ _ _ | .returned (.dequeued _) => true
  | .idle | .acquire _ _ | .returned .refused | .returned .enqueued | .aborted => false

variable {ι : Type}

/-- The messages that `rpc_process` was called for, beside the queues and threads. -/
structure Recorded (ι : Type) where
  wake : Wakeup ι
  handled : (c : Channel) → List c.Data

def Recorded.initial : Recorded ι := ⟨.initial, fun _ => []⟩

def Recorded.record (s : Recorded ι) : (c : Channel) → List c.Data :=
  match s.wake.front with
  | .loop c =>
      match (s.wake.rings c).point .frontend with
      | .returned (.dequeued msg) => Function.update s.handled c (s.handled c ++ [msg])
      | _ => s.handled
  | .idle | .register => s.handled

/-- A step of the machine of the queues, in runs where `rpc_process` returns 0 for every message. -/
def Recorded.step [DecidableEq ι] (v : Agent ι → CasVariant) (s : Recorded ι) (a : WakeAction ι) :
    Option (Recorded ι) :=
  (s.wake.step v a).map fun wake => ⟨wake, match a with | .front => s.record | _ => s.handled⟩

/-! ### What one step can be -/

section Cases
variable [DecidableEq ι] (v : Agent ι → CasVariant) (s : Wakeup ι)

inductive WakeStep : WakeAction ι → Wakeup ι → Prop where
  | send {i : ι} {c : Channel} {data : c.Data} : s.backend i = .resting →
      ((s.rings c).point (.backend i)).ready = true →
      WakeStep (.send i c data) ({ s with
        rings := Function.update s.rings c ((s.rings c).invoke (.backend i) (.enqueue data)) }.setBackend i (.sending c))
  | work {i : ι} {c : Channel} {r : State (Agent ι) c.Store c.Data c.Data} : s.backend i = .sending c →
      ((s.rings c).point (.backend i)).running = true → Access (s.rings c) (.backend i) (v (.backend i)) c.element r →
      WakeStep (.backend i) { s with rings := Function.update s.rings c r }
  | rejected {i : ι} {c : Channel} : s.backend i = .sending c →
      (s.rings c).point (.backend i) = .returned .refused → WakeStep (.backend i) (s.setBackend i .resting)
  | rung {i : ι} {c : Channel} {value : Return c.Data} : s.backend i = .sending c →
      (s.rings c).point (.backend i) = .returned value → value ≠ .refused →
      WakeStep (.backend i) { s.setBackend i .resting with pending := true }
  | run : s.front = .idle → WakeStep .run { s with front := .register }
  | callback : s.front = .idle → s.pending = true → s.registered = true →
      WakeStep .front { s with pending := false, registered := false, front := .register }
  | register : s.front = .register → ((s.rings .responses).point .frontend).ready = true →
      WakeStep .front { s with
        rings := Function.update s.rings .responses ((s.rings .responses).invoke .frontend .dequeue)
        registered := true
        front := .loop .responses }
  | look {c : Channel} {r : State (Agent ι) c.Store c.Data c.Data} : s.front = .loop c →
      ((s.rings c).point .frontend).running = true → Access (s.rings c) .frontend (v .frontend) c.element r →
      WakeStep .front { s with rings := Function.update s.rings c r }
  | handle {c : Channel} {value : Return c.Data} : s.front = .loop c →
      (s.rings c).point .frontend = .returned value → value ≠ .refused →
      WakeStep .front { s with
        rings := Function.update s.rings c ((s.rings c).invoke .frontend .dequeue)
        front := .loop c }
  | next : s.front = .loop .responses → (s.rings .responses).point .frontend = .returned .refused →
      ((s.rings .events).point .frontend).ready = true →
      WakeStep .front { s with
        rings := Function.update s.rings .events ((s.rings .events).invoke .frontend .dequeue)
        front := .loop .events }
  | done : s.front = .loop .events → (s.rings .events).point .frontend = .returned .refused →
      WakeStep .front { s with front := .idle }

variable {v s} {t : Wakeup ι}

theorem access_step {c : Channel} {agent : Agent ι} {w : CasVariant}
    (edge : s.ringStep w c (.access agent) = some t) : ((s.rings c).point agent).running = true ∧
      ∃ r, Access (s.rings c) agent w c.element r ∧ t = { s with rings := Function.update s.rings c r } := by
  obtain ⟨r, stepped, rfl⟩ := Option.map_eq_some_iff.mp edge
  obtain ⟨running, stepped⟩ := Option.ite_none_right_eq_some.mp stepped
  cases stepped
  exact ⟨running, _, access_cases w c.element running, rfl⟩

theorem enter_step {c : Channel} {w : CasVariant} (edge : s.enter w c = some t) :
    ((s.rings c).point .frontend).ready = true ∧
      t = { s with
        rings := Function.update s.rings c ((s.rings c).invoke .frontend .dequeue)
        front := .loop c } := by
  obtain ⟨_, stepped, rfl⟩ := Option.map_eq_some_iff.mp edge
  obtain ⟨r, called, rfl⟩ := Option.map_eq_some_iff.mp stepped
  obtain ⟨ready, called⟩ := Option.ite_none_right_eq_some.mp called
  cases called
  exact ⟨ready, rfl⟩

theorem wake_front_cases (edge : s.stepFront (v .frontend) = some t) : WakeStep v s .front t := by
  cases front : s.front with
  | idle =>
    simp only [Wakeup.stepFront, front, Option.ite_none_right_eq_some, Option.some.injEq, Bool.and_eq_true] at edge
    obtain ⟨⟨pending, registered⟩, rfl⟩ := edge
    exact .callback front pending registered
  | register =>
    simp only [Wakeup.stepFront, front] at edge
    obtain ⟨ready, rfl⟩ := enter_step edge
    exact .register front ready
  | loop c =>
    simp only [Wakeup.stepFront, front] at edge
    cases point : (s.rings c).point .frontend with
    | returned value =>
      rw [point] at edge
      cases value with
      | refused =>
        cases c with
        | responses =>
          obtain ⟨ready, rfl⟩ := enter_step edge
          exact .next front point ready
        | events =>
          cases edge
          exact .done front point
      | enqueued | dequeued message =>
        obtain ⟨_, rfl⟩ := enter_step edge
        exact .handle front point (by simp)
    | idle | aborted | acquire _ _ | element _ _ | commit _ _ _ =>
      rw [point] at edge
      obtain ⟨running, r, access, rfl⟩ := access_step edge
      exact .look front running access

theorem wake_cases {a : WakeAction ι} (edge : s.step v a = some t) : WakeStep v s a t := by
  cases a with
  | send i c data =>
    obtain ⟨resting, edge⟩ := Option.ite_none_right_eq_some.mp edge
    obtain ⟨_, stepped, rfl⟩ := Option.map_eq_some_iff.mp edge
    obtain ⟨r, called, rfl⟩ := Option.map_eq_some_iff.mp stepped
    obtain ⟨ready, called⟩ := Option.ite_none_right_eq_some.mp called
    cases called
    exact .send resting ready
  | front => exact wake_front_cases edge
  | run =>
    obtain ⟨idle, edge⟩ := Option.ite_none_right_eq_some.mp edge
    cases edge
    exact .run idle
  | backend i =>
    cases sending : s.backend i with
    | resting => simp [Wakeup.step, Wakeup.stepBackend, sending] at edge
    | sending c =>
      simp only [Wakeup.step, Wakeup.stepBackend, sending] at edge
      cases point : (s.rings c).point (.backend i) with
      | returned value =>
        rw [point] at edge
        cases value with
        | refused =>
          cases edge
          exact .rejected sending point
        | enqueued | dequeued _ =>
          cases edge
          exact .rung sending point (by simp)
      | idle | aborted | acquire _ _ | element _ _ | commit _ _ _ =>
        rw [point] at edge
        obtain ⟨running, r, access, rfl⟩ := access_step edge
        exact .work sending running access

end Cases

/-! ### The points of the threads -/

section Points
variable {Data Result Store : Type}

def Busy (p : Point Data Result) : Prop := p.running = true ∨ ∃ value, p = .returned value

def Quiet (p : Point Data Result) : Prop := p = .idle ∨ p = .returned .refused

theorem Quiet.ready {p : Point Data Result} (quiet : Quiet p) : p.ready = true := by
  rcases quiet with rfl | rfl <;> rfl

theorem Quiet.empty {p : Point Data Result} (quiet : Quiet p) : inHand p = false := by
  rcases quiet with rfl | rfl <;> rfl

variable [DecidableEq ι] {r t : State (Agent ι) Store Data Result} {agent : Agent ι} {v : CasVariant}
variable {F : ElementFns Store Data Result}

/-- A thread that runs goes on or returns; no assertion fails. -/
theorem busy_access (after : Ring.Inv F t) (access : Access r agent v F t) : Busy (t.point agent) := by
  have sound : t.point agent ≠ .aborted := by
    intro stopped
    have thread := after.thread agent
    rw [stopped] at thread
    exact thread
  cases access with
  | abort => simp [State.put] at sound
  | load | waitMore | waitOver | proceed | acquire | acquireRetry | write | read | commitLoad | commitTail
    | commitRetry => exact .inl (by simp [State.put, State.afterAcquire, State.afterWrite, Point.running])
  | refuse | commit => exact .inr ⟨_, by simp [State.put, State.afterCommit]; rfl⟩

end Points

def Wakeup.place (s : Wakeup ι) : Agent ι → Option Channel
  | .frontend => match s.front with | .loop c => some c | .idle | .register => none
  | .backend i => match s.backend i with | .sending c => some c | .resting => none

def Off {Data Result : Type} (p : Point Data Result) : Agent ι → Prop
  | .frontend => Quiet p
  | .backend _ => p.ready = true

structure Shape (s : Wakeup ι) : Prop where
  on : ∀ c agent, s.place agent = some c → Busy ((s.rings c).point agent)
  off : ∀ c agent, s.place agent ≠ some c → Off ((s.rings c).point agent) agent

section Shapes
variable {s t : Wakeup ι}

theorem update_point {c : Channel} {r : State (Agent ι) c.Store c.Data c.Data} {other : Agent ι}
    (same : r.point other = (s.rings c).point other) (d : Channel) :
    (Function.update s.rings c r d).point other = (s.rings d).point other := by
  by_cases here : d = c
  · subst here
    rw [Function.update_self, same]
  · rw [Function.update_of_ne here]

theorem Shape.elsewhere (shape : Shape s) {agent : Agent ι} {c : Channel} (only : ∀ d, s.place agent = some d → d = c) :
    ∀ d, d ≠ c → Off ((s.rings d).point agent) agent :=
  fun d other => shape.off d agent fun at_ => other (only d at_)

theorem Shape.move (shape : Shape s) {agent : Agent ι} {c : Channel} {r : State (Agent ι) c.Store c.Data c.Data}
    (rings : t.rings = Function.update s.rings c r)
    (others : ∀ other, other ≠ agent → r.point other = (s.rings c).point other ∧ t.place other = s.place other)
    (own : t.place agent = some c ∧ Busy (r.point agent) ∨ t.place agent = none ∧ Off (r.point agent) agent)
    (elsewhere : ∀ d, d ≠ c → Off ((s.rings d).point agent) agent) : Shape t := by
  constructor
  · intro d other is
    rw [rings]
    by_cases mine : other = agent
    · subst mine
      rcases own with ⟨at_, busy⟩ | ⟨away, _⟩
      · obtain rfl : c = d := Option.some.inj (at_.symm.trans is)
        rw [Function.update_self]
        exact busy
      · cases away.symm.trans is
    · obtain ⟨point, place⟩ := others other mine
      rw [update_point point]
      exact shape.on d other (place.symm.trans is)
  · intro d other out
    rw [rings]
    by_cases mine : other = agent
    · subst mine
      by_cases here : d = c
      · subst here
        rw [Function.update_self]
        rcases own with ⟨at_, _⟩ | ⟨_, off⟩
        · exact absurd at_ out
        · exact off
      · rw [Function.update_of_ne here]
        exact elsewhere d here
    · obtain ⟨point, place⟩ := others other mine
      rw [update_point point]
      exact shape.off d other fun is => out (place.trans is)

variable [DecidableEq ι] {v : Agent ι → CasVariant} {a : WakeAction ι}

theorem invoke_point_of_ne {κ Store Data Result : Type} [DecidableEq κ] {r : State κ Store Data Result} {i j : κ}
    (other : j ≠ i) (call : Call Data) : (r.invoke i call).point j = r.point j :=
  Function.update_of_ne other _ _

theorem invoke_busy {κ Store Data Result : Type} [DecidableEq κ] (r : State κ Store Data Result) (i : κ)
    (call : Call Data) : Busy ((r.invoke i call).point i) := by
  refine .inl ?_
  simp [State.invoke, Point.running]

theorem place_setBackend (p : BackPoint) {i : ι} {other : Agent ι} (apart : other ≠ .backend i) :
    (s.setBackend i p).place other = s.place other := by
  cases other with
  | frontend => rfl
  | backend j =>
    have ne : j ≠ i := fun same => apart (congrArg Agent.backend same)
    simp [Wakeup.place, Wakeup.setBackend, ne]

theorem Shape.step (shape : Shape s) (after : RingsOk t) (step : WakeStep v s a t) : Shape t := by
  cases step with
  | @send i c data resting ready =>
    have before : s.place (.backend i) = none := by simp [Wakeup.place, resting]
    exact shape.move rfl (fun other apart => ⟨invoke_point_of_ne apart _, place_setBackend _ apart⟩)
      (.inl ⟨by simp [Wakeup.place, Wakeup.setBackend], invoke_busy _ _ _⟩)
      (shape.elsewhere fun d at_ => by rw [before] at at_; cases at_)
  | @work i c r sending running access =>
    have before : s.place (.backend i) = some c := by simp [Wakeup.place, sending]
    have own := (after c).1
    simp only [Function.update_self] at own
    exact shape.move rfl (fun other apart => ⟨access.point_of_ne apart, rfl⟩) (.inl ⟨before, busy_access own access⟩)
      (shape.elsewhere fun d at_ => (Option.some.inj (before.symm.trans at_)).symm)
  | @rejected i c sending point =>
    have before : s.place (.backend i) = some c := by simp [Wakeup.place, sending]
    exact shape.move (Function.update_eq_self c s.rings).symm (fun other apart => ⟨rfl, place_setBackend _ apart⟩)
      (.inr ⟨by simp [Wakeup.place, Wakeup.setBackend], by rw [point]; rfl⟩)
      (shape.elsewhere fun d at_ => (Option.some.inj (before.symm.trans at_)).symm)
  | @rung i c value sending point accepted =>
    have before : s.place (.backend i) = some c := by simp [Wakeup.place, sending]
    have rested : Shape (s.setBackend i .resting) :=
      shape.move (Function.update_eq_self c s.rings).symm (fun other apart => ⟨rfl, place_setBackend _ apart⟩)
        (.inr ⟨by simp [Wakeup.place, Wakeup.setBackend], by rw [point]; rfl⟩)
        (shape.elsewhere fun d at_ => (Option.some.inj (before.symm.trans at_)).symm)
    exact ⟨rested.on, rested.off⟩
  | run idle =>
    have before : s.place .frontend = none := by simp [Wakeup.place, idle]
    exact ⟨fun c agent is => shape.on c agent (by cases agent <;> [cases is; exact is]),
      fun c agent out => shape.off c agent (by cases agent <;> [simp [before]; exact out])⟩
  | callback idle pending registered =>
    have before : s.place .frontend = none := by simp [Wakeup.place, idle]
    exact ⟨fun c agent is => shape.on c agent (by cases agent <;> [cases is; exact is]),
      fun c agent out => shape.off c agent (by cases agent <;> [simp [before]; exact out])⟩
  | register front ready =>
    have before : s.place .frontend = none := by simp [Wakeup.place, front]
    exact shape.move rfl (fun other apart => ⟨invoke_point_of_ne apart _, by cases other <;> [exact absurd rfl apart; rfl]⟩)
      (.inl ⟨rfl, invoke_busy _ _ _⟩) (shape.elsewhere fun d at_ => by rw [before] at at_; cases at_)
  | @look c r front running access =>
    have before : s.place .frontend = some c := by simp [Wakeup.place, front]
    have own := (after c).1
    simp only [Function.update_self] at own
    exact shape.move rfl (fun other apart => ⟨access.point_of_ne apart, rfl⟩) (.inl ⟨before, busy_access own access⟩)
      (shape.elsewhere fun d at_ => (Option.some.inj (before.symm.trans at_)).symm)
  | @handle c value front point accepted =>
    have before : s.place .frontend = some c := by simp [Wakeup.place, front]
    exact shape.move rfl (fun other apart => ⟨invoke_point_of_ne apart _, by cases other <;> [exact absurd rfl apart; rfl]⟩)
      (.inl ⟨rfl, invoke_busy _ _ _⟩) (shape.elsewhere fun d at_ => (Option.some.inj (before.symm.trans at_)).symm)
  | next front point ready =>
    refine shape.move rfl (fun other apart => ⟨invoke_point_of_ne apart _, by cases other <;> [exact absurd rfl apart; rfl]⟩)
      (.inl ⟨rfl, invoke_busy _ _ _⟩) fun d other => ?_
    cases d with
    | responses => exact .inr point
    | events => exact absurd rfl other
  | done front point =>
    have before : s.place .frontend = some .events := by simp [Wakeup.place, front]
    have left : Off ((s.rings .events).point .frontend) (.frontend : Agent ι) := Or.inr point
    exact shape.move (Function.update_eq_self .events s.rings).symm
      (fun other apart => ⟨rfl, by cases other <;> [exact absurd rfl apart; rfl]⟩) (.inr ⟨rfl, left⟩)
      (shape.elsewhere fun d at_ => (Option.some.inj (before.symm.trans at_)).symm)

end Shapes

/-! ### One queue -/

/-- The frontend has handled the data of all positions it was handed, up to one that it has
in hand. -/
structure Relayed {Store Data : Type} (r : State (Agent ι) Store Data Data) (handled : List Data) : Prop where
  count : r.history.acquired .cons = handled.length + (inHand (r.point .frontend)).toNat
  position : inHand (r.point .frontend) = true → (r.mine .frontend).position = handled.length
  data : ∀ n d, handled[n]? = some d → r.history.dataAt n = some d

section Queues
variable {Store Data : Type} {h h' : History Data}

theorem extends_data (grows : Extends h h') {n : Nat} {data : Data} (found : h.dataAt n = some data) :
    h'.dataAt n = some data := by
  obtain ⟨calls, more⟩ := grows.calls
  obtain ⟨handed, places⟩ := grows.handed .prod
  simp only [History.dataAt] at found ⊢
  cases at_ : (h.handed .prod)[n]? with
  | none => simp [at_] at found
  | some call =>
    simp only [at_, Option.bind_some] at found
    cases made : h.calls[call]? with
    | none => simp [made] at found
    | some value =>
      have handed' : (h'.handed .prod)[n]? = some call := by
        rw [← places]
        exact (List.getElem?_append_left (List.getElem?_eq_some_iff.mp at_).1).trans at_
      have made' : h'.calls[call]? = some value := by
        rw [← more]
        exact (List.getElem?_append_left (List.getElem?_eq_some_iff.mp made).1).trans made
      rw [handed', Option.bind_some, made']
      simpa [made] using found

variable [DecidableEq ι] {r t : State (Agent ι) Store Data Data} {F : ElementFns Store Data Data} {v : CasVariant}
variable {handled : List Data}

omit [DecidableEq ι] in
theorem Relayed.frame (served : Relayed r handled) (grows : Extends r.history t.history)
    (count : t.history.acquired .cons = r.history.acquired .cons) (point : t.point .frontend = r.point .frontend)
    (mine : t.mine .frontend = r.mine .frontend) : Relayed t handled where
  count := by rw [count, point, served.count]
  position holds := by rw [mine, served.position (point ▸ holds)]
  data n d found := extends_data grows (served.data n d found)

theorem Relayed.access_backend (served : Relayed r handled) {i : ι} (roles : Roles r)
    (access : Access r (.backend i) v F t) : Relayed t handled := by
  refine served.frame (access_extends access) ?_ (access.point_of_ne nofun) ?_
  · have backend := roles.backends i
    cases access with
    | @acquire call ot point =>
      rw [point] at backend
      have prod : call.side ≠ .cons := fun same => backend (congrArg some same)
      exact congrArg List.length (Function.update_of_ne (Ne.symm prod) _ _)
    | load | waitMore | waitOver | refuse | proceed | acquireRetry | write | read | abort | commitLoad | commitTail
      | commit | commitRetry => rfl
  · have apart : (Agent.frontend : Agent ι) ≠ .backend i := nofun
    cases access with
    | acquire | load | waitMore | waitOver | refuse | proceed | acquireRetry | write | read | abort | commitLoad
      | commitTail | commit | commitRetry =>
      simp [State.put, State.afterAcquire, State.afterWrite, State.afterCommit, apart]

theorem Relayed.invoke_backend (served : Relayed r handled) (i : ι) (call : Call Data) :
    Relayed (r.invoke (.backend i) call) handled := by
  have apart : (Agent.frontend : Agent ι) ≠ .backend i := nofun
  refine served.frame (invoke_extends r _ call) rfl (invoke_point_of_ne apart call) ?_
  simp [State.invoke, apart]

/-- The frontend's own points: it has a position in hand, or not, as before. -/
theorem Relayed.put (served : Relayed r handled) {p : Point Data Data} {m : Mine}
    (hand : inHand p = inHand (r.point .frontend))
    (same : m.position = (r.mine .frontend).position) : Relayed (r.put .frontend p m) handled where
  count := by
    simp only [State.put, Function.update_self, hand]
    exact served.count
  position holds := by
    simp only [State.put, Function.update_self, hand] at holds ⊢
    exact same.trans (served.position holds)
  data := served.data

/-- The frontend gets the next position, and returns with what is stored there. -/
theorem Relayed.access_frontend (served : Relayed r handled) (inv : Ring.Inv F r) (roles : Roles r)
    (access : Access r .frontend v F t) (after : Ring.Inv F t) : Relayed t handled := by
  have frontend := roles.frontend
  cases access with
  | load point | waitMore point | waitOver point | refuse point | proceed point | read point | commitLoad point
    | commitTail point => exact served.put (by rw [point]; rfl) rfl
  | acquireRetry point | commitRetry point => exact served.put (by rw [point]; rfl) (by cases v <;> rfl)
  | write point =>
    rw [point] at frontend
    exact absurd rfl frontend
  | abort =>
    have thread := after.thread .frontend
    simp only [State.put, Function.update_self] at thread
    exact thread.elim
  | @acquire call ot point tail =>
    rw [point] at frontend
    have count := served.count
    rw [point] at count
    cases call with
    | enqueue data => exact absurd rfl frontend
    | dequeue =>
      refine ⟨?_, fun _ => ?_, fun n d found => extends_data (hand_extends ..) (served.data n d found)⟩
      · simp only [State.afterAcquire, State.put, Function.update_self, inHand, History.acquired, History.hand,
          Call.side, List.length_append, List.length_singleton]
        exact congrArg (· + 1) count
      · simp only [State.afterAcquire, State.put, Function.update_self, Call.side]
        exact count
  | @commit call got oh nh point head =>
    rw [point] at frontend
    cases call with
    | enqueue data => exact absurd rfl frontend
    | dequeue =>
      -- a dequeue that commits has read its element
      have thread := inv.thread .frontend
      rw [point] at thread
      obtain ⟨_, transferred, _⟩ := thread
      cases got with
      | none => exact transferred.elim
      | some msg =>
        have hand : inHand (r.point .frontend) = true := by rw [point]; rfl
        have count := served.count
        rw [hand] at count
        refine ⟨?_, fun _ => ?_, served.data⟩
        · simp only [State.afterCommit, State.put, Function.update_self, committedReturn, inHand]
          exact count
        · simp only [State.afterCommit, State.put, Function.update_self]
          exact served.position hand

/-- The next dequeue starts, after the message of the last one was handled. -/
theorem Relayed.handle (served : Relayed r handled) (inv : Ring.Inv F r) (delivers : ∀ data, F.deliver data = data)
    {msg : Data} (point : r.point .frontend = .returned (.dequeued msg)) :
    Relayed (r.invoke .frontend .dequeue) (handled ++ [msg]) := by
  have returned : ReturnOk F r.history (r.mine .frontend) (.dequeued msg) := by
    have thread := inv.thread .frontend
    rw [point] at thread
    exact thread
  obtain ⟨_, _, data, stored, same⟩ := returned
  have count := served.count
  have position := served.position (by rw [point]; rfl)
  rw [point] at count
  have grows := invoke_extends r .frontend .dequeue
  refine ⟨?_, fun holds => ?_, fun n d found => extends_data grows ?_⟩
  · simp only [State.invoke, Function.update_self, inHand, List.length_append, List.length_singleton]
    exact count
  · simp [State.invoke, inHand] at holds
  · rcases Nat.lt_or_ge n handled.length with old | new
    · exact served.data n d (by rwa [List.getElem?_append_left old] at found)
    · rw [List.getElem?_append_right new] at found
      obtain ⟨last, only⟩ : n = handled.length ∧ msg = d := by
        have bound := (List.getElem?_eq_some_iff.mp found).1
        simp only [List.length_singleton] at bound
        have here : n = handled.length := by omega
        subst here
        exact ⟨rfl, by simpa using found⟩
      rw [last, ← position, stored, ← only, same, delivers]

theorem Relayed.look (served : Relayed r handled) (empty : inHand (r.point .frontend) = false) :
    Relayed (r.invoke .frontend .dequeue) handled := by
  have grows := invoke_extends r .frontend .dequeue
  refine ⟨?_, fun holds => ?_, fun n d found => extends_data grows (served.data n d found)⟩
  · have count := served.count
    rw [empty] at count
    simp only [State.invoke, Function.update_self, inHand]
    exact count
  · simp [State.invoke, inHand] at holds

end Queues

/-! ### Runs -/

structure HandlingInv (s : Recorded ι) : Prop where
  rings : RingsOk s.wake
  wake : WakeInv s.wake
  shape : Shape s.wake
  served : ∀ c, Relayed (s.wake.rings c) (s.handled c)

section Runs
variable [DecidableEq ι] {v : Agent ι → CasVariant} {s t : Recorded ι} {a : WakeAction ι}

theorem channel_delivers (c : Channel) (data : c.Data) : c.element.deliver data = data := by cases c <;> rfl

omit [DecidableEq ι] in
theorem served_update {handled : (c : Channel) → List c.Data} (served : ∀ c, Relayed (s.wake.rings c) (s.handled c))
    {c : Channel} {r : State (Agent ι) c.Store c.Data c.Data} (others : ∀ d, d ≠ c → handled d = s.handled d)
    (own : Relayed r (handled c)) : ∀ d, Relayed (Function.update s.wake.rings c r d) (handled d) := by
  intro d
  by_cases here : d = c
  · subst here
    rw [Function.update_self]
    exact own
  · rw [Function.update_of_ne here, others d here]
    exact served d

theorem HandlingInv.step (inv : HandlingInv s) (window : WindowedWake s.wake a) (edge : s.step v a = some t) :
    HandlingInv t := by
  obtain ⟨wake, stepped, rfl⟩ := Option.map_eq_some_iff.mp edge
  have rings := inv.rings.step window stepped
  have step := wake_cases stepped
  refine ⟨rings, inv.wake.step stepped, inv.shape.step rings step, ?_⟩
  dsimp only
  cases step with
  | send => exact served_update inv.served (fun _ _ => rfl) ((inv.served _).invoke_backend _ _)
  | work sending running access =>
    exact served_update inv.served (fun _ _ => rfl) ((inv.served _).access_backend (inv.wake.roles _) access)
  | rejected | rung | run => exact inv.served
  | callback idle =>
    simp only [Recorded.record, idle]
    exact inv.served
  | register front =>
    simp only [Recorded.record, front]
    have quiet := inv.shape.off .responses .frontend (by simp [Wakeup.place, front])
    exact served_update inv.served (fun _ _ => rfl) ((inv.served _).look (Quiet.empty quiet))
  | @look c r front running access =>
    have same : s.record = s.handled := by
      unfold Recorded.record
      rw [front]
      dsimp only
      split
      · next returned => simp [returned, Point.running] at running
      · rfl
    have after := (rings c).1
    simp only [Function.update_self] at after
    rw [same]
    exact served_update inv.served (fun _ _ => rfl)
      ((inv.served c).access_frontend (inv.rings c).1 (inv.wake.roles c) access after)
  | @handle c value front point accepted =>
    simp only [Recorded.record, front, point]
    cases value with
    | refused => exact absurd rfl accepted
    | enqueued => exact served_update inv.served (fun _ _ => rfl) ((inv.served c).look (by rw [point]; rfl))
    | dequeued msg =>
      refine served_update inv.served (fun d other => Function.update_of_ne other _ _) ?_
      show Relayed _ (Function.update s.handled c (s.handled c ++ [msg]) c)
      rw [Function.update_self]
      exact (inv.served c).handle (inv.rings c).1 (channel_delivers c) point
  | next front point =>
    simp only [Recorded.record, front, point]
    have quiet := inv.shape.off .events .frontend (by simp [Wakeup.place, front])
    exact served_update inv.served (fun _ _ => rfl) ((inv.served _).look (Quiet.empty quiet))
  | done front point =>
    simp only [Recorded.record, front, point]
    exact inv.served

end Runs

theorem wake_extends [DecidableEq ι] {v : Agent ι → CasVariant} {s t : Wakeup ι} {a : WakeAction ι}
    (step : WakeStep v s a t) (c : Channel) : Extends (s.rings c).history (t.rings c).history := by
  have update (d : Channel) (r : State (Agent ι) d.Store d.Data d.Data)
      (grows : Extends (s.rings d).history r.history) :
      Extends (s.rings c).history (Function.update s.rings d r c).history := by
    by_cases here : c = d
    · subst here
      rw [Function.update_self]
      exact grows
    · rw [Function.update_of_ne here]
      exact .refl _
  cases step with
  | send | register | handle | next => exact update _ _ (invoke_extends ..)
  | work _ _ access | look _ _ access => exact update _ _ (access_extends access)
  | rejected | rung | run | callback | done => exact .refl _

theorem mem_record {s : Recorded ι} {c : Channel} {msg : c.Data} (member : msg ∈ s.record c) :
    msg ∈ s.handled c ∨ s.wake.front = .loop c ∧ (s.wake.rings c).point .frontend = .returned (.dequeued msg) := by
  cases front : s.wake.front with
  | idle | register =>
    simp only [Recorded.record, front] at member
    exact .inl member
  | loop d =>
    cases point : (s.wake.rings d).point .frontend with
    | returned value =>
      cases value with
      | dequeued last =>
        simp only [Recorded.record, front, point] at member
        by_cases here : c = d
        · subst here
          rw [Function.update_self, List.mem_append, List.mem_singleton] at member
          rcases member with old | rfl
          · exact .inl old
          · exact .inr ⟨rfl, point⟩
        · rw [Function.update_of_ne here] at member
          exact .inl member
      | refused | enqueued =>
        simp only [Recorded.record, front, point] at member
        exact .inl member
    | idle | acquire _ _ | element _ _ | commit _ _ _ | aborted =>
      simp only [Recorded.record, front, point] at member
      exact .inl member

/-! ### What was sent -/

section Sent
variable {Data : Type}

theorem getElem?_filterMap_of_isSome {α β : Type} {f : α → Option β} {l : List α} (all : ∀ x ∈ l, (f x).isSome = true)
    (n : Nat) : (l.filterMap f)[n]? = l[n]?.bind f := by
  induction l generalizing n with
  | nil => rfl
  | cons x rest ih =>
    obtain ⟨y, found⟩ := Option.isSome_iff_exists.mp (all x List.mem_cons_self)
    rw [List.filterMap_cons_some found]
    cases n with
    | zero => simp [found]
    | succ n => simpa using ih (fun x member => all x (List.mem_cons_of_mem _ member)) n

theorem sentData_getElem? {Store : Type} {q : Queue Store} {h : History Data} (ok : BoundOk q h .prod) (n : Nat) :
    (sentData h)[n]? = h.dataAt n := by
  have all : ∀ c ∈ h.handed .prod, (h.calls[c]?.bind dataOf).isSome = true := by
    intro c member
    obtain ⟨call, made, side⟩ := ok.kind c member
    cases call with
    | dequeue => cases side
    | enqueue data => simp [made, dataOf]
  rw [sentData, getElem?_filterMap_of_isSome all, History.dataAt]
  cases (h.handed .prod)[n]? with
  | none => rfl
  | some c =>
    simp only [Option.bind_some]
    cases h.calls[c]? with
    | none => rfl
    | some call => cases call <;> rfl

end Sent

/-! ### When nothing moves -/

def Wakeup.AtRest [DecidableEq ι] (v : Agent ι → CasVariant) (s : Wakeup ι) : Prop :=
  (∀ i, s.step v (.backend i) = none) ∧ s.step v .front = none

/-- `io_proxy_run` has been called. -/
def Wakeup.Listening (s : Wakeup ι) : Prop := s.registered = true ∨ s.front = .register

section Rest
variable [DecidableEq ι] {v : Agent ι → CasVariant} {s t : Wakeup ι} {a : WakeAction ι}

theorem Wakeup.Listening.step (listening : s.Listening) (step : WakeStep v s a t) : t.Listening := by
  cases step with
  | send | work | rejected | rung => exact listening
  | run | callback => exact .inr rfl
  | register => exact .inl rfl
  | look front | handle front | next front | done front =>
    refine .inl (listening.resolve_right fun register => ?_)
    rw [front] at register
    cases register

theorem access_enabled {w : CasVariant} {c : Channel} {agent : Agent ι}
    (running : ((s.rings c).point agent).running = true) : s.ringStep w c (.access agent) ≠ none := by
  simp [Wakeup.ringStep, Ring.step, running]

theorem enter_enabled {w : CasVariant} {c : Channel} (ready : ((s.rings c).point .frontend).ready = true) :
    s.enter w c ≠ none := by
  simp [Wakeup.enter, Wakeup.ringStep, Ring.step, ready]

/-- A backend that is in an operation can go on. -/
theorem Shape.resting (shape : Shape s) {i : ι} (rest : s.step v (.backend i) = none) : s.backend i = .resting := by
  cases sending : s.backend i with
  | resting => rfl
  | sending c =>
    have busy := shape.on c (.backend i) (by simp [Wakeup.place, sending])
    simp only [Wakeup.step, Wakeup.stepBackend, sending] at rest
    rcases busy with running | ⟨value, point⟩
    · cases point : (s.rings c).point (.backend i) with
      | idle | returned _ | aborted => simp [point, Point.running] at running
      | acquire _ _ | element _ _ | commit _ _ _ =>
        rw [point] at rest
        exact absurd rest (access_enabled running)
    · rw [point] at rest
      cases value <;> cases rest

theorem Shape.idle (shape : Shape s) (rest : s.step v .front = none) : s.front = .idle := by
  cases front : s.front with
  | idle => rfl
  | register =>
    have quiet : Quiet _ := shape.off .responses .frontend (by simp [Wakeup.place, front])
    simp only [Wakeup.step, Wakeup.stepFront, front] at rest
    exact absurd rest (enter_enabled quiet.ready)
  | loop c =>
    have busy := shape.on c .frontend (by simp [Wakeup.place, front])
    simp only [Wakeup.step, Wakeup.stepFront, front] at rest
    rcases busy with running | ⟨value, point⟩
    · cases point : (s.rings c).point .frontend with
      | idle | returned _ | aborted => simp [point, Point.running] at running
      | acquire _ _ | element _ _ | commit _ _ _ =>
        rw [point] at rest
        exact absurd rest (access_enabled running)
    · have ready : ((s.rings c).point .frontend).ready = true := by rw [point]; rfl
      rw [point] at rest
      cases value with
      | enqueued | dequeued _ => exact absurd rest (enter_enabled ready)
      | refused =>
        cases c with
        | events => cases rest
        | responses =>
          have quiet : Quiet _ := shape.off .events .frontend (by simp [Wakeup.place, front])
          exact absurd rest (enter_enabled quiet.ready)

theorem Shape.calm (shape : Shape s) (listening : s.Listening) (rest : s.AtRest v) : s.Calm := by
  have idle := shape.idle rest.2
  have resting (i : ι) := shape.resting (rest.1 i)
  refine ⟨?_, idle, fun i c => ?_, fun i c sent => ?_⟩
  · have registered := listening.resolve_right fun register => by rw [idle] at register; cases register
    have none_ := rest.2
    simp only [Wakeup.step, Wakeup.stepFront, idle, registered, Bool.and_true] at none_
    cases pending : s.pending with
    | false => rfl
    | true => simp [pending] at none_
  · have ready : ((s.rings c).point (.backend i)).ready = true :=
      shape.off c (.backend i) (by simp [Wakeup.place, resting i])
    cases point : (s.rings c).point (.backend i) with
    | idle | returned _ => rfl
    | acquire _ _ | element _ _ | commit _ _ _ | aborted => simp [point, Point.ready] at ready
  · have sending := sent.1
    rw [resting i] at sending
    cases sending

end Rest

instance [DecidableEq ι] (s : Wakeup ι) (a : WakeAction ι) : Decidable (WindowedWake s a) :=
  match place : s.queueOf a with
  | none => .isTrue fun _ _ at_ => by rw [place] at at_; cases at_
  | some (c, agent) =>
      decidable_of_iff (Windowed (s.rings c) (.access agent))
        ⟨fun window _ _ at_ => by rw [place] at at_; cases at_; exact window, fun windows => windows c agent place⟩

def crossed : List (WakeAction Unit) :=
  List.replicate 3 .front ++ driverRpcReplyCall () 3 :: List.replicate 9 (.backend ()) ++
    deviceEventTxCall () 18#32 0#64 0#64 0#64 0#64 :: List.replicate 9 (.backend ()) ++ List.replicate 34 .front

theorem crossed_reached :
    (execute (guarded (Recorded.step fun _ => .user) fun s a => WindowedWake s.wake a)
      ⟨{ Wakeup.initial with front := .register }, fun _ => []⟩ crossed).map (fun t =>
        (t.wake.step (fun _ => .user) (.backend ()), t.wake.step (fun _ => .user) .front).map Option.isNone Option.isNone) =
      some (true, true) := by
  decide +kernel

end Virtioso.Proxy
