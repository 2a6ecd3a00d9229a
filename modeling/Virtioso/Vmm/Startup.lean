import Virtioso.Proxy.Handling
import Virtioso.Vmm.DeviceCalls

/-! The VM waits for its backend.

The thread that initialises the io_proxy runs it once and then waits until a backend asks
to start the VM. The flag it reads and the semaphore it sleeps on are set one after the
other by the handler of that message, in the frontend's loop over the events. One thread
at a time is in that loop, and every message it gets is handled: a failed one would stop
the program.
-/

set_option autoImplicit false

namespace Virtioso.Vmm

open Foundation Irq Virtioso.Ring Rpc Proxy

/-- A message with `QEMU_OP_START_VM`. -/
def isStart (msg : Msg) : Prop := (rpcMr0Op.get msg.mr0).setWidth 32 = qemuOpStartVm

instance (msg : Msg) : Decidable (isStart msg) := inferInstanceAs (Decidable (_ = _))

section Message
variable {P Handle : Type} [DecidableEq P] [DecidableEq Handle]
variable (plat : Option Plat) (env : Environment P Handle) (self : P) (proxy : IoProxy (Shared P Handle)) (msg : Msg)

end Message

/-- Control points of `libsel4vm_io_proxy_init` from `io_proxy_run` on. -/
inductive MainPoint where
  | run
  /-- before the loop condition of `io_proxy_wait_for_backend` reads `ok_to_run` -/
  | check
  /-- in `sync_sem_wait` -/
  | wait
  | continued
  deriving DecidableEq, Repr

variable {ι : Type}

structure Startup (ι : Type) where
  handling : Recorded ι
  okToRun : Bool
  /-- the count of the semaphore -/
  backendStarted : Nat
  /-- `handle_control` has set the flag, and not posted yet -/
  posting : Bool
  main : MainPoint

inductive StartupAction (ι : Type) where
  | wake (a : WakeAction ι)
  | main

def Startup.initial : Startup ι := ⟨.initial, false, 0, false, .run⟩

/-- The frontend has `rpc_process` to do for a start message. -/
def Starting (s : Wakeup ι) : Prop :=
  s.front = .loop .events ∧ ∃ msg, (s.rings .events).point .frontend = .returned (.dequeued msg) ∧ isStart msg

instance (s : Wakeup ι) : Decidable (Starting s) :=
  match point : (s.rings .events).point .frontend with
  | .returned (.dequeued msg) => decidable_of_iff (s.front = .loop .events ∧ isStart msg)
      ⟨fun ⟨front, start⟩ => ⟨front, msg, point, start⟩, fun ⟨front, _, same, start⟩ => by
        rw [point] at same
        cases same
        exact ⟨front, start⟩⟩
  | .idle | .acquire _ _ | .element _ _ | .commit _ _ _ | .returned .refused | .returned .enqueued | .aborted =>
      .isFalse fun ⟨_, _, same, _⟩ => by rw [point] at same; cases same

section Steps
variable [DecidableEq ι]

/-- The frontend, of which one thread runs at a time. `handle_control` sets the flag first
and posts afterwards; every other message is handled without an error. -/
def Startup.stepFront (v : Agent ι → CasVariant) (s : Startup ι) : Option (Startup ι) :=
  if Starting s.handling.wake then
    if s.posting then
      (s.handling.step v .front).map fun handling =>
        { s with handling, posting := false, backendStarted := s.backendStarted + 1 }
    else some { s with okToRun := true, posting := true }
  else (s.handling.step v .front).map fun handling => { s with handling }

/-- `io_proxy_run`, and then `io_proxy_wait_for_backend`. -/
def Startup.stepMain (v : Agent ι → CasVariant) (s : Startup ι) : Option (Startup ι) :=
  match s.main with
  | .run => (s.handling.step v .run).map fun handling => { s with handling, main := .check }
  | .check => some { s with main := if s.okToRun then .continued else .wait }
  | .wait =>
      match s.backendStarted with
      | 0 => none
      | backendStarted + 1 => some { s with backendStarted, main := .check }
  | .continued => none

def Startup.step (v : Agent ι → CasVariant) (s : Startup ι) : StartupAction ι → Option (Startup ι)
  | .wake .front => s.stepFront v
  | .wake .run => none
  | .wake a => (s.handling.step v a).map fun handling => { s with handling }
  | .main => s.stepMain v

def WindowedStart (s : Startup ι) : StartupAction ι → Prop
  | .wake a => WindowedWake s.handling.wake a
  | .main => True

/-- No thread that is in something can go on. -/
def Startup.AtRest (v : Agent ι → CasVariant) (s : Startup ι) : Prop :=
  (∀ i, s.step v (.wake (.backend i)) = none) ∧ s.step v (.wake .front) = none ∧ s.step v .main = none

end Steps

/-! ### The invariant -/

structure StartupInv (s : Startup ι) : Prop where
  handling : HandlingInv s.handling
  listening : s.main ≠ .run → s.handling.wake.Listening
  /-- the flag is set for a message that a backend has sent -/
  asked : s.okToRun = true → ∃ n msg, (s.handling.wake.rings .events).history.dataAt n = some msg ∧ isStart msg
  quiet : s.okToRun = false → s.backendStarted = 0 ∧ s.posting = false
  handled : ∀ msg ∈ s.handling.handled .events, isStart msg → s.okToRun = true
  posting : s.posting = true → Starting s.handling.wake
  /-- a wait that began before the flag was set is ended by the post that follows -/
  waiting : s.main = .wait → s.okToRun = true → s.posting = true ∨ 0 < s.backendStarted
  continued : s.main = .continued → s.okToRun = true

section Invariant
variable [DecidableEq ι] {v : Agent ι → CasVariant} {s t : Startup ι}

theorem starting_kept {w x : Wakeup ι} {i : ι} {a : WakeAction ι} (step : WakeStep v w a x)
    (other : a = .backend i ∨ ∃ c data, a = .send i c data) (starting : Starting w) : Starting x := by
  obtain ⟨front, msg, point, start⟩ := starting
  have apart (j : ι) : (Agent.frontend : Agent ι) ≠ .backend j := by simp
  cases step with
  | send => exact ⟨front, msg, (update_point (invoke_point_of_ne (apart _) _) .events).trans point, start⟩
  | work sending running access =>
    exact ⟨front, msg, (update_point (access.point_of_ne (apart _)) .events).trans point, start⟩
  | rejected | rung => exact ⟨front, msg, point, start⟩
  | run | callback | register | look | handle | next | done => simp at other

/-- A step of the queues during which the flag and the semaphore stay as they are. -/
theorem StartupInv.wake (inv : StartupInv s) {a : WakeAction ι} {handling : Recorded ι}
    (window : WindowedWake s.handling.wake a) (edge : s.handling.step v a = some handling)
    (starting : s.posting = true → Starting handling.wake)
    (known : ∀ msg ∈ handling.handled .events, msg ∉ s.handling.handled .events → isStart msg → s.okToRun = true) :
    StartupInv { s with handling } where
  handling := inv.handling.step window edge
  listening other := by
    obtain ⟨wake, stepped, rfl⟩ := Option.map_eq_some_iff.mp edge
    exact (inv.listening other).step (wake_cases stepped)
  asked set := by
    obtain ⟨wake, stepped, rfl⟩ := Option.map_eq_some_iff.mp edge
    obtain ⟨n, msg, sent, start⟩ := inv.asked set
    exact ⟨n, msg, extends_data (wake_extends (wake_cases stepped) .events) sent, start⟩
  quiet := inv.quiet
  handled msg member start := by
    by_cases before : msg ∈ s.handling.handled .events
    · exact inv.handled msg before start
    · exact known msg member before start
  posting := starting
  waiting := inv.waiting
  continued := inv.continued

theorem StartupInv.backends (inv : StartupInv s) {i : ι} {a : WakeAction ι}
    (other : a = .backend i ∨ ∃ c data, a = .send i c data) {handling : Recorded ι}
    (window : WindowedWake s.handling.wake a) (edge : s.handling.step v a = some handling) :
    StartupInv { s with handling } := by
  refine inv.wake window edge (fun set => ?_) fun msg member new _ => absurd ?_ new
  · obtain ⟨wake, stepped, rfl⟩ := Option.map_eq_some_iff.mp edge
    exact starting_kept (wake_cases stepped) other (inv.posting set)
  · obtain ⟨wake, stepped, rfl⟩ := Option.map_eq_some_iff.mp edge
    rcases other with rfl | ⟨_, _, rfl⟩ <;> exact member

theorem StartupInv.front (inv : StartupInv s) (window : WindowedWake s.handling.wake .front)
    (edge : s.stepFront v = some t) : StartupInv t := by
  unfold Startup.stepFront at edge
  by_cases starting : Starting s.handling.wake
  · rw [if_pos starting] at edge
    by_cases posting : s.posting = true
    · -- the flag is set already, and the waiting thread gets its post
      rw [if_pos posting] at edge
      obtain ⟨handling, stepped, rfl⟩ := Option.map_eq_some_iff.mp edge
      have set : s.okToRun = true := by
        by_contra unset
        rw [(inv.quiet (Bool.not_eq_true _ ▸ unset)).2] at posting
        cases posting
      have posted : StartupInv { s with posting := false, backendStarted := s.backendStarted + 1 } :=
        ⟨inv.handling, inv.listening, inv.asked, fun unset => absurd (set.symm.trans unset) (by decide), inv.handled,
          nofun, fun _ _ => .inr (Nat.succ_pos _), inv.continued⟩
      exact posted.wake window stepped nofun fun _ _ _ _ => set
    · rw [if_neg posting] at edge
      cases edge
      obtain ⟨front, msg, point, start⟩ := starting
      have thread := (inv.handling.rings .events).1.thread .frontend
      rw [point] at thread
      obtain ⟨_, _, data, stored, same⟩ := thread
      rw [channel_delivers .events data] at same
      exact ⟨inv.handling, inv.listening, fun _ => ⟨_, data, stored, same ▸ start⟩, nofun, fun _ _ _ => rfl,
        fun _ => ⟨front, msg, point, start⟩, fun _ _ => .inl rfl, fun _ => rfl⟩
  · rw [if_neg starting] at edge
    obtain ⟨handling, stepped, rfl⟩ := Option.map_eq_some_iff.mp edge
    refine inv.wake window stepped (fun set => absurd (inv.posting set) starting) fun msg member new start => ?_
    obtain ⟨wake, _, rfl⟩ := Option.map_eq_some_iff.mp stepped
    rcases mem_record member with old | ⟨front, point⟩
    · exact absurd old new
    · exact absurd ⟨front, msg, point, start⟩ starting

theorem StartupInv.main (inv : StartupInv s) (edge : s.stepMain v = some t) : StartupInv t := by
  cases point : s.main with
  | run =>
    simp only [Startup.stepMain, point] at edge
    obtain ⟨handling, stepped, rfl⟩ := Option.map_eq_some_iff.mp edge
    have window : WindowedWake s.handling.wake .run := fun _ _ none_ => by cases none_
    obtain ⟨wake, woken, rfl⟩ := Option.map_eq_some_iff.mp stepped
    have idle : s.handling.wake.front = .idle := (Option.ite_none_right_eq_some.mp woken).1
    have unposted : s.posting = true → False := fun set => by
      have front := (inv.posting set).1
      rw [idle] at front
      cases front
    have ran := inv.wake window stepped (fun set => (unposted set).elim) fun _ member new _ => absurd member new
    refine ⟨ran.handling, fun _ => ?_, ran.asked, ran.quiet, ran.handled, ran.posting, nofun, nofun⟩
    cases (Option.ite_none_right_eq_some.mp woken).2
    exact .inr rfl
  | check =>
    simp only [Startup.stepMain, point] at edge
    cases edge
    refine ⟨inv.handling, fun _ => inv.listening (by simp [point]), inv.asked, inv.quiet, inv.handled, inv.posting,
      fun waits set => ?_, fun continued => ?_⟩
    · rw [if_pos (show s.okToRun = true from set)] at waits
      cases waits
    · by_contra unset
      simp only [unset, if_false] at continued
      cases continued
  | wait =>
    simp only [Startup.stepMain, point] at edge
    cases count : s.backendStarted with
    | zero => simp [count] at edge
    | succ n =>
      simp only [count, Option.some.injEq] at edge
      cases edge
      refine ⟨inv.handling, fun _ => inv.listening (by simp [point]), inv.asked, fun unset => ?_, inv.handled,
        inv.posting, nofun, nofun⟩
      have empty := (inv.quiet unset).1
      omega
  | continued => simp [Startup.stepMain, point] at edge

theorem StartupInv.step (inv : StartupInv s) {a : StartupAction ι} (window : WindowedStart s a)
    (edge : s.step v a = some t) : StartupInv t := by
  cases a with
  | main => exact inv.main edge
  | wake a =>
    cases a with
    | front => exact inv.front window edge
    | run => cases edge
    | backend i =>
      obtain ⟨handling, stepped, rfl⟩ := Option.map_eq_some_iff.mp edge
      exact inv.backends (.inl rfl) window stepped
    | send i c data =>
      obtain ⟨handling, stepped, rfl⟩ := Option.map_eq_some_iff.mp edge
      exact inv.backends (.inr ⟨c, data, rfl⟩) window stepped

end Invariant

section Rest
variable [DecidableEq ι] {v : Agent ι → CasVariant} {s : Startup ι}

omit [DecidableEq ι] in
theorem StartupInv.sent (inv : StartupInv s) (set : s.okToRun = true) :
    ∃ msg ∈ sentData (s.handling.wake.rings .events).history, isStart msg := by
  obtain ⟨n, msg, stored, start⟩ := inv.asked set
  rw [← sentData_getElem? ((inv.handling.rings .events).1.bound .prod)] at stored
  exact ⟨msg, List.mem_of_getElem? stored, start⟩

theorem Startup.AtRest.wake (rest : s.AtRest v) : s.handling.wake.AtRest v := by
  refine ⟨fun i => Option.map_eq_none_iff.mp (Option.map_eq_none_iff.mp (rest.1 i)), ?_⟩
  have front := rest.2.1
  simp only [Startup.step, Startup.stepFront] at front
  split at front
  · split at front
    · exact Option.map_eq_none_iff.mp (Option.map_eq_none_iff.mp front)
    · cases front
  · exact Option.map_eq_none_iff.mp (Option.map_eq_none_iff.mp front)

/-- A thread that can still go on is not at rest, and one that sleeps has not been asked for. -/
theorem StartupInv.rests (inv : StartupInv s) (rest : s.AtRest v) :
    s.main = .continued ∨ s.okToRun = false ∧ s.handling.wake.Listening := by
  have main := rest.2.2
  have idle := inv.handling.shape.idle rest.wake.2
  cases point : s.main with
  | run => simp [Startup.step, Startup.stepMain, point, Recorded.step, Wakeup.step, idle] at main
  | check => simp [Startup.step, Startup.stepMain, point] at main
  | continued => exact .inl rfl
  | wait =>
    refine .inr ⟨?_, inv.listening (by simp [point])⟩
    by_contra unset
    rcases inv.waiting point (by simpa using unset) with posting | waiting
    · have front := (inv.posting posting).1
      rw [idle] at front
      cases front
    · obtain ⟨n, count⟩ : ∃ n, s.backendStarted = n + 1 := ⟨s.backendStarted - 1, by omega⟩
      simp [Startup.step, Startup.stepMain, point, count] at main

end Rest

instance [DecidableEq ι] (s : Startup ι) : (a : StartupAction ι) → Decidable (WindowedStart s a)
  | .wake a => inferInstanceAs (Decidable (WindowedWake s.handling.wake a))
  | .main => .isTrue trivial

def asleep : List (StartupAction Unit) :=
  .main :: .main :: List.replicate 3 (.wake .front) ++
    .wake (deviceEventTxCall () qemuOpStartVm 0#64 0#64 0#64 0#64) :: List.replicate 9 (.wake (.backend ())) ++
    List.replicate 26 (.wake .front) ++ [.main, .main]

end Virtioso.Vmm
