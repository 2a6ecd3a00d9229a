import Virtioso.Foundation.Simulation
import Virtioso.Proxy.InFlight

/-! A device behind the proxy behaves as a local one.

The backend performs each request on its device some time between its reception and its
answer, in any order. To the callers, vCPUs and native threads with a slot and a cookie of
their own, this is one device on which every access takes effect at once. Only whole
operations are interleaved here: callers that overlap inside `ioreq_start` may share a buffer.
-/

set_option autoImplicit false

namespace Virtioso.Proxy

open Foundation Virtioso.Ring Rpc

structure MmioAccess where
  direction : BitVec 64
  addrSpace : BitVec 64
  length : BitVec 64
  addr : BitVec 64
  data : BitVec 64
  deriving DecidableEq, Repr

/-- A backend decodes a request with the fields of `rpc.h`. -/
def accessOf (words : Msg) : MmioAccess :=
  ⟨rpcMr0MmioDirection.get words.mr0, rpcMr0MmioAddrSpace.get words.mr0, rpcMr0MmioLength.get words.mr0,
    words.mr1, words.mr2⟩

def IoReq.access (req : IoReq) : MmioAccess :=
  ⟨req.direction.setWidth 64, req.addrSpace.setWidth 64, req.size, req.offset, req.val⟩

theorem Decodes.access {words : Msg} {req : IoReq} (decodes : Decodes words req) : accessOf words = req.access := by
  rw [accessOf, decodes.direction, decodes.addrSpace, decodes.length, decodes.offset, decodes.val]
  rfl

variable {W D ι : Type}

/-- A session with a device behind it, and what has been performed on the device: the
number of each request with the data of its answer. -/
structure Remote (W D : Type) where
  session : Session W
  device : D
  performed : List (Nat × BitVec 64)

inductive RemoteOp where
  | session (op : SessionOp)
  /-- a peer performs a request that it holds -/
  | serve (peer : Peer) (held : Held)

def Remote.step (v : CasVariant) (others : List (RpcCallback W)) (serve : D → MmioAccess → BitVec 64 × D)
    (r : Remote W D) : RemoteOp → Option (Remote W D)
  | .session op => (r.session.step v others op).map fun t => { r with session := t }
  | .serve _ held =>
      let (data, next) := serve r.device (accessOf (r.session.proxy.rpc.buffer held.1))
      some { r with device := next, performed := r.performed ++ [(held.2, data)] }

def slotWord (i : Fin ioacksSize) : BitVec 32 := BitVec.ofNat 32 i.val

section Callers
variable (cookie : Fin ioacksSize → Cookie)

/-- A caller uses a slot and a cookie of its own; a peer performs a request once, and answers
with what this returned. -/
def Proper (r : Remote W D) : RemoteOp → Prop
  | .session (.start req) => Regular r.session (.start req) ∧ ∃ i, req.slot = slotWord i ∧ req.cookie = cookie i
  | .session (.reply peer held data doorbell) =>
      Regular r.session (.reply peer held data doorbell) ∧ (held.2, data) ∈ r.performed
  | .session op => Regular r.session op
  | .serve peer held => held ∈ r.session.proxy.rpc.hands (.peer peer) ∧ held.2 ∉ r.performed.map Prod.fst

instance (r : Remote W D) : (op : RemoteOp) → Decidable (Proper cookie r op)
  | .session (.start _) => inferInstanceAs (Decidable (_ ∧ _))
  | .session (.reply _ _ _ _) => inferInstanceAs (Decidable (_ ∧ _))
  | .session (.receive _) | .session (.run _) => .isTrue trivial
  | .session (.forward _ _) => inferInstanceAs (Decidable (_ ∈ _))
  | .serve _ _ => inferInstanceAs (Decidable (_ ∧ _))

/-- The return that a callback brings about: its cookie tells the caller. -/
def IoackCall.event (call : IoackCall) : Option (CallEvent (Fin ioacksSize) MmioAccess (BitVec 64)) :=
  ((List.finRange ioacksSize).find? fun i => cookie i == call.cookie).map fun i => .ret i call.data

def RemoteOp.events (r : Remote W D) : RemoteOp → Remote W D → List (CallEvent (Fin ioacksSize) MmioAccess (BitVec 64))
  | .session (.start req), _ =>
      if inside : req.slot.toNat < ioacksSize then [.call ⟨req.slot.toNat, inside⟩ req.access] else []
  | .session (.run _), t =>
      (t.session.proxy.calls.drop r.session.proxy.calls.length).filterMap (IoackCall.event cookie)
  | _, _ => []

def remoteDevice (v : CasVariant) (others : List (RpcCallback W)) (serve : D → MmioAccess → BitVec 64 × D) :
    Machine (Remote W D) (CallEvent (Fin ioacksSize) MmioAccess (BitVec 64)) :=
  ofSteps (Remote.step v others serve) (Proper cookie) (RemoteOp.events cookie)

end Callers

def DeviceEffect (serve : D → MmioAccess → BitVec 64 × D) (_ : ι → CallPhase MmioAccess (BitVec 64)) (device : D)
    (access : MmioAccess) (data : BitVec 64) (next : D) : Prop := serve device access = (data, next)

def OnSlot (starts : List IoReq) (n : Nat) (slot : BitVec 32) : Prop := (starts[n]?).map IoReq.slot = some slot

inductive CallStage (starts : List IoReq) (flight : Nat → Prop) (performed : List (Nat × BitVec 64))
    (slot : BitVec 32) : CallPhase MmioAccess (BitVec 64) → Prop where
  | ready : (∀ n, flight n → ¬OnSlot starts n slot) → CallStage starts flight performed slot .ready
  | called {n : Nat} {req : IoReq} : flight n → starts[n]? = some req → req.slot = slot →
      n ∉ performed.map Prod.fst → CallStage starts flight performed slot (.called req.access)
  | done {n : Nat} {data : BitVec 64} : flight n → OnSlot starts n slot → (n, data) ∈ performed →
      CallStage starts flight performed slot (.done data)

section CallStage
variable {starts starts' : List IoReq} {flight flight' : Nat → Prop} {performed performed' : List (Nat × BitVec 64)}
  {slot : BitVec 32} {phase : CallPhase MmioAccess (BitVec 64)} {n : Nat} {req : IoReq} {data : BitVec 64}

theorem onSlot_eq (started : starts[n]? = some req) : OnSlot starts n req.slot := by
  rw [OnSlot, started]
  rfl

theorem CallStage.carry (stage : CallStage starts flight performed slot phase)
    (kept : ∀ (n : Nat) req, starts[n]? = some req → starts'[n]? = some req)
    (same : ∀ n, flight n → OnSlot starts n slot → flight' n)
    (none_new : ∀ n, flight' n → OnSlot starts' n slot → flight n ∧ OnSlot starts n slot)
    (more : performed ⊆ performed')
    (apart : ∀ n, flight n → OnSlot starts n slot → n ∈ performed'.map Prod.fst → n ∈ performed.map Prod.fst) :
    CallStage starts' flight' performed' slot phase := by
  cases stage with
  | ready idle =>
    refine .ready fun n flies on => ?_
    obtain ⟨before, there⟩ := none_new n flies on
    exact idle n before there
  | @called n req flies started on waits =>
    have here := on ▸ onSlot_eq started
    exact .called (same n flies here) (kept n req started) on fun done => waits (apart n flies here done)
  | @done n data flies on done =>
    obtain ⟨req, started, same_⟩ := Option.map_eq_some_iff.mp on
    refine .done (same n flies on) ?_ (more done)
    rw [OnSlot, kept n req started, Option.map_some, same_]

theorem CallStage.idle (stage : CallStage starts flight performed slot phase)
    (free : ∀ n, flight n → ¬OnSlot starts n slot) : phase = .ready := by
  cases stage with
  | ready _ => rfl
  | called flies started on _ => exact absurd (on ▸ onSlot_eq started) (free _ flies)
  | done flies on _ => exact absurd on (free _ flies)

theorem CallStage.waiting (stage : CallStage starts flight performed slot phase)
    (alone : ∀ m n, flight m → flight n → OnSlot starts m slot → OnSlot starts n slot → m = n)
    (flies : flight n) (started : starts[n]? = some req) (on : req.slot = slot)
    (waits : n ∉ performed.map Prod.fst) : phase = .called req.access := by
  have here := on ▸ onSlot_eq started
  cases stage with
  | ready idle => exact absurd here (idle n flies)
  | called flies' started' on' _ =>
    obtain rfl := alone _ _ flies' flies (on' ▸ onSlot_eq started') here
    rw [started] at started'
    cases started'
    rfl
  | done flies' on' done =>
    obtain rfl := alone _ _ flies' flies on' here
    exact absurd (List.mem_map_of_mem done) waits

theorem CallStage.answered (stage : CallStage starts flight performed slot phase)
    (alone : ∀ m n, flight m → flight n → OnSlot starts m slot → OnSlot starts n slot → m = n)
    (once : (performed.map Prod.fst).Nodup) (flies : flight n) (on : OnSlot starts n slot)
    (done : (n, data) ∈ performed) : phase = .done data := by
  cases stage with
  | ready idle => exact absurd on (idle n flies)
  | called flies' started' on' waits =>
    obtain rfl := alone _ _ flies' flies (on' ▸ onSlot_eq started') on
    exact absurd (List.mem_map_of_mem done) waits
  | done flies' on' done' =>
    obtain rfl := alone _ _ flies' flies on' on
    cases List.inj_on_of_nodup_map once done done' rfl
    rfl

end CallStage

/-! ### Requests in flight -/

variable {v : CasVariant} {others : List (RpcCallback W)} {s : Session W} {at_ : MsgPtr → Option (Place × Nat)}

theorem Sound.flies (sound : Sound s at_) {n : Nat} (flies : n ∈ inFlight s.proxy.rpc) :
    ∃ msg, number at_ msg = some n := by
  rcases (sound.mem_inFlight n).mp flies with waits | queued
  · obtain ⟨msg, _, here, _⟩ := sound.mem_upstream waits
    exact ⟨msg, number_eq here⟩
  · obtain ⟨msg, here⟩ := sound.mem_journey queued
    exact ⟨msg, number_eq here⟩

theorem Sound.alone (sound : Sound s at_) (slot : BitVec 32) (m n : Nat) (first : m ∈ inFlight s.proxy.rpc)
    (second : n ∈ inFlight s.proxy.rpc) (onFirst : OnSlot s.starts m slot) (onSecond : OnSlot s.starts n slot) :
    m = n := by
  obtain ⟨msg, here⟩ := sound.flies first
  obtain ⟨msg', there⟩ := sound.flies second
  obtain ⟨req, started, rfl⟩ := Option.map_eq_some_iff.mp onFirst
  obtain ⟨req', started', same⟩ := Option.map_eq_some_iff.mp onSecond
  have equal := sound.slots.apart msg msg' m n here there (by rw [slotOf_eq started, slotOf_eq started', same])
  subst equal
  exact Option.some.inj (here.symm.trans there)

theorem Sound.held_flies (sound : Sound s at_) {peer : Peer} {held : Held}
    (member : held ∈ s.proxy.rpc.hands (.peer peer)) : held.2 ∈ inFlight s.proxy.rpc :=
  sound.in_flight (number_eq (sound.mem_hands member))

def Resumes (cookie : ι → Cookie) (call : IoackCall) (event : CallEvent ι MmioAccess (BitVec 64)) : Prop :=
  ∃ i, call.cookie = cookie i ∧ event = .ret i call.data

/-- The session and the device, against an atomic device. -/
structure Mirrors (slot : ι → BitVec 32) (cookie : ι → Cookie) (r : Remote W D)
    (object : AtomicObject ι MmioAccess (BitVec 64) D) : Prop where
  sound : ∃ at_, Sound r.session at_
  callers : ∀ req ∈ r.session.starts, ∃ i, req.slot = slot i ∧ req.cookie = cookie i
  older : ∀ answer ∈ r.performed, answer.1 < r.session.starts.length
  once : (r.performed.map Prod.fst).Nodup
  replied : r.session.replies ⊆ r.performed
  contents : object.contents = r.device
  stage : ∀ i, CallStage r.session.starts (· ∈ inFlight r.session.proxy.rpc) r.performed (slot i) (object.phase i)

section Steps
variable {serve : D → MmioAccess → BitVec 64 × D} {slot : ι → BitVec 32} {cookie : ι → Cookie}
  {r : Remote W D} {t : Session W} {object : AtomicObject ι MmioAccess (BitVec 64) D}

theorem mirrors_initial (outside : W) (device : D) :
    Mirrors slot cookie ⟨Session.initial outside, device, []⟩ ⟨device, fun _ => .ready⟩ where
  sound := ⟨_, sound_initial outside⟩
  callers _ member := by cases member
  older _ member := by cases member
  once := List.nodup_nil
  replied _ member := by cases member
  contents := rfl
  stage i := .ready fun n flies => by simp [inFlight, Session.initial, System.initial] at flies

/-- What the peers do with messages is not to be seen. -/
theorem Mirrors.passed (mirrors : Mirrors slot cookie r object) (passed : Passed r.session t)
    (sound : ∃ at_, Sound t at_) (replied : t.replies ⊆ r.performed) :
    Mirrors slot cookie { r with session := t } object where
  sound := sound
  callers := by
    simp only [passed.starts]
    exact mirrors.callers
  older := by
    simp only [passed.starts]
    exact mirrors.older
  once := mirrors.once
  replied := replied
  contents := mirrors.contents
  stage i := by
    have same : (· ∈ inFlight t.proxy.rpc) = (· ∈ inFlight r.session.proxy.rpc) :=
      funext fun n => propext (passed.flight n)
    simp only [same, passed.starts]
    exact mirrors.stage i

variable [DecidableEq ι]

theorem Mirrors.called (mirrors : Mirrors slot cookie r object) (slots : Function.Injective slot) {req : IoReq} {i : ι}
    (on : req.slot = slot i) (own : req.cookie = cookie i) (regular : Regular r.session (.start req)) {out : Outcome}
    (performed : r.session.perform v others (.start req) = .ok (t, out)) :
    object.phase i = .ready ∧ Mirrors slot cookie { r with session := t }
      ⟨object.contents, Function.update object.phase i (.called req.access)⟩ := by
  obtain ⟨at_, sound⟩ := mirrors.sound
  obtain ⟨u, out', again, at', after⟩ := sound.perform v others regular
  rw [performed] at again
  cases again
  have flight := sound.started_flight regular performed after
  obtain ⟨starts, replies, _⟩ := sound.requested regular performed
  have newest : t.starts[r.session.starts.length]? = some req := by rw [starts, List.getElem?_concat_length]
  have kept : ∀ (n : Nat) req', r.session.starts[n]? = some req' → t.starts[n]? = some req' := by
    intro n req' started
    rw [starts, List.getElem?_append_left (List.getElem?_eq_some_iff.mp started).1, started]
  refine ⟨(mirrors.stage i).idle fun n flies here => regular.2 ⟨n, flies, on ▸ here⟩,
    ⟨_, after⟩, fun asked member => ?_, fun answer among => ?_, mirrors.once, ?_, mirrors.contents, fun j => ?_⟩
  · rw [starts] at member
    rcases List.mem_append.mp member with old | new
    · exact mirrors.callers asked old
    · rw [List.mem_singleton.mp new]
      exact ⟨i, on, own⟩
  · rw [starts, List.length_append]
    exact Nat.lt_add_right _ (mirrors.older answer among)
  · rw [replies]
    exact mirrors.replied
  · by_cases eq : j = i
    · subst j
      simp only [Function.update_self]
      refine .called ((flight _).mpr (.inl rfl)) newest on fun done => ?_
      obtain ⟨answer, among, same⟩ := List.mem_map.mp done
      exact absurd (mirrors.older answer among) (by omega)
    · simp only [Function.update_of_ne eq]
      refine (mirrors.stage j).carry kept (fun n flies _ => (flight n).mpr (.inr flies)) (fun n flies here => ?_)
        (fun _ member => member) fun _ _ _ done => done
      rcases (flight n).mp flies with rfl | before
      · -- the new request is on another slot
        rw [OnSlot, newest, Option.map_some, on] at here
        exact absurd (slots (Option.some.inj here)) (Ne.symm eq)
      · obtain ⟨msg, number_⟩ := sound.flies before
        obtain ⟨req', _, started, _⟩ := sound.slots.installed msg n number_
        rw [OnSlot, kept n req' started] at here
        exact ⟨before, by rw [OnSlot, started, here]⟩

/-- A request that is performed has its effect on the device, with the caller's own access. -/
theorem Mirrors.served (mirrors : Mirrors slot cookie r object) (slots : Function.Injective slot) {peer : Peer}
    {held : Held} (member : held ∈ r.session.proxy.rpc.hands (.peer peer)) (new : held.2 ∉ r.performed.map Prod.fst)
    {data : BitVec 64} {next : D}
    (serves : serve r.device (accessOf (r.session.proxy.rpc.buffer held.1)) = (data, next)) :
    ∃ i access, object.phase i = .called access ∧ DeviceEffect serve object.phase object.contents access data next ∧
      Mirrors slot cookie { r with device := next, performed := r.performed ++ [(held.2, data)] }
        ⟨next, Function.update object.phase i (.done data)⟩ := by
  obtain ⟨at_, sound⟩ := mirrors.sound
  obtain ⟨req, started, decodes⟩ := sound.decodes member
  obtain ⟨i, on, _⟩ := mirrors.callers req (List.mem_of_getElem? started)
  have flies := sound.held_flies member
  rw [decodes.access] at serves
  refine ⟨i, req.access, (mirrors.stage i).waiting (sound.alone _) flies started on new, ?_, mirrors.sound,
    mirrors.callers, fun answer among => ?_, ?_, ?_, rfl, fun j => ?_⟩
  · rw [DeviceEffect, mirrors.contents, serves]
  · rcases List.mem_append.mp among with old | last
    · exact mirrors.older answer old
    · rw [List.mem_singleton.mp last]
      exact (List.getElem?_eq_some_iff.mp started).1
  · rw [List.map_append]
    refine List.nodup_append.mpr ⟨mirrors.once, List.nodup_singleton _, fun n old m last same => ?_⟩
    have number_ : n = held.2 := same.trans (List.mem_singleton.mp last)
    exact new (number_ ▸ old)
  · exact List.Subset.trans mirrors.replied (List.subset_append_left _ _)
  · by_cases eq : j = i
    · subst j
      simp only [Function.update_self]
      exact .done flies (on ▸ onSlot_eq started) (List.mem_append_right _ List.mem_cons_self)
    · simp only [Function.update_of_ne eq]
      refine (mirrors.stage j).carry (fun _ _ started => started) (fun _ flies _ => flies)
        (fun _ flies here => ⟨flies, here⟩) (List.subset_append_left _ _) fun n _ here done => ?_
      rw [List.map_append, List.mem_append] at done
      refine done.resolve_right fun last => ?_
      have number_ : n = held.2 := List.mem_singleton.mp last
      -- the request that is performed is on another slot
      rw [number_, OnSlot, started, Option.map_some, on] at here
      exact eq (slots (Option.some.inj here)).symm

/-- The callbacks of a run are returns of the calls they belong to, in their order. -/
theorem resumed (slots : Function.Injective slot) (cookies : Function.Injective cookie) {starts : List IoReq}
    (callers : ∀ req ∈ starts, ∃ i, req.slot = slot i ∧ req.cookie = cookie i) {performed : List (Nat × BitVec 64)}
    (once : (performed.map Prod.fst).Nodup) {pending : List (Nat × BitVec 64)} {calls : List IoackCall}
    (invoked : List.Forall₂ (Invoked starts) pending calls) {seen : List (CallEvent ι MmioAccess (BitVec 64))}
    (resumes : List.Forall₂ (Resumes cookie) calls seen) (answers : pending ⊆ performed)
    (apart : (pending.map Prod.fst).Nodup) {flight flight' : Nat → Prop}
    (alone : ∀ slot m n, flight m → flight n → OnSlot starts m slot → OnSlot starts n slot → m = n)
    (flies : ∀ reply ∈ pending, flight reply.1)
    (gone : ∀ n, flight' n ↔ flight n ∧ n ∉ pending.map Prod.fst) {device : D}
    {phase : ι → CallPhase MmioAccess (BitVec 64)} (stage : ∀ i, CallStage starts flight performed (slot i) (phase i)) :
    ∃ phase', Shows (AtomicStep (DeviceEffect serve)) ⟨device, phase⟩ seen ⟨device, phase'⟩ ∧
      ∀ i, CallStage starts flight' performed (slot i) (phase' i) := by
  induction invoked generalizing flight phase seen with
  | nil =>
    cases resumes
    have same : flight' = flight := by
      funext n
      exact propext ((gone n).trans (and_iff_left (by simp)))
    exact ⟨phase, .start, same ▸ stage⟩
  | @cons reply call pending calls first rest ih =>
    obtain ⟨n, data⟩ := reply
    obtain ⟨req, started, rfl⟩ := first
    obtain ⟨i, on, own⟩ := callers req (List.mem_of_getElem? started)
    rw [List.map_cons, List.nodup_cons] at apart
    have here : OnSlot starts n (slot i) := on ▸ onSlot_eq started
    have flying : flight n := flies _ List.mem_cons_self
    cases resumes with
    | @cons _ event _ seen resume others =>
      obtain ⟨j, same, rfl⟩ := resume
      -- cookies tell the callers apart
      obtain rfl : i = j := cookies (own.symm.trans same)
      have done := (stage i).answered (alone _) once flying here (answers List.mem_cons_self)
      have returned : Shows (AtomicStep (DeviceEffect serve)) ⟨device, phase⟩ [.ret i data]
          ⟨device, Function.update phase i .ready⟩ := Shows.step (AtomicStep.ret done)
      have alone' : ∀ slot a b, flight a ∧ a ≠ n → flight b ∧ b ≠ n → OnSlot starts a slot → OnSlot starts b slot →
          a = b := fun slot a b first second => alone slot a b first.1 second.1
      have flies' : ∀ later ∈ pending, flight later.1 ∧ later.1 ≠ n := by
        exact fun later member => ⟨flies later (List.mem_cons_of_mem _ member),
          fun same => apart.1 (List.mem_map.mpr ⟨later, member, same⟩)⟩
      have gone' : ∀ m, flight' m ↔ (flight m ∧ m ≠ n) ∧ m ∉ pending.map Prod.fst := by
        intro m
        rw [gone, List.map_cons, List.mem_cons]
        tauto
      have left : ∀ j, CallStage starts (fun m => flight m ∧ m ≠ n) performed (slot j)
          (Function.update phase i .ready j) := by
        intro j
        by_cases eq : j = i
        · subst j
          rw [Function.update_self]
          exact .ready fun m flies on' => flies.2 (alone _ _ _ flies.1 flying on' here)
        · rw [Function.update_of_ne eq]
          refine (stage j).carry (fun _ _ started => started) (fun m flies on' => ⟨flies, ?_⟩)
            (fun m flies on' => ⟨flies.1, on'⟩) (fun _ member => member) fun _ _ _ done => done
          rintro rfl
          rw [OnSlot, started, Option.map_some, on] at on'
          exact eq (slots (Option.some.inj on')).symm
      obtain ⟨phase', shown, after⟩ := ih others (fun _ member => answers (List.mem_cons_of_mem _ member)) apart.2
        alone' flies' gone' left
      exact ⟨phase', returned.trans shown, after⟩

end Steps

section Device
variable {serve : D → MmioAccess → BitVec 64 × D} {cookie : Fin ioacksSize → Cookie}

theorem slotWord_toNat (i : Fin ioacksSize) : (slotWord i).toNat = i.val :=
  (BitVec.toNat_ofNat ..).trans (Nat.mod_eq_of_lt (Nat.lt_trans i.isLt (by decide)))

theorem slotWord_injective : Function.Injective slotWord := by
  intro i j same
  apply Fin.ext
  rw [← slotWord_toNat, same, slotWord_toNat]

theorem call_event (cookies : Function.Injective cookie) {call : IoackCall} {i : Fin ioacksSize}
    (own : call.cookie = cookie i) : call.event cookie = some (.ret i call.data) := by
  have found : (List.finRange ioacksSize).find? (fun j => cookie j == call.cookie) = some i := by
    cases found : (List.finRange ioacksSize).find? (fun j => cookie j == call.cookie) with
    | none =>
      have none_ := List.find?_eq_none.mp found i (List.mem_finRange i)
      simp [own] at none_
    | some j =>
      have same := List.find?_some found
      rw [beq_iff_eq, own] at same
      rw [cookies same]
  rw [IoackCall.event, found]
  rfl

theorem calls_resume (cookies : Function.Injective cookie) {starts : List IoReq}
    (callers : ∀ req ∈ starts, ∃ i, req.slot = slotWord i ∧ req.cookie = cookie i) {pending : List (Nat × BitVec 64)}
    {calls : List IoackCall} (invoked : List.Forall₂ (Invoked starts) pending calls) :
    List.Forall₂ (Resumes cookie) calls (calls.filterMap (IoackCall.event cookie)) := by
  induction invoked with
  | nil => exact .nil
  | cons first _ ih =>
    obtain ⟨req, started, rfl⟩ := first
    obtain ⟨i, _, own⟩ := callers req (List.mem_of_getElem? started)
    rw [List.filterMap_cons_some (call_event cookies own)]
    exact .cons ⟨i, own, rfl⟩ ih

theorem remote_simulates (cookies : Function.Injective cookie) :
    ForwardSimulation (remoteDevice cookie v others serve) (AtomicStep (DeviceEffect serve))
      (Mirrors (W := W) slotWord cookie) := by
  rintro r object _ next mirrors ⟨op, proper, edge, rfl⟩
  obtain ⟨at_, sound⟩ := mirrors.sound
  have after {op : SessionOp} {t : Session W} {out : Outcome} (performed : r.session.perform v others op = .ok (t, out))
      (regular : Regular r.session op) : ∃ at', Sound t at' := by
    obtain ⟨u, out', again, ending⟩ := sound.perform v others regular
    rw [performed] at again
    cases again
    exact ending
  cases op with
  | serve peer held =>
    cases edge
    obtain ⟨data, device, serves⟩ : ∃ data device,
        serve r.device (accessOf (r.session.proxy.rpc.buffer held.1)) = (data, device) := ⟨_, _, rfl⟩
    rw [serves]
    obtain ⟨i, access, called, effect, served⟩ := mirrors.served slotWord_injective proper.1 proper.2 serves
    exact ⟨_, Shows.step (AtomicStep.effect called effect), served⟩
  | session op =>
    obtain ⟨t, moved, rfl⟩ := Option.map_eq_some_iff.mp edge
    obtain ⟨out, performed⟩ : ∃ out, r.session.perform v others op = .ok (t, out) := by
      unfold Session.step at moved
      split at moved
      · next out returns =>
        cases moved
        exact ⟨out, returns⟩
      · cases moved
    cases op with
    | start req =>
      obtain ⟨regular, i, on, own⟩ := proper
      obtain ⟨ready, called⟩ := mirrors.called slotWord_injective on own regular performed
      have seen : RemoteOp.events cookie r (.session (.start req)) { r with session := t } = [.call i req.access] := by
        have here : req.slot.toNat = i.val := on ▸ slotWord_toNat i
        simp only [RemoteOp.events, here, i.isLt, ↓reduceDIte]
      rw [seen]
      exact ⟨_, Shows.step (AtomicStep.call ready), called⟩
    | receive peer =>
      obtain ⟨at', ending⟩ := after performed trivial
      have passed := sound.pass_receive performed ending
      refine ⟨object, .start, mirrors.passed passed ⟨at', ending⟩ ?_⟩
      rcases sound.received performed with ⟨_, rfl⟩ | ⟨_, _, _, _, _, rfl⟩
      · exact mirrors.replied
      · exact mirrors.replied
    | forward peer held =>
      obtain ⟨at', ending⟩ := after performed proper
      have passed := sound.pass_forward proper performed ending
      refine ⟨object, .start, mirrors.passed passed ⟨at', ending⟩ ?_⟩
      obtain ⟨_, rfl⟩ := sound.forwarded proper performed
      exact mirrors.replied
    | reply peer held data doorbell =>
      obtain ⟨member, done⟩ := proper
      obtain ⟨at', ending⟩ := after performed member
      have passed := sound.pass_reply member performed ending
      refine ⟨object, .start, mirrors.passed passed ⟨at', ending⟩ ?_⟩
      obtain ⟨_, _, rfl⟩ := sound.replied member performed
      exact List.append_subset.mpr ⟨mirrors.replied, List.cons_subset.mpr ⟨done, List.nil_subset _⟩⟩
    | run event =>
      obtain ⟨starts, replies, pending, calls, called, answers, invoked, apart, flies, gone⟩ :=
        sound.ran_calls performed
      have seen : RemoteOp.events cookie r (.session (.run event)) { r with session := t } =
          calls.filterMap (IoackCall.event cookie) := by
        rw [RemoteOp.events, called, List.drop_left]
      obtain ⟨phase, shown, stage⟩ := resumed slotWord_injective cookies mirrors.callers mirrors.once invoked
        (calls_resume cookies mirrors.callers invoked) (List.Subset.trans answers mirrors.replied) apart sound.alone
        flies gone mirrors.stage
      rw [seen]
      refine ⟨⟨object.contents, phase⟩, shown, after performed trivial, ?_, ?_, mirrors.once, ?_, mirrors.contents, ?_⟩
      · simp only [starts]
        exact mirrors.callers
      · simp only [starts]
        exact mirrors.older
      · simp only [replies]
        exact mirrors.replied
      · simp only [starts]
        exact stage

/-- In whatever order callers, proxy and peers take their operations, the accesses and the data
they return are those of one local device. -/
theorem remote_device_linearizable (v : CasVariant) (others : List (RpcCallback W))
    (serve : D → MmioAccess → BitVec 64 × D) (cookie : Fin ioacksSize → Cookie) (cookies : Function.Injective cookie)
    (outside : W) (device : D) (seen : List (CallEvent (Fin ioacksSize) MmioAccess (BitVec 64))) (r : Remote W D)
    (run : Shows (remoteDevice cookie v others serve) ⟨.initial outside, device, []⟩ seen r) :
    ∃ object, Shows (AtomicStep (DeviceEffect serve)) ⟨device, fun _ => .ready⟩ seen object ∧
      object.contents = r.device := by
  obtain ⟨object, shown, mirrors⟩ := (remote_simulates cookies).shows (mirrors_initial outside device) run
  exact ⟨object, shown, mirrors.contents⟩

def register (value : BitVec 64) (access : MmioAccess) : BitVec 64 × BitVec 64 :=
  if access.direction = sel4IoDirWrite.setWidth 64 then (0#64, access.data) else (value, value)

abbrev twoCallers (i : Fin ioacksSize) : Cookie := BitVec.ofNat 64 (64 + i.val)

/-- A vCPU writes while a native thread reads. The read is performed first, and answered last. -/
def swapped : List RemoteOp :=
  [.session (.start ⟨3#32, .ioackVcpuRead, .ioackVcpuWrite, 67#64, 255#32, 1#32, 64#64, 8#64, 5#64⟩),
    .session (.start ⟨20#32, .ioackNativeRead, .ioackNativeWrite, 84#64, 2#32, 0#32, 64#64, 8#64, 0#64⟩),
    .session (.receive .deviceKm), .session (.receive .deviceKm), .serve .deviceKm (1, 1), .serve .deviceKm (0, 0),
    .session (.reply .deviceKm (0, 0) 0#64 true), .session (.reply .deviceKm (1, 1) 9#64 true),
    .session (.run Msg.zero)]

theorem swapped_reached :
    (execute (guarded (Remote.step .user [] register) (Proper twoCallers)) ⟨.initial (), 9#64, []⟩ swapped).map
        Remote.device = some 5#64 ∧
      shownBy (guarded (Remote.step .user [] register) (Proper twoCallers)) (RemoteOp.events twoCallers)
        ⟨.initial (), 9#64, []⟩ swapped =
        [.call 3 ⟨1#64, 255#64, 8#64, 64#64, 5#64⟩, .call 20 ⟨0#64, 2#64, 8#64, 64#64, 0#64⟩, .ret 3 0#64,
          .ret 20 9#64] := by
  decide +kernel

theorem remote_device_linearizable_swapped : ∃ object,
    Shows (AtomicStep (DeviceEffect register)) ⟨9#64, fun _ : Fin ioacksSize => .ready⟩
      [.call 3 ⟨1#64, 255#64, 8#64, 64#64, 5#64⟩, .call 20 ⟨0#64, 2#64, 8#64, 64#64, 0#64⟩, .ret 3 0#64, .ret 20 9#64]
      object ∧ object.contents = 5#64 := by
  obtain ⟨reached, seen⟩ := swapped_reached
  obtain ⟨r, ran, device⟩ := Option.map_eq_some_iff.mp reached
  have cookies : Function.Injective twoCallers := by decide
  have run := Shows.of_execute (RemoteOp.events twoCallers) ran
  rw [seen] at run
  obtain ⟨object, shown, contents⟩ := remote_device_linearizable .user [] register twoCallers cookies () 9#64 _ r run
  exact ⟨object, shown, contents.trans device⟩

end Device

end Virtioso.Proxy
