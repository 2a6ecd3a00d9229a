import Virtioso.Foundation.Places
import Virtioso.Rpc.System

/-! Conservation of message buffers.

Every id is free with its bit clear, or lent and in one place once: a queue or the
hands of a party. A place that lacks some id has fewer than 32, so a message in
hand always fits the queue it is passed to.
-/

set_option autoImplicit false

namespace Virtioso.Rpc

open Foundation Virtioso.Ring

inductive Place where
  | queue (id : QueueId)
  | hand (party : Party)
  deriving DecidableEq, Repr

/-- Beside the messages in queues and hands, some may be `borrowed`: lent to a call of
`rpcmsg_request` that has not enqueued them yet. -/
structure Inv (borrowed : MsgPtr → Prop) (s : System) (at_ : MsgPtr → Option (Place × Nat))
    (stock : Place → List Held) : Prop where
  occupied : Occupied at_ stock
  hands : ∀ party, s.hands party = stock (.hand party)
  holding : ∀ id, Holding rpcElement (s.queues id) ((stock (.queue id)).map Prod.fst)
  journey : ∀ id, s.journey id = (stock (.queue id)).map Prod.snd
  lent : ∀ msg, s.bufferState.lent msg = true ↔ at_ msg ≠ none ∨ borrowed msg
  apart : ∀ msg, borrowed msg → at_ msg = none
  issued : ∀ msg p n, at_ msg = some (p, n) → s.issued[n]? = some (msg.val : Int)

def Located (borrowed : MsgPtr → Prop) (s : System) (at_ : MsgPtr → Option (Place × Nat)) : Prop :=
  ∃ stock, Inv borrowed s at_ stock

def Conserving (borrowed : MsgPtr → Prop) (s : System) : Prop :=
  ∃ at_, Located borrowed s at_

def Answers (s : System) : Operation → Outcome → Prop
  | .request _ _ _ _, .code value => ∃ msg : MsgPtr, s.bufferState.lent msg = false ∧ value = msg.val
  | .forward _ _, .code value | .reply _ _, .code value => value = 0
  | .receive peer, .received msg => msg.map rpcmsgMsgToId = (queuedIds (s.queues peer.request)).head?
  | .receiveResponse, .response answer =>
      answer.map (·.2.1) = (queuedIds (s.queues .drvrpcResp)).head? ∧
        ∀ msg id n, answer = some (msg, id, n) → s.issued[n]? = some (id.toNat : Int)
  | .write _ _ _, .done | .reclaim _, .done => True
  | _, _ => False

variable {v : CasVariant} {borrowed : MsgPtr → Prop} {s : System}
variable {at_ : MsgPtr → Option (Place × Nat)} {stock : Place → List Held}

section Updates
variable {α : Type} (f : Place → α) (id id' : QueueId) (party party' : Party) (x : α)

theorem update_queue : Function.update f (.queue id) x (.queue id') =
    Function.update (fun id => f (.queue id)) id x id' := by
  by_cases same : id' = id
  · subst same
    simp
  · simp [same]

theorem update_hand : Function.update f (.hand party) x (.hand party') =
    Function.update (fun party => f (.hand party)) party x party' := by
  by_cases same : party' = party
  · subst same
    simp
  · simp [same]

@[simp] theorem update_queue_hand : Function.update f (.queue id) x (.hand party) = f (.hand party) :=
  Function.update_of_ne (by simp) ..

@[simp] theorem update_hand_queue : Function.update f (.hand party) x (.queue id) = f (.queue id) :=
  Function.update_of_ne (by simp) ..

end Updates

theorem conserving_initial : Conserving (fun _ => False) .initial :=
  ⟨fun _ => none, fun _ => [], occupied_empty, fun _ => rfl, fun _ => holding_init .., fun _ => rfl,
    fun _ => by simp [System.initial], fun _ no => no.elim, fun _ _ _ found => by cases found⟩

theorem Inv.room (inv : Inv borrowed s at_ stock) (id : QueueId) (msg : MsgPtr)
    (away : ∀ n, at_ msg ≠ some (.queue id, n)) :
    ((stock (.queue id)).map Prod.fst).length < bufferSize := by
  have shorter := inv.occupied.length_lt away
  rwa [List.length_map, ← Fintype.card_fin bufferSize]

theorem Inv.lent_move (inv : Inv borrowed s at_ stock) {held : Held} {p r : Place} {n : Nat}
    (here : at_ held.1 = some (p, n)) (msg : MsgPtr) :
    s.bufferState.lent msg = true ↔
      Function.update at_ held.1 (some (r, n)) msg ≠ none ∨ borrowed msg := by
  rw [inv.lent msg]
  by_cases same : msg = held.1
  · subst same
    simp [here]
  · rw [Function.update_of_ne same]

theorem Inv.apart_move (inv : Inv borrowed s at_ stock) {held : Held} {p : Place} {n : Nat}
    (here : at_ held.1 = some (p, n)) {msg : MsgPtr} (lender : borrowed msg)
    (target : Option (Place × Nat)) : Function.update at_ held.1 target msg = none := by
  have nowhere := inv.apart msg lender
  rw [Function.update_of_ne, nowhere]
  rintro rfl
  rw [nowhere] at here
  cases here

theorem Inv.issued_move (inv : Inv borrowed s at_ stock) {held : Held} {p r : Place}
    (here : at_ held.1 = some (p, held.2)) {msg : MsgPtr} {q : Place} {n : Nat}
    (found : Function.update at_ held.1 (some (r, held.2)) msg = some (q, n)) :
    s.issued[n]? = some (msg.val : Int) := by
  by_cases same : msg = held.1
  · subst same
    rw [Function.update_self] at found
    cases found
    exact inv.issued _ _ _ here
  · rw [Function.update_of_ne same] at found
    exact inv.issued _ _ _ found

section Queues
variable {id : QueueId} {contents : List Held}

theorem Inv.holding_update (inv : Inv borrowed s at_ stock) {queue : Queue RingIds}
    (holding : Holding rpcElement queue (contents.map Prod.fst)) (other : QueueId) :
    Holding rpcElement (Function.update s.queues id queue other)
      ((Function.update (fun id => stock (.queue id)) id contents other).map Prod.fst) := by
  by_cases same : other = id
  · subst same
    simpa using holding
  · simpa [same] using inv.holding other

theorem Inv.journey_update (inv : Inv borrowed s at_ stock) {journey : List Nat}
    (labels : journey = contents.map Prod.snd) (other : QueueId) : Function.update s.journey id journey other =
      (Function.update (fun id => stock (.queue id)) id contents other).map Prod.snd := by
  by_cases same : other = id
  · subst same
    simpa using labels
  · simpa [same] using inv.journey other

end Queues

theorem Inv.take (inv : Inv borrowed s at_ stock) {id : QueueId} (party : Party) {held : Held} {rest : List Held}
    (oldest : stock (.queue id) = held :: rest) {queue : Queue RingIds}
    (holding : Holding rpcElement queue (rest.map Prod.fst)) :
    Located borrowed (s.take id party queue held.1)
      (Function.update at_ held.1 (some (.hand party, held.2))) := by
  have here : held ∈ stock (.queue id) := by rw [oldest]; exact List.mem_cons_self
  have location := (inv.occupied.located _ _ _).mp here
  refine ⟨_, inv.occupied.move here (r := .hand party) (by simp), fun other => ?_, fun other => ?_,
    fun other => ?_, inv.lent_move location, fun _ lender => inv.apart_move location lender _,
    fun msg q n found => inv.issued_move location found⟩
  · rw [update_hand]
    simp only [update_queue_hand, System.take, ← inv.hands, inv.journey, oldest, List.map_cons,
      List.headD_cons]
  · rw [update_hand_queue, update_queue, oldest, List.erase_cons_head]
    exact inv.holding_update holding other
  · rw [update_hand_queue, update_queue, oldest, List.erase_cons_head]
    exact inv.journey_update (by simp [inv.journey, oldest]) other

theorem Inv.give (inv : Inv borrowed s at_ stock) {party : Party} {held : Held} (here : held ∈ s.hands party)
    {id : QueueId} {queue : Queue RingIds}
    (holding : Holding rpcElement queue ((stock (.queue id)).map Prod.fst ++ [held.1])) :
    Located borrowed (s.give party held id queue)
      (Function.update at_ held.1 (some (.queue id, held.2))) := by
  rw [inv.hands] at here
  have location := (inv.occupied.located _ _ _).mp here
  refine ⟨_, inv.occupied.move here (r := .queue id) (by simp), fun other => ?_, fun other => ?_,
    fun other => ?_, inv.lent_move location, fun _ lender => inv.apart_move location lender _,
    fun msg q n found => inv.issued_move location found⟩
  · rw [update_queue_hand, update_hand]
    simp only [System.give, ← inv.hands]
  · rw [update_queue]
    exact inv.holding_update (by simpa using holding) other
  · rw [update_queue]
    exact inv.journey_update (by simp [inv.journey]) other

theorem Inv.pass (inv : Inv borrowed s at_ stock) {peer : Peer} {held : Held}
    (here : held ∈ s.hands (.peer peer)) (id : QueueId) :
    ∃ queue, s.pass peer held id (rpcmsgRpcEnqueue v (s.queues id) held.1) =
        .ok (s.give (.peer peer) held id queue, 0) ∧
      Located borrowed (s.give (.peer peer) held id queue)
        (Function.update at_ held.1 (some (.queue id, held.2))) := by
  have location := (inv.occupied.located _ _ _).mp (inv.hands _ ▸ here)
  have room := inv.room id held.1 (by simp [location])
  obtain ⟨next, returns, keeps⟩ := rpc_enqueue (v := v) (inv.holding id) room held.1
  exact ⟨_, by rw [returns]; rfl, inv.give here keeps⟩

theorem Inv.free (inv : Inv borrowed s at_ stock) {msg : MsgPtr} (free : s.bufferState.lent msg = false) :
    at_ msg = none ∧ ¬borrowed msg := by
  have neither := (inv.lent msg).not.mp (by rw [free]; exact Bool.false_ne_true)
  rw [not_or, not_not] at neither
  exact neither

/-- A message in no other place goes to the request queue, under the next number. -/
theorem Inv.issue (inv : Inv borrowed s at_ stock) {lending : MsgPtr} (free : at_ lending = none)
    {queue : Queue RingIds} (buffer : Buffer) (state : BufferState) {borrowed' : MsgPtr → Prop}
    (keeps : Holding rpcElement queue ((stock (.queue .drvrpcReq)).map Prod.fst ++ [lending]))
    (lent : ∀ msg, state.lent msg = true ↔ msg = lending ∨ at_ msg ≠ none ∨ borrowed' msg)
    (apart : ∀ msg, borrowed' msg → msg ≠ lending ∧ borrowed msg) :
    Located borrowed' (s.issue ⟨queue, buffer, state, (rpcmsgMsgToId lending).toNat⟩)
      (Function.update at_ lending (some (.queue .drvrpcReq, s.issued.length))) := by
  refine ⟨_, inv.occupied.arrive free (.queue .drvrpcReq) s.issued.length,
    fun party => ?_, fun id => ?_, fun id => ?_, fun msg => ?_, fun msg lender => ?_,
    fun msg p n found => ?_⟩
  · rw [update_queue_hand]
    exact inv.hands party
  · rw [update_queue]
    exact inv.holding_update (by simpa using keeps) id
  · rw [update_queue]
    exact inv.journey_update (by simp [inv.journey]) id
  · rw [System.issue, System.store, lent]
    by_cases same : msg = lending
    · subst same
      simp
    · simp [same]
  · obtain ⟨other, lender⟩ := apart msg lender
    rw [Function.update_of_ne other]
    exact inv.apart msg lender
  -- the new number is the length of the log, and old numbers keep their entries
  · by_cases same : msg = lending
    · subst same
      rw [Function.update_self] at found
      cases found
      simp [System.issue, rpcmsgMsgToId_toNat]
    · rw [Function.update_of_ne same] at found
      have old := inv.issued _ _ _ found
      simp only [System.issue]
      rwa [List.getElem?_append_left (List.getElem?_eq_some_iff.mp old).1]

theorem Inv.request (inv : Inv borrowed s at_ stock) {msg : MsgPtr} (free : s.bufferState.lent msg = false)
    (mr0 mr1 mr2 mr3 : BitVec 64) :
    ∃ (lending : MsgPtr) (r : Requested), s.bufferState.lent lending = false ∧ r.code = lending.val ∧
      r.buffer = Function.update s.buffer lending ⟨mr0, mr1, mr2, mr3⟩ ∧
      s.request v mr0 mr1 mr2 mr3 = .ok (s.issue r, r.code) ∧
      Located borrowed (s.issue r)
        (Function.update at_ lending (some (.queue .drvrpcReq, s.issued.length))) := by
  have room := inv.room .drvrpcReq msg (by simp [inv.free free])
  obtain ⟨lending, next, zero, returns, keeps⟩ :=
    request_succeeds (v := v) (inv.holding .drvrpcReq) room free s.buffer mr0 mr1 mr2 mr3
  obtain ⟨nowhere, unclaimed⟩ := inv.free zero
  have code : ¬(((rpcmsgMsgToId lending).toNat : Int) < 0) := by omega
  refine ⟨lending, ⟨next, Function.update s.buffer lending ⟨mr0, mr1, mr2, mr3⟩,
      s.bufferState.setBit lending.val, (rpcmsgMsgToId lending).toNat⟩,
    zero, congrArg Nat.cast (rpcmsgMsgToId_toNat lending), rfl, System.request_issued returns code,
    inv.issue nowhere _ _ keeps (fun other => ?_) fun other lender => ⟨?_, lender⟩⟩
  · rw [lent_setBit, Bool.or_eq_true, decide_eq_true_eq, inv.lent]
  · rintro rfl
    exact unclaimed lender

theorem Inv.reclaim (inv : Inv borrowed s at_ stock) {held : Held} (here : held ∈ s.hands .driver) :
    Located borrowed (s.reclaim held) (Function.update at_ held.1 none) := by
  rw [inv.hands] at here
  have location := (inv.occupied.located _ _ _).mp here
  refine ⟨_, inv.occupied.depart here, fun party => ?_, fun id => ?_, fun id => ?_,
    fun msg => ?_, fun msg lender => inv.apart_move location lender _, fun msg p n found => ?_⟩
  · rw [update_hand]
    simp only [System.reclaim, ← inv.hands]
  · rw [update_hand_queue]
    exact inv.holding id
  · rw [update_hand_queue]
    exact inv.journey id
  · simp only [System.reclaim, lent_reclaim, Bool.and_eq_true, inv.lent]
    by_cases same : msg = held.1
    · subst same
      -- a message in hand is borrowed by no request
      have away : ¬borrowed held.1 := fun lender => by
        rw [inv.apart _ lender] at location
        cases location
      simp [away]
    · simp [same]
  · by_cases same : msg = held.1
    · subst same
      rw [Function.update_self] at found
      cases found
    · rw [Function.update_of_ne same] at found
      exact inv.issued _ _ _ found

theorem Inv.write (inv : Inv borrowed s at_ stock) (held : Held) (words : Msg) :
    Inv borrowed (s.write held words) at_ stock :=
  ⟨inv.occupied, inv.hands, inv.holding, inv.journey, inv.lent, inv.apart, inv.issued⟩

theorem Inv.queuedIds_head (inv : Inv borrowed s at_ stock) (id : QueueId) :
    (queuedIds (s.queues id)).head? = (stock (.queue id)).head?.map fun held => rpcmsgMsgToId held.1 := by
  rw [queuedIds_of_holding (inv.holding id), List.map_map, List.head?_map]
  rfl

theorem Inv.dequeue (inv : Inv borrowed s at_ stock) (v : CasVariant) (id : QueueId) :
    (stock (.queue id) = [] ∧ rpcmsgReceive v (s.queues id) = .ok (s.queues id, none)) ∨
      ∃ held rest queue, stock (.queue id) = held :: rest ∧
        rpcmsgReceive v (s.queues id) = .ok (queue, some held.1) ∧
        ∀ party, Located borrowed (s.take id party queue held.1)
          (Function.update at_ held.1 (some (.hand party, held.2))) := by
  have holding := inv.holding id
  cases oldest : stock (.queue id) with
  | nil =>
    rw [oldest, List.map_nil] at holding
    exact .inl ⟨rfl, rpc_receive_empty holding⟩
  | cons held rest =>
    rw [oldest, List.map_cons] at holding
    obtain ⟨next, returns, keeps⟩ := rpc_receive (v := v) holding
    exact .inr ⟨held, rest, next, rfl, returns, fun party => inv.take party oldest keeps⟩

theorem Inv.receive (inv : Inv borrowed s at_ stock) (v : CasVariant) (id : QueueId) (party : Party) :
    (stock (.queue id) = [] ∧ s.receive v id party = .ok (s, none)) ∨
      ∃ held rest queue, stock (.queue id) = held :: rest ∧
        s.receive v id party = .ok (s.take id party queue held.1, some held) ∧
        Located borrowed (s.take id party queue held.1)
          (Function.update at_ held.1 (some (.hand party, held.2))) := by
  rcases inv.dequeue v id with ⟨empty, returns⟩ | ⟨held, rest, queue, oldest, returns, keeps⟩
  · refine .inl ⟨empty, ?_⟩
    simp only [System.receive, returns, bind, Except.bind, pure, Except.pure, Function.update_eq_self]
  · refine .inr ⟨held, rest, queue, oldest, ?_, keeps _⟩
    simp only [System.receive, returns, bind, Except.bind, pure, Except.pure, inv.journey, oldest,
      List.map_cons, List.headD_cons]

theorem Inv.receive_response (inv : Inv borrowed s at_ stock) (v : CasVariant) :
    (stock (.queue .drvrpcResp) = [] ∧ s.receiveResponse v = .ok (s, none)) ∨
      ∃ held rest queue, stock (.queue .drvrpcResp) = held :: rest ∧
        s.receiveResponse v =
          .ok (s.take .drvrpcResp .driver queue held.1, some (held, rpcmsgMsgToId held.1)) ∧
        Located borrowed (s.take .drvrpcResp .driver queue held.1)
          (Function.update at_ held.1 (some (.hand .driver, held.2))) := by
  rcases inv.dequeue v .drvrpcResp with ⟨empty, returns⟩ | ⟨held, rest, queue, oldest, returns, keeps⟩
  · refine .inl ⟨empty, ?_⟩
    simp only [System.receiveResponse, rpcmsgReceiveResponse, returns, bind, Except.bind, pure,
      Except.pure, Option.map_none, Function.update_eq_self]
  · refine .inr ⟨held, rest, queue, oldest, ?_, keeps _⟩
    simp only [System.receiveResponse, rpcmsgReceiveResponse, returns, bind, Except.bind, pure,
      Except.pure, Option.map_some, inv.journey, oldest, List.map_cons, List.headD_cons]

/-- A disciplined operation returns, succeeds and conserves the buffers. -/
theorem Inv.perform (inv : Inv borrowed s at_ stock) {op : Operation} (disciplined : Disciplined s op) :
    ∃ t out, s.perform v op = .ok (t, out) ∧ Answers s op out ∧ Conserving borrowed t := by
  cases op with
  | request mr0 mr1 mr2 mr3 =>
    obtain ⟨msg, free⟩ := disciplined
    obtain ⟨lending, r, zero, code, _, returns, keeps⟩ := inv.request (v := v) free mr0 mr1 mr2 mr3
    exact ⟨_, .code r.code, by rw [System.perform, returns]; rfl, ⟨lending, zero, code⟩, _, keeps⟩
  | receive peer =>
    have head := inv.queuedIds_head peer.request
    rcases inv.receive v peer.request (.peer peer) with
      ⟨empty, returns⟩ | ⟨held, rest, queue, oldest, returns, keeps⟩
    · rw [empty] at head
      exact ⟨s, .received none, by rw [System.perform, returns]; rfl, head.symm, at_, stock, inv⟩
    · rw [oldest] at head
      exact ⟨_, .received (some held.1), by rw [System.perform, returns]; rfl, head.symm, _, keeps⟩
  | forward peer held =>
    obtain ⟨queue, returns, keeps⟩ := inv.pass (v := v) disciplined .drvrpcReqDev
    exact ⟨_, .code 0, by rw [System.perform, System.forward, rpcmsgForward, returns]; rfl, rfl, _, keeps⟩
  | reply peer held =>
    obtain ⟨queue, returns, keeps⟩ := inv.pass (v := v) disciplined .drvrpcResp
    exact ⟨_, .code 0, by rw [System.perform, System.reply, rpcmsgReply, returns]; rfl, rfl, _, keeps⟩
  | write party held words => exact ⟨_, .done, rfl, trivial, at_, stock, inv.write held words⟩
  | receiveResponse =>
    have head := inv.queuedIds_head .drvrpcResp
    rcases inv.receive_response v with ⟨empty, returns⟩ | ⟨held, rest, queue, oldest, returns, keeps⟩
    · rw [empty] at head
      exact ⟨s, .response none, by rw [System.perform, returns]; rfl,
        ⟨head.symm, fun _ _ _ none => by cases none⟩, at_, stock, inv⟩
    · have here : held ∈ stock (.queue .drvrpcResp) := by rw [oldest]; exact List.mem_cons_self
      -- the number the message travelled with is that of the request that lent it
      have number := inv.issued _ _ _ ((inv.occupied.located _ _ _).mp here)
      rw [oldest] at head
      refine ⟨_, .response (some (held.1, rpcmsgMsgToId held.1, held.2)),
        by rw [System.perform, returns]; rfl, ⟨head.symm, fun msg id n same => ?_⟩, _, keeps⟩
      cases same
      rw [rpcmsgMsgToId_toNat]
      exact number
  | reclaim held => exact ⟨_, .done, rfl, trivial, _, inv.reclaim disciplined⟩

theorem Conserving.step (conserving : Conserving borrowed s) {op : Operation} {t : System}
    (disciplined : Disciplined s op) (edge : s.step v op = some t) : Conserving borrowed t := by
  obtain ⟨at_, stock, inv⟩ := conserving
  obtain ⟨t', out, returns, _, keeps⟩ := inv.perform (v := v) disciplined
  rw [System.step, returns] at edge
  cases edge
  exact keeps

theorem reachable_conserving (reached : System.Reachable v s) :
    Conserving (fun _ => False) s :=
  reached.invariant conserving_initial fun _ _ _ conserving disciplined edge =>
    conserving.step disciplined edge

/-- How often a message id is queued or in the hands of a party. -/
def occurrences (s : System) (msg : MsgPtr) : Nat :=
  (queuedIds (s.queues .drvrpcReq)).count (rpcmsgMsgToId msg) +
  (queuedIds (s.queues .drvrpcReqDev)).count (rpcmsgMsgToId msg) +
  (queuedIds (s.queues .drvrpcResp)).count (rpcmsgMsgToId msg) +
  ((s.hands .driver).map Prod.fst).count msg +
  ((s.hands (.peer .deviceKm)).map Prod.fst).count msg +
  ((s.hands (.peer .device)).map Prod.fst).count msg

def InOnePlace (s : System) (msg : MsgPtr) : Prop :=
  (s.bufferState.lent msg = false ∧ occurrences s msg = 0) ∨
    (s.bufferState.lent msg = true ∧ occurrences s msg = 1)

theorem Inv.occurrences (inv : Inv borrowed s at_ stock) (msg : MsgPtr) :
    occurrences s msg = if at_ msg = none then 0 else 1 := by
  have queued : ∀ id, (queuedIds (s.queues id)).count (rpcmsgMsgToId msg) =
      if (at_ msg).map Prod.fst = some (.queue id) then 1 else 0 := fun id => by
    rw [queuedIds_of_holding (inv.holding id), List.count_map_of_injective _ _ rpcmsgMsgToId_injective]
    exact inv.occupied.count (.queue id) msg
  have held : ∀ party, ((s.hands party).map Prod.fst).count msg =
      if (at_ msg).map Prod.fst = some (.hand party) then 1 else 0 := fun party => by
    rw [inv.hands]
    exact inv.occupied.count (.hand party) msg
  unfold Rpc.occurrences
  simp only [queued, held]
  cases location : at_ msg with
  | none => simp
  | some found =>
    obtain ⟨p, n⟩ := found
    cases p with
    | queue id => cases id <;> simp
    | hand party =>
      cases party with
      | driver => simp
      | peer peer => cases peer <;> simp

theorem Inv.in_one_place {s : System} (inv : Inv (fun _ => False) s at_ stock) (msg : MsgPtr) :
    InOnePlace s msg := by
  unfold InOnePlace
  have lent := inv.lent msg
  rw [or_false] at lent
  rw [inv.occurrences msg]
  by_cases nowhere : at_ msg = none
  · left
    exact ⟨Bool.eq_false_iff.mpr fun set => lent.mp set nowhere, if_pos nowhere⟩
  · right
    exact ⟨lent.mpr nowhere, if_neg nowhere⟩

/-- In every reachable state each id is in one place, and every disciplined operation
returns what it should: requests, forwards and replies succeed, and a response comes
with the id that its own request returned. -/
theorem buffer_conservation (v : CasVariant) (s : System) (reached : System.Reachable v s) :
    (∀ msg, InOnePlace s msg) ∧
      ∀ op, Disciplined s op → ∃ t out, s.perform v op = .ok (t, out) ∧ Answers s op out := by
  obtain ⟨at_, stock, inv⟩ := reachable_conserving reached
  refine ⟨inv.in_one_place, fun op disciplined => ?_⟩
  obtain ⟨t, out, returns, answers, _⟩ := inv.perform (v := v) disciplined
  exact ⟨t, out, returns, answers⟩

/-- Two requests; the second is answered first, by the kernel module, and its buffer given back. -/
def crossed : List Operation :=
  [.request 1 2 3 4, .request 5 6 7 8, .receive .deviceKm, .forward .deviceKm (0, 0),
    .receive .deviceKm, .reply .deviceKm (1, 1), .receive .device, .reply .device (0, 0),
    .receiveResponse, .reclaim (1, 1)]

theorem crossed_reached :
    (execute (guarded (System.step .user) Disciplined) .initial crossed).map (fun s =>
      (s.hands .driver, s.bufferState.lent 1, s.bufferState.lent 0, queuedIds (s.queues .drvrpcResp))) =
      some ([], false, true, [0#16]) := by decide +kernel

/-- One bit is clear again, and the other message waits in the response queue. -/
theorem buffer_conservation_crossed :
    ∃ s, execute (guarded (System.step .user) Disciplined) .initial crossed = some s ∧
      s.bufferState.lent 1 = false ∧ s.bufferState.lent 0 = true ∧ queuedIds (s.queues .drvrpcResp) = [0#16] ∧
      ∀ msg, InOnePlace s msg := by
  obtain ⟨s, ran, ended⟩ := Option.map_eq_some_iff.mp crossed_reached
  simp only [Prod.mk.injEq] at ended
  obtain ⟨-, first, second, queued⟩ := ended
  exact ⟨s, ran, first, second, queued, (buffer_conservation .user s (.of_execute ran)).1⟩

end Virtioso.Rpc
