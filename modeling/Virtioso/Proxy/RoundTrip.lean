import Virtioso.Proxy.Slots

/-! Round trips of MMIO requests.

Every message in flight says what its request said until it is answered, and then
carries the data of the answer. Each answer is handed to the callback its request
installed when the responses are run.
-/

set_option autoImplicit false

namespace Virtioso.Proxy

open Foundation Virtioso.Ring Rpc

def Carries (replies : List (Nat × BitVec 64)) (req : IoReq) (n : Nat) (p : Place) (words : Msg) : Prop :=
  match p with
  | .queue .drvrpcResp => ∃ data, (n, data) ∈ replies ∧ words = { req.words with mr2 := data }
  | _ => words = req.words

/-- The reply was handed to the callback of its request, with the request's cookie. -/
def Invoked (starts : List IoReq) (reply : Nat × BitVec 64) (call : IoackCall) : Prop :=
  ∃ req, starts[reply.1]? = some req ∧ call = ⟨req.callback, reply.2, req.cookie⟩

variable {W : Type}

/-- Replies are handled in their order, and those still in the queue are not yet. -/
def Answered (s : Session W) (flight : MsgPtr → Option Nat) : Prop :=
  ∃ handled pending, s.replies = handled ++ pending ∧
    pending.map Prod.fst = s.proxy.rpc.journey .drvrpcResp ∧
    List.Forall₂ (Invoked s.starts) handled s.proxy.calls ∧
    ∀ reply ∈ handled, ∀ msg, flight msg ≠ some reply.1

structure Sound (s : Session W) (at_ : MsgPtr → Option (Place × Nat)) : Prop where
  located : Located (fun _ => False) s.proxy.rpc at_
  rested : s.proxy.rpc.hands .driver = []
  quiet : Holding eventElement s.proxy.deviceEvent []
  armed : s.proxy.doorbell = true
  started : s.starts.length = s.proxy.rpc.issued.length
  valid : ∀ req ∈ s.starts, req.Valid
  slots : Slots s.starts s.proxy.ioacks (number at_)
  words : ∀ msg p n req, at_ msg = some (p, n) → s.starts[n]? = some req →
    Carries s.replies req n p (s.proxy.rpc.buffer msg)
  answered : Answered s (number at_)
  older : ∀ reply ∈ s.replies, reply.1 < s.starts.length
  once : (s.replies.map Prod.fst).Nodup

variable {v : CasVariant} {others : List (RpcCallback W)} {s : Session W}
  {at_ : MsgPtr → Option (Place × Nat)}

theorem sound_initial (outside : W) : Sound (Session.initial outside) fun _ => none where
  located := ⟨fun _ => [], occupied_empty, fun _ => rfl, fun _ => holding_init .., fun _ => rfl,
    fun _ => by simp [Session.initial, System.initial], fun _ no => no.elim, fun _ _ _ found => by cases found⟩
  rested := rfl
  quiet := holding_init ..
  armed := rfl
  started := rfl
  valid _ member := by cases member
  slots := slots_initial
  words _ _ _ _ found := by cases found
  answered := ⟨[], [], rfl, rfl, .nil, fun _ member => by cases member⟩
  older _ member := by cases member
  once := List.nodup_nil

section Facts
variable {replies : List (Nat × BitVec 64)} {req : IoReq} {n : Nat} {p : Place} {words : Msg}

theorem carries_iff (elsewhere : p ≠ .queue .drvrpcResp) : Carries replies req n p words ↔ words = req.words := by
  unfold Carries
  split
  · exact absurd rfl elsewhere
  · rfl

theorem Carries.more (carries : Carries replies req n p words) (reply : Nat × BitVec 64) :
    Carries (replies ++ [reply]) req n p words := by
  by_cases resp : p = .queue .drvrpcResp
  · subst resp
    obtain ⟨data, member, answer⟩ := carries
    exact ⟨data, List.mem_append_left _ member, answer⟩
  · rw [carries_iff resp] at carries ⊢
    exact carries

theorem Sound.request (sound : Sound s at_) {msg : MsgPtr} {p : Place} {n : Nat}
    (here : at_ msg = some (p, n)) : ∃ req, s.starts[n]? = some req ∧ req.Valid := by
  obtain ⟨req, _, started, _⟩ := sound.slots.installed msg n (number_eq here)
  exact ⟨req, started, sound.valid req (List.mem_of_getElem? started)⟩

theorem Sound.mem_journey (sound : Sound s at_) {id : QueueId} {n : Nat}
    (member : n ∈ s.proxy.rpc.journey id) : ∃ msg, at_ msg = some (.queue id, n) := by
  obtain ⟨stock, inv⟩ := sound.located
  rw [inv.journey, List.mem_map] at member
  obtain ⟨held, here, rfl⟩ := member
  exact ⟨held.1, (inv.occupied.located _ _ _).mp here⟩

theorem Sound.mem_hands (sound : Sound s at_) {party : Party} {held : Held}
    (member : held ∈ s.proxy.rpc.hands party) : at_ held.1 = some (.hand party, held.2) := by
  obtain ⟨stock, inv⟩ := sound.located
  rw [inv.hands] at member
  exact (inv.occupied.located _ _ _).mp member

theorem Sound.in_flight (sound : Sound s at_) {msg : MsgPtr} {n : Nat} (flies : number at_ msg = some n) :
    n ∈ inFlight s.proxy.rpc := by
  obtain ⟨stock, inv⟩ := sound.located
  obtain ⟨p, here⟩ := number_iff.mp flies
  have member := (inv.occupied.located _ _ _).mpr here
  unfold inFlight
  simp only [inv.journey, inv.hands, List.mem_append, List.map_append]
  cases p with
  | queue id => cases id <;> simp [List.mem_map_of_mem (f := Prod.snd) member]
  | hand party =>
    cases party with
    | driver => simp [List.mem_map_of_mem (f := Prod.snd) member]
    | peer peer => cases peer <;> simp [List.mem_map_of_mem (f := Prod.snd) member]

/-- What a peer holds says what the request said. -/
theorem Sound.decodes (sound : Sound s at_) {peer : Peer} {held : Held}
    (member : held ∈ s.proxy.rpc.hands (.peer peer)) :
    ∃ req, s.starts[held.2]? = some req ∧ Decodes (s.proxy.rpc.buffer held.1) req := by
  have here := sound.mem_hands member
  obtain ⟨req, started, valid⟩ := sound.request here
  have words : s.proxy.rpc.buffer held.1 = req.words := sound.words _ _ _ req here started
  exact ⟨req, started, words ▸ req.decodes valid⟩

end Facts

section Answers
variable {flight : MsgPtr → Option Nat} {rpc : System} {ioacks : Fin ioacksSize → Ioack}

theorem Invoked.more {starts : List IoReq} {reply : Nat × BitVec 64} {call : IoackCall}
    (invoked : Invoked starts reply call) (req : IoReq) : Invoked (starts ++ [req]) reply call := by
  obtain ⟨asked, started, same⟩ := invoked
  refine ⟨asked, ?_, same⟩
  rw [List.getElem?_append_left (List.getElem?_eq_some_iff.mp started).1, started]

theorem Answered.start (answered : Answered s flight) (older : ∀ reply ∈ s.replies, reply.1 < s.starts.length)
    (journey : rpc.journey .drvrpcResp = s.proxy.rpc.journey .drvrpcResp) (req : IoReq) (lending : MsgPtr) :
    Answered { s with proxy := { s.proxy with ioacks, rpc }, starts := s.starts ++ [req] }
      (Function.update flight lending (some s.starts.length)) := by
  obtain ⟨handled, pending, split, queued, calls, landed⟩ := answered
  refine ⟨handled, pending, split, queued.trans journey.symm, calls.imp fun _ _ invoked => invoked.more req,
    fun reply among other => ?_⟩
  have before : reply.1 < s.starts.length := older reply (split ▸ List.mem_append_left _ among)
  by_cases same : other = lending
  · subst same
    rw [Function.update_self]
    simp only [ne_eq, Option.some.injEq]
    omega
  · rw [Function.update_of_ne same]
    exact landed reply among other

theorem Answered.reply (answered : Answered s flight) {n : Nat}
    (journey : rpc.journey .drvrpcResp = s.proxy.rpc.journey .drvrpcResp ++ [n]) (data : BitVec 64) :
    Answered { s.carry rpc with replies := s.replies ++ [(n, data)] } flight := by
  obtain ⟨handled, pending, split, queued, calls, landed⟩ := answered
  refine ⟨handled, pending ++ [(n, data)], ?_, ?_, calls, landed⟩
  · simp only [split, List.append_assoc]
  · simp [Session.carry, journey, queued]

theorem Answered.finish (answered : Answered s flight) {held : Held} {rest : List Nat} {data : BitVec 64} {req : IoReq}
    (started : s.starts[held.2]? = some req) (answer : (held.2, data) ∈ s.replies)
    (once : (s.replies.map Prod.fst).Nodup) (journey : s.proxy.rpc.journey .drvrpcResp = held.2 :: rest)
    (next : rpc.journey .drvrpcResp = rest) (alone : ∀ msg, flight msg = some held.2 → msg = held.1) :
    Answered { s with proxy := { s.proxy with
        calls := s.proxy.calls ++ [⟨req.callback, data, req.cookie⟩], ioacks, rpc } }
      (Function.update flight held.1 none) := by
  obtain ⟨handled, pending, split, queued, calls, landed⟩ := answered
  rw [journey] at queued
  obtain ⟨reply, later, rfl, first, remaining⟩ := List.map_eq_cons_iff.mp queued
  -- replies with one number are one reply, so this is the one the message carries
  obtain rfl : reply = (held.2, data) :=
    List.inj_on_of_nodup_map once (split ▸ List.mem_append_right _ List.mem_cons_self) answer first
  refine ⟨handled ++ [(held.2, data)], later, by simp only [split, List.append_assoc, List.singleton_append],
    remaining.trans next.symm, List.rel_append calls (.cons ⟨req, started, rfl⟩ .nil), fun reply among msg => ?_⟩
  by_cases same : msg = held.1
  · subst same
    simp
  · rw [Function.update_of_ne same]
    rcases List.mem_append.mp among with old | new
    · exact landed reply old msg
    · rw [List.mem_singleton.mp new]
      exact fun flies => same (alone msg flies)

end Answers

/-- A message moves between places where it is not answered. -/
theorem Sound.move (sound : Sound s at_) {rpc : System} {msg : MsgPtr} {p q : Place} {n : Nat}
    (here : at_ msg = some (p, n)) (before : p ≠ .queue .drvrpcResp) (after : q ≠ .queue .drvrpcResp)
    (located : Located (fun _ => False) rpc (Function.update at_ msg (some (q, n))))
    (buffer : rpc.buffer = s.proxy.rpc.buffer) (issued : rpc.issued = s.proxy.rpc.issued)
    (rested : rpc.hands .driver = s.proxy.rpc.hands .driver)
    (journey : rpc.journey .drvrpcResp = s.proxy.rpc.journey .drvrpcResp) :
    Sound (s.carry rpc) (Function.update at_ msg (some (q, n))) where
  located := located
  rested := rested.trans sound.rested
  quiet := sound.quiet
  armed := sound.armed
  started := sound.started.trans (congrArg List.length issued.symm)
  valid := sound.valid
  slots := by
    rw [number_move here]
    exact sound.slots
  words other r m req found started := by
    simp only [Session.carry, buffer]
    by_cases same : other = msg
    -- outside the response queue a message still has the words of its request
    · subst same
      rw [Function.update_self] at found
      cases found
      exact (carries_iff after).mpr ((carries_iff before).mp (sound.words _ _ _ req here started))
    · rw [Function.update_of_ne same] at found
      exact sound.words _ _ _ req found started
  answered := by
    rw [number_move here]
    obtain ⟨handled, pending, split, queued, calls, landed⟩ := sound.answered
    exact ⟨handled, pending, split, queued.trans journey.symm, calls, landed⟩
  older := sound.older
  once := sound.once

theorem Sound.receive (sound : Sound s at_) (v : CasVariant) (others : List (RpcCallback W))
    (peer : Peer) :
    ∃ t msg, s.perform v others (.receive peer) = .ok (t, .received msg) ∧
      (∀ m, msg = some m → ∃ n, (m, n) ∈ t.proxy.rpc.hands (.peer peer)) ∧ ∃ at', Sound t at' := by
  obtain ⟨stock, inv⟩ := sound.located
  have other : peer.request ≠ .drvrpcResp := by cases peer <;> decide
  rcases inv.receive v peer.request (.peer peer) with
    ⟨_, returns⟩ | ⟨held, rest, queue, oldest, returns, located⟩
  · exact ⟨s, none, by rw [Session.perform, returns]; rfl, fun _ none => (by cases none), at_, sound⟩
  · have here : held ∈ stock (.queue peer.request) := by rw [oldest]; exact List.mem_cons_self
    have number : (s.proxy.rpc.journey peer.request).headD 0 = held.2 := by rw [inv.journey, oldest]; rfl
    refine ⟨s.carry (s.proxy.rpc.take peer.request (.peer peer) queue held.1), some held.1, ?_, ?_, _,
      sound.move ((inv.occupied.located _ _ _).mp here) ?_ ?_ located rfl rfl ?_ ?_⟩
    · rw [Session.perform, returns]
      rfl
    · intro m same
      cases same
      refine ⟨held.2, ?_⟩
      simp only [Session.carry, System.take, number, Function.update_self]
      exact List.mem_append_right _ List.mem_cons_self
    · simpa using other
    · simp
    · simp [System.take]
    · simp [System.take, other.symm]

theorem Sound.forward (sound : Sound s at_) (v : CasVariant) (others : List (RpcCallback W))
    {peer : Peer} {held : Held} (member : held ∈ s.proxy.rpc.hands (.peer peer)) :
    ∃ t, s.perform v others (.forward peer held) = .ok (t, .code 0) ∧ ∃ at', Sound t at' := by
  obtain ⟨stock, inv⟩ := sound.located
  obtain ⟨queue, returns, located⟩ := inv.pass (v := v) member .drvrpcReqDev
  refine ⟨s.carry (s.proxy.rpc.give (.peer peer) held .drvrpcReqDev queue), ?_, _,
    sound.move (sound.mem_hands member) (by simp) (by simp) located rfl rfl ?_ ?_⟩
  · rw [Session.perform, System.forward, rpcmsgForward, returns]
    rfl
  · simp [System.give]
  · simp [System.give]

theorem Sound.unanswered (sound : Sound s at_) {peer : Peer} {held : Held}
    (member : held ∈ s.proxy.rpc.hands (.peer peer)) : held.2 ∉ s.replies.map Prod.fst := by
  have here := sound.mem_hands member
  obtain ⟨handled, pending, split, queued, _, landed⟩ := sound.answered
  rw [split, List.map_append, List.mem_append, queued, not_or]
  constructor
  · intro answered
    obtain ⟨reply, among, same⟩ := List.mem_map.mp answered
    exact landed reply among held.1 (by rw [same, number_eq here])
  · intro waits
    obtain ⟨msg, there⟩ := sound.mem_journey waits
    have same := sound.slots.apart msg held.1 _ _ (number_eq there) (number_eq here) rfl
    subst same
    rw [here] at there
    cases there

theorem Sound.reply (sound : Sound s at_) (v : CasVariant) (others : List (RpcCallback W))
    {peer : Peer} {held : Held} (member : held ∈ s.proxy.rpc.hands (.peer peer)) (data : BitVec 64) (doorbell : Bool) :
    ∃ t code, s.perform v others (.reply peer held data doorbell) = .ok (t, .code code) ∧
      ∃ at', Sound t at' := by
  obtain ⟨stock, inv⟩ := sound.located
  have here := sound.mem_hands member
  have unanswered := sound.unanswered member
  obtain ⟨req, started, _⟩ := sound.request here
  obtain ⟨queue, returns, located⟩ := (inv.write held { s.proxy.rpc.buffer held.1 with mr2 := data }).pass
    (v := v) member .drvrpcResp
  refine ⟨{ s.carry _ with replies := s.replies ++ [(held.2, data)] }, vsoDoorbell doorbell, ?_, _,
    located, ?_, sound.quiet, sound.armed, sound.started, sound.valid, ?_, ?_, ?_, ?_, ?_⟩
  · rw [Session.perform, driverRpcAckMmioFinish, driverRpcReply, System.reply, rpcmsgReply, returns]
    rfl
  · simp [Session.carry, System.write, sound.rested]
  · rw [number_move here]
    exact sound.slots
  · intro msg p n req' found started'
    by_cases same : msg = held.1
    · subst same
      rw [Function.update_self] at found
      cases found
      have words : s.proxy.rpc.buffer held.1 = req'.words := sound.words _ _ _ req' here started'
      -- the answer overwrites the data word only
      refine ⟨data, List.mem_append_right _ List.mem_cons_self, ?_⟩
      simp [Session.carry, System.write, words]
    · rw [Function.update_of_ne same] at found
      have words := (sound.words _ _ _ req' found started').more (held.2, data)
      simpa [Session.carry, System.give, System.write, same] using words
  · rw [number_move here]
    exact sound.answered.reply (by simp [System.write]) data
  · intro reply among
    rcases List.mem_append.mp among with old | new
    · exact sound.older reply old
    · rw [List.mem_singleton.mp new]
      exact (List.getElem?_eq_some_iff.mp started).1
  · rw [List.map_append]
    exact List.nodup_append.mpr ⟨sound.once, List.nodup_singleton _,
      fun n old _ new same => unanswered (by simp_all)⟩

theorem Sound.unused (sound : Sound s at_) {req : IoReq} (valid : req.Valid)
    (free : ¬s.Outstanding req.slot) : Unused s.starts (number at_) ⟨req.slot.toNat, valid.slot⟩ := by
  intro msg n flies on
  obtain ⟨asked, started, same⟩ := Option.map_eq_some_iff.mp on
  refine free ⟨n, sound.in_flight flies, ?_⟩
  rw [started, Option.map_some, BitVec.eq_of_toNat_eq same]

theorem ioreqStart_idle {proxy : IoProxy W} {req : IoReq} (valid : req.Valid)
    (idle : (proxy.ioacks ⟨req.slot.toNat, valid.slot⟩).callback = none) (armed : proxy.doorbell = true) {rpc : System}
    {code : Int} (requested : proxy.rpc.request v req.words.mr0 req.offset req.val 0#64 = .ok (rpc, code))
    (positive : ¬code < 0) :
    ioreqStart v proxy req = .ok ({ proxy with
      ioacks := Function.update proxy.ioacks ⟨req.slot.toNat, valid.slot⟩ req.ioack, rpc }, 0) := by
  rw [ioreqStart, if_neg (not_not.mpr valid.size), dif_pos valid.slot, if_neg (not_not.mpr idle)]
  simp only [driverRpcReqMmioStart, driverRpcRequest]
  simp only [IoReq.words] at requested
  rw [requested]
  simp only [bind, Except.bind, if_neg positive, armed]
  rfl

/-- A request finds its slot idle, a free buffer and room in the queue. -/
theorem Sound.start (sound : Sound s at_) (v : CasVariant) (others : List (RpcCallback W))
    {req : IoReq} (valid : req.Valid)
    (free : ¬s.Outstanding req.slot) :
    ∃ t, s.perform v others (.start req) = .ok (t, .code 0) ∧
      (∀ slot, slot.val ≠ req.slot.toNat → t.proxy.ioacks slot = s.proxy.ioacks slot) ∧ ∃ at', Sound t at' := by
  obtain ⟨stock, inv⟩ := sound.located
  have unused := sound.unused valid free
  have idle := sound.slots.callback_none unused
  obtain ⟨msg, nowhere⟩ := sound.slots.room unused
  have unlent : s.proxy.rpc.bufferState.lent msg = false := by
    rw [← Bool.not_eq_true, inv.lent, or_false, not_not]
    exact Option.map_eq_none_iff.mp nowhere
  obtain ⟨lending, r, zero, code, buffer, returns, located⟩ :=
    inv.request (v := v) unlent req.words.mr0 req.offset req.val 0#64
  have away := (inv.free zero).1
  have start := ioreqStart_idle valid idle sound.armed returns (by omega)
  refine ⟨{ s with
    proxy := { s.proxy with
      ioacks := Function.update s.proxy.ioacks ⟨req.slot.toNat, valid.slot⟩ req.ioack
      rpc := s.proxy.rpc.issue r }
    starts := s.starts ++ [req] }, ?_, fun slot other => ?_, _, located, sound.rested, sound.quiet,
    sound.armed, ?_, fun asked member => ?_, ?_, fun other p n asked found started => ?_, ?_,
    fun reply member => ?_, sound.once⟩
  · rw [Session.perform, start]
    rfl
  · exact Function.update_of_ne (fun same => other (congrArg Fin.val same)) ..
  · simp [System.issue, sound.started]
  · rcases List.mem_append.mp member with old | new
    · exact sound.valid asked old
    · exact List.mem_singleton.mp new ▸ valid
  · rw [number_update, ← sound.started]
    exact sound.slots.start (by rw [number, away]; rfl) unused rfl
  · -- the new message says what was asked, and the others have not changed
    simp only [System.issue, System.store, buffer]
    by_cases same : other = lending
    · subst same
      rw [Function.update_self] at found
      cases found
      rw [← sound.started, List.getElem?_concat_length, Option.some.injEq] at started
      subst started
      exact Function.update_self ..
    · rw [Function.update_of_ne same] at found ⊢
      rw [List.getElem?_append_left (sound.slots.older (number_eq found))] at started
      exact sound.words other p n asked found started
  · rw [number_update, ← sound.started]
    exact sound.answered.start sound.older (by simp [System.issue, System.store]) req lending
  · have older := sound.older reply member
    rw [List.length_append]
    omega

theorem process_answer (others : List (RpcCallback W)) (proxy : IoProxy W) {req : IoReq} (valid : req.Valid)
    {slot : Fin ioacksSize}
    (on : req.slot.toNat = slot.val) (holds : proxy.ioacks slot = req.ioack) (data : BitVec 64) :
    rpcProcess (handleMmio :: others) proxy { req.words with mr2 := data } =
      .ok ({ proxy with
        calls := proxy.calls ++ [⟨req.callback, data, req.cookie⟩]
        ioacks := Function.update proxy.ioacks slot ⟨none, req.cookie⟩ }, 0) := by
  have decodes := req.decodes valid
  have op : (rpcMr0Op.get req.words.mr0).setWidth 32 = qemuOpMmio := by
    rw [decodes.op]
    rfl
  have named : (rpcMr0MmioSlot.get req.words.mr0).setWidth 32 = req.slot := by
    rw [decodes.slot, BitVec.setWidth_setWidth_of_le _ (by decide), BitVec.setWidth_eq]
  have finish : ioreqFinish proxy req.slot data = .ok ({ proxy with
      calls := proxy.calls ++ [⟨req.callback, data, req.cookie⟩]
      ioacks := Function.update proxy.ioacks slot ⟨none, req.cookie⟩ }, 0) := by
    have same : (⟨req.slot.toNat, valid.slot⟩ : Fin ioacksSize) = slot := Fin.ext on
    rw [ioreqFinish, if_neg (not_not.mpr (Nat.le_of_lt valid.slot)), dif_pos valid.slot, same]
    simp only [holds, IoReq.ioack]
    cases req.callback <;> rfl
  simp only [rpcProcess, askCallbacks, handleMmio, op, named, finish]
  rfl

/-- The oldest response is handed to its callback, and its message and slot are free. -/
theorem Sound.respond (sound : Sound s at_) (v : CasVariant) (others : List (RpcCallback W)) :
    (s.proxy.rpc.journey .drvrpcResp = [] ∧ s.proxy.rpc.receiveResponse v = .ok (s.proxy.rpc, none)) ∨
      ∃ rpc resp id proxy slot rest cookie, s.proxy.rpc.journey .drvrpcResp = resp.2 :: rest ∧
        slotOf s.starts resp.2 = some slot.val ∧
        s.proxy.rpc.receiveResponse v = .ok (rpc, some (resp, id)) ∧
        rpcProcess (handleMmio :: others) { s.proxy with rpc } (rpc.buffer resp.1) = .ok (proxy, 0) ∧
        proxy.ioacks = Function.update s.proxy.ioacks slot ⟨none, cookie⟩ ∧
        (proxy.rpc.reclaim resp).journey .drvrpcResp = rest ∧
        ∃ at', Sound { s with proxy := { proxy with rpc := proxy.rpc.reclaim resp } } at' := by
  obtain ⟨stock, inv⟩ := sound.located
  rcases inv.receive_response v with ⟨empty, returns⟩ | ⟨held, rest, queue, oldest, returns, located⟩
  · exact .inl ⟨by rw [inv.journey, empty]; rfl, returns⟩
  right
  have journey : s.proxy.rpc.journey .drvrpcResp = held.2 :: rest.map Prod.snd := by
    rw [inv.journey, oldest]
    rfl
  have here : at_ held.1 = some (.queue .drvrpcResp, held.2) := by
    apply (inv.occupied.located _ _ _).mp
    rw [oldest]
    exact List.mem_cons_self
  obtain ⟨req, slot, started, on, holds⟩ := sound.slots.installed held.1 held.2 (number_eq here)
  have valid := sound.valid req (List.mem_of_getElem? started)
  obtain ⟨data, answer, words⟩ := sound.words _ _ _ req here started
  have taken : (s.proxy.rpc.take .drvrpcResp .driver queue held.1).hands .driver = [held] := by
    simp only [System.take, Function.update_self, sound.rested, journey, List.headD_cons, List.nil_append]
  obtain ⟨_, inv'⟩ := located
  have reclaimed := inv'.reclaim (by rw [taken]; exact List.mem_cons_self)
  rw [Function.update_idem] at reclaimed
  have process := process_answer others { s.proxy with
    rpc := s.proxy.rpc.take .drvrpcResp .driver queue held.1 } valid on holds data
  rw [← words] at process
  refine ⟨_, held, _, _, slot, rest.map Prod.snd, req.cookie, journey, by rw [slotOf_eq started, on],
    returns, process, rfl, by simp [System.reclaim, System.take, journey],
    _, reclaimed, ?_, sound.quiet, sound.armed, sound.started, sound.valid, ?_, ?_, ?_, sound.older,
    sound.once⟩
  · simp only [System.reclaim, Function.update_self, taken, List.erase_cons_head]
  · rw [number_update]
    exact sound.slots.finish (number_eq here) (by rw [slotOf_eq started, on]) req.cookie
  · intro msg p n asked found started'
    by_cases same : msg = held.1
    · subst same
      rw [Function.update_self] at found
      cases found
    · rw [Function.update_of_ne same] at found
      exact sound.words msg p n asked found started'
  · rw [number_update]
    exact sound.answered.finish started answer sound.once journey (by simp [System.reclaim, System.take, journey])
      fun msg flies => sound.slots.apart msg held.1 _ _ flies (number_eq here) rfl

/-- The response loop processes every queued answer, and touches no other slot. -/
theorem Sound.run_responses (sound : Sound s at_) (v : CasVariant) (others : List (RpcCallback W)) {fuel : Nat}
    (enough : (s.proxy.rpc.journey .drvrpcResp).length < fuel) :
    ∃ proxy, runResponses v (handleMmio :: others) fuel s.proxy 0 = .ok (proxy, 0) ∧
      proxy.rpc.journey .drvrpcResp = [] ∧
      (∀ slot : Fin ioacksSize, (∀ n ∈ s.proxy.rpc.journey .drvrpcResp, slotOf s.starts n ≠ some slot.val) →
        proxy.ioacks slot = s.proxy.ioacks slot) ∧
      ∃ at', Sound { s with proxy } at' := by
  induction fuel generalizing s at_ with
  | zero => omega
  | succ fuel ih =>
    rcases sound.respond v others with
      ⟨empty, returns⟩ | ⟨rpc, resp, id, proxy, slot, rest, cookie, queue, on, returns, process, acks, next, at', after⟩
    · refine ⟨s.proxy, ?_, empty, fun _ _ => rfl, at_, sound⟩
      rw [runResponses, returns]
      rfl
    · have shorter : ((proxy.rpc.reclaim resp).journey .drvrpcResp).length < fuel := by
        rw [next]
        rw [queue, List.length_cons] at enough
        omega
      obtain ⟨final, loops, drained, untouched, ending⟩ := ih after shorter
      refine ⟨final, ?_, drained, fun other apart => ?_, ending⟩
      · rw [runResponses, returns]
        simp only [bind, Except.bind, process]
        exact loops
      · -- the first answer is on another slot, and so are the later ones
        rw [queue] at apart
        rw [untouched other fun n later => apart n (List.mem_cons_of_mem _ (next ▸ later)), acks]
        apply Function.update_of_ne
        rintro rfl
        exact apart resp.2 List.mem_cons_self on

theorem no_events {proxy : IoProxy W} (quiet : Holding eventElement proxy.deviceEvent [])
    (callbacks : List (RpcCallback W)) (fuel : Nat) (event : Msg) :
    runEvents v callbacks (fuel + 1) proxy event 0 = .ok (proxy, 0) := by
  have none_left : rpcmsgEventRx v proxy.deviceEvent event = some (proxy.deviceEvent, -1, event) :=
    event_rx_empty quiet event
  unfold runEvents
  rw [none_left]
  rfl

theorem Sound.run (sound : Sound s at_) (v : CasVariant) (others : List (RpcCallback W)) (event : Msg) :
    ∃ t, s.perform v others (.run event) = .ok (t, .code 0) ∧
      List.Forall₂ (Invoked t.starts) t.replies t.proxy.calls ∧
      (∀ slot : Fin ioacksSize, (∀ n ∈ s.proxy.rpc.journey .drvrpcResp, slotOf s.starts n ≠ some slot.val) →
        t.proxy.ioacks slot = s.proxy.ioacks slot) ∧ ∃ at', Sound t at' := by
  have enough : (s.proxy.rpc.journey .drvrpcResp).length < queued (s.proxy.rpc.queues .drvrpcResp) + 1 := by
    obtain ⟨stock, inv⟩ := sound.located
    obtain ⟨taken, represents⟩ := inv.holding .drvrpcResp
    have length := represents.heads
    rw [List.length_map] at length
    rw [inv.journey, List.length_map, ← length]
    exact Nat.lt_succ_self _
  obtain ⟨proxy, loops, drained, untouched, at', after⟩ := sound.run_responses v others enough
  refine ⟨{ s with proxy }, ?_, ?_, untouched, at', after⟩
  · have run : rpcRun v others s.proxy event = .ok (proxy, 0) := by
      unfold rpcRun
      dsimp only
      rw [loops]
      exact no_events after.quiet _ _ event
    rw [Session.perform, run]
    rfl
  · obtain ⟨handled, pending, split, queued, calls, _⟩ := after.answered
    -- the loop has drained the queue, so every reply has reached its callback
    have none_left : pending = [] := by
      rw [drained] at queued
      exact List.map_eq_nil_iff.mp queued
    rw [none_left, List.append_nil] at split
    rw [split]
    exact calls

theorem Sound.perform (sound : Sound s at_) (v : CasVariant) (others : List (RpcCallback W)) {op : SessionOp}
    (regular : Regular s op) :
    ∃ t out, s.perform v others op = .ok (t, out) ∧ ∃ at', Sound t at' := by
  cases op with
  | start req =>
    obtain ⟨t, returns, _, after⟩ := sound.start v others regular.1 regular.2
    exact ⟨t, _, returns, after⟩
  | receive peer =>
    obtain ⟨t, msg, returns, _, after⟩ := sound.receive v others peer
    exact ⟨t, _, returns, after⟩
  | forward peer held =>
    obtain ⟨t, returns, after⟩ := sound.forward v others regular
    exact ⟨t, _, returns, after⟩
  | reply peer held data doorbell =>
    obtain ⟨t, code, returns, after⟩ := sound.reply v others regular data doorbell
    exact ⟨t, _, returns, after⟩
  | run event =>
    obtain ⟨t, returns, _, _, after⟩ := sound.run v others event
    exact ⟨t, _, returns, after⟩

theorem reachable_sound {outside : W} (reached : Session.Reachable v others outside s) :
    ∃ at_, Sound s at_ := by
  refine reached.invariant (P := fun s => ∃ at_, Sound s at_) ⟨_, sound_initial outside⟩ fun s op t before regular edge => ?_
  obtain ⟨at_, sound⟩ := before
  obtain ⟨next, out, returns, after⟩ := sound.perform v others regular
  rw [Session.step, returns] at edge
  cases edge
  exact after

def Delivered (s : Session W) (peer : Peer) (msg : MsgPtr) : Prop :=
  ∃ n req, (msg, n) ∈ s.proxy.rpc.hands (.peer peer) ∧ s.starts[n]? = some req ∧
    s.proxy.rpc.issued[n]? = some (msg.val : Int) ∧ Decodes (s.proxy.rpc.buffer msg) req

theorem Sound.delivered (sound : Sound s at_) {peer : Peer} {held : Held}
    (member : held ∈ s.proxy.rpc.hands (.peer peer)) : Delivered s peer held.1 := by
  obtain ⟨req, started, decodes⟩ := sound.decodes member
  obtain ⟨stock, inv⟩ := sound.located
  exact ⟨held.2, req, member, started, inv.issued _ _ _ (sound.mem_hands member), decodes⟩

/-- A run of the responses hands every reply, in their order, to the callback its own
request installed. At any time a first part of the replies has been handed over, and
no request is replied to twice. -/
theorem mmio_round_trip (v : CasVariant) (others : List (RpcCallback W)) (outside : W) (s : Session W)
    (reached : Session.Reachable v others outside s) :
    (∀ req, Regular s (.start req) → ∃ t, s.perform v others (.start req) = .ok (t, .code 0) ∧
      ∀ slot, slot.val ≠ req.slot.toNat → t.proxy.ioacks slot = s.proxy.ioacks slot) ∧
    (∀ peer, ∃ t out, s.perform v others (.receive peer) = .ok (t, .received out) ∧
      ∀ msg, out = some msg → Delivered t peer msg) ∧
    (∀ peer held, held ∈ s.proxy.rpc.hands (.peer peer) →
      (∃ t, s.perform v others (.forward peer held) = .ok (t, .code 0)) ∧
      ∀ data doorbell, ∃ t code, s.perform v others (.reply peer held data doorbell) = .ok (t, .code code)) ∧
    (∀ event, ∃ t, s.perform v others (.run event) = .ok (t, .code 0) ∧
      List.Forall₂ (Invoked t.starts) t.replies t.proxy.calls ∧
      ∀ slot : Fin ioacksSize, (∀ n ∈ s.proxy.rpc.journey .drvrpcResp, slotOf s.starts n ≠ some slot.val) →
        t.proxy.ioacks slot = s.proxy.ioacks slot) ∧
    (s.replies.map Prod.fst).Nodup ∧
    ∃ handled, handled <+: s.replies ∧ List.Forall₂ (Invoked s.starts) handled s.proxy.calls := by
  obtain ⟨at_, sound⟩ := reachable_sound reached
  refine ⟨fun req regular => ?_, fun peer => ?_, fun peer held member => ⟨?_, fun data doorbell => ?_⟩,
    fun event => ?_, sound.once, ?_⟩
  · obtain ⟨t, returns, untouched, _⟩ := sound.start v others regular.1 regular.2
    exact ⟨t, returns, untouched⟩
  · obtain ⟨t, out, returns, held, at', after⟩ := sound.receive v others peer
    refine ⟨t, out, returns, fun msg same => ?_⟩
    obtain ⟨n, member⟩ := held msg same
    exact after.delivered member
  · obtain ⟨t, returns, _⟩ := sound.forward v others member
    exact ⟨t, returns⟩
  · obtain ⟨t, code, returns, _⟩ := sound.reply v others member data doorbell
    exact ⟨t, code, returns⟩
  · obtain ⟨t, returns, calls, untouched, _⟩ := sound.run v others event
    exact ⟨t, returns, calls, untouched⟩
  · obtain ⟨handled, pending, split, _, calls, _⟩ := sound.answered
    exact ⟨handled, ⟨pending, split.symm⟩, calls⟩

/-- A read of a vCPU and a write of a native thread; the write is answered first. -/
def overtaking : List SessionOp :=
  [.start ⟨3#32, .ioackVcpuRead, .ioackVcpuWrite, 100#64, 255#32, 0#32, 4096#64, 4#64, 0#64⟩,
    .start ⟨20#32, .ioackNativeRead, .ioackNativeWrite, 200#64, 2#32, 1#32, 64#64, 8#64, 5#64⟩,
    .receive .deviceKm, .receive .deviceKm, .forward .deviceKm (0, 0), .reply .deviceKm (1, 1) 7#64 true,
    .receive .device, .reply .device (0, 0) 9#64 true, .run ⟨0#64, 0#64, 0#64, 0#64⟩]

theorem overtaking_reached :
    (execute (guarded (Session.step .user []) Regular) (Session.initial ()) overtaking).map
        (fun s => (s.proxy.calls, s.replies)) =
      some ([⟨.ioackNativeWrite, 7#64, 200#64⟩, ⟨.ioackVcpuRead, 9#64, 100#64⟩], [(1, 7#64), (0, 9#64)]) := by
  decide +kernel

theorem mmio_round_trip_overtaking :
    ∃ s, execute (guarded (Session.step .user []) Regular) (Session.initial ()) overtaking = some s ∧
      s.proxy.calls = [⟨.ioackNativeWrite, 7#64, 200#64⟩, ⟨.ioackVcpuRead, 9#64, 100#64⟩] ∧
      ∃ handled, handled <+: s.replies ∧ List.Forall₂ (Invoked s.starts) handled s.proxy.calls := by
  obtain ⟨s, ran, calls⟩ := Option.map_eq_some_iff.mp overtaking_reached
  exact ⟨s, ran, congrArg Prod.fst calls,
    (mmio_round_trip .user [] () s (.of_execute ran)).2.2.2.2.2⟩

end Virtioso.Proxy
