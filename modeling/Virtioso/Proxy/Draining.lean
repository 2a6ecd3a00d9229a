import Virtioso.Proxy.Chain
import Virtioso.Proxy.RoundTrip

/-! Every request can be brought to its end.

A request that was started is on its way to a peer, in the hands of one, or answered.
From any state the peers can receive and answer what is on its way, and one run of the
responses then hands over all answers: no state of the proxy is a dead end, and none
keeps a buffer or a slot for good.
-/

set_option autoImplicit false

namespace Virtioso.Proxy

open Foundation Virtioso.Ring Rpc

variable {W : Type} {v : CasVariant} {others : List (RpcCallback W)} {s t : Session W}
  {at_ : MsgPtr → Option (Place × Nat)}

/-- Numbers of the requests that no peer has answered. -/
def upstream (rpc : System) : List Nat :=
  rpc.journey .drvrpcReq ++ rpc.journey .drvrpcReqDev ++
    (rpc.hands (.peer .deviceKm) ++ rpc.hands (.peer .device)).map Prod.snd

def backlog (rpc : System) : Nat :=
  2 * ((rpc.journey .drvrpcReq).length + (rpc.journey .drvrpcReqDev).length) +
    ((rpc.hands (.peer .deviceKm)).length + (rpc.hands (.peer .device)).length)

section Lists
variable {rpc : System} {queue : Queue RingIds} {held : Held} {peer : Peer} {msg : MsgPtr}

theorem upstream_take {n : Nat} {rest : List Nat} (oldest : rpc.journey peer.request = n :: rest) (m : Nat) :
    m ∈ upstream (rpc.take peer.request (.peer peer) queue msg) ↔ m ∈ upstream rpc := by
  cases peer <;> simp only [Peer.request] at oldest <;> simp [upstream, System.take, Peer.request, oldest] <;> grind

theorem backlog_take {n : Nat} {rest : List Nat} (oldest : rpc.journey peer.request = n :: rest) :
    backlog (rpc.take peer.request (.peer peer) queue msg) + 1 = backlog rpc := by
  cases peer <;> simp only [Peer.request] at oldest <;> simp [backlog, System.take, Peer.request, oldest] <;> omega

theorem mem_erase {l : List Held} (here : held ∈ l) (m : Nat) :
    m ∈ l.map Prod.snd ↔ m = held.2 ∨ m ∈ (l.erase held).map Prod.snd := by
  rw [((List.perm_cons_erase here).map Prod.snd).mem_iff, List.map_cons, List.mem_cons]

theorem upstream_give (rpc : System) (queue : Queue RingIds) (id : QueueId) (here : held ∈ rpc.hands (.peer peer))
    (m : Nat) : m ∈ upstream rpc ↔ m = held.2 ∨ m ∈ upstream (rpc.give (.peer peer) held id queue) := by
  have split := mem_erase here m
  cases peer <;> cases id <;> simp [upstream, System.give] at split ⊢ <;> grind

theorem backlog_reply (rpc : System) (queue : Queue RingIds) (here : held ∈ rpc.hands (.peer peer)) :
    backlog (rpc.give (.peer peer) held .drvrpcResp queue) + 1 = backlog rpc := by
  have shorter := List.length_erase_of_mem here
  have some_ := List.length_pos_of_mem here
  cases peer <;> simp [backlog, System.give, shorter] <;> omega

end Lists

/-! ### What the operations do to requests that are not answered -/

theorem Sound.received (sound : Sound s at_) {peer : Peer} {out : Outcome}
    (performed : s.perform v others (.receive peer) = .ok (t, out)) :
    (s.proxy.rpc.journey peer.request = [] ∧ t = s) ∨ ∃ n rest queue msg,
      s.proxy.rpc.journey peer.request = n :: rest ∧
      t = s.carry (s.proxy.rpc.take peer.request (.peer peer) queue msg) := by
  obtain ⟨stock, inv⟩ := sound.located
  rcases inv.receive v peer.request (.peer peer) with ⟨empty, returns⟩ | ⟨held, rest, queue, oldest, returns, _⟩
  · rw [Session.perform, returns] at performed
    cases performed
    exact .inl ⟨by rw [inv.journey, empty]; rfl, rfl⟩
  · rw [Session.perform, returns] at performed
    cases performed
    exact .inr ⟨held.2, rest.map Prod.snd, queue, held.1, by rw [inv.journey, oldest]; rfl, rfl⟩

theorem Sound.forwarded (sound : Sound s at_) {peer : Peer} {held : Held} {out : Outcome}
    (member : held ∈ s.proxy.rpc.hands (.peer peer))
    (performed : s.perform v others (.forward peer held) = .ok (t, out)) :
    ∃ queue, t = s.carry (s.proxy.rpc.give (.peer peer) held .drvrpcReqDev queue) := by
  obtain ⟨stock, inv⟩ := sound.located
  obtain ⟨queue, returns, _⟩ := inv.pass (v := v) member .drvrpcReqDev
  rw [Session.perform, System.forward, rpcmsgForward, returns] at performed
  cases performed
  exact ⟨queue, rfl⟩

theorem Sound.replied (sound : Sound s at_) {peer : Peer} {held : Held} {data : BitVec 64} {doorbell : Bool}
    {out : Outcome} (member : held ∈ s.proxy.rpc.hands (.peer peer))
    (performed : s.perform v others (.reply peer held data doorbell) = .ok (t, out)) :
    ∃ words queue, t = { s.carry ((s.proxy.rpc.write held words).give (.peer peer) held .drvrpcResp queue) with
      replies := s.replies ++ [(held.2, data)] } := by
  obtain ⟨stock, inv⟩ := sound.located
  obtain ⟨queue, returns, _⟩ := (inv.write held { s.proxy.rpc.buffer held.1 with mr2 := data }).pass (v := v) member
    .drvrpcResp
  rw [Session.perform, driverRpcAckMmioFinish, driverRpcReply, System.reply, rpcmsgReply, returns] at performed
  cases performed
  exact ⟨_, queue, rfl⟩

theorem Sound.requested (sound : Sound s at_) {req : IoReq} (regular : Regular s (.start req)) {out : Outcome}
    (performed : s.perform v others (.start req) = .ok (t, out)) :
    t.starts = s.starts ++ [req] ∧ t.replies = s.replies ∧ t.proxy.calls = s.proxy.calls ∧
      t.proxy.rpc.journey .drvrpcResp = s.proxy.rpc.journey .drvrpcResp ∧
      ∀ m, m ∈ upstream t.proxy.rpc ↔ m = s.starts.length ∨ m ∈ upstream s.proxy.rpc := by
  obtain ⟨stock, inv⟩ := sound.located
  have unused := sound.unused regular.1 regular.2
  obtain ⟨msg, nowhere⟩ := sound.slots.room unused
  have unlent : s.proxy.rpc.bufferState.lent msg = false := by
    rw [← Bool.not_eq_true, inv.lent, or_false, not_not]
    exact Option.map_eq_none_iff.mp nowhere
  obtain ⟨lending, r, _, code, _, returns, _⟩ :=
    inv.request (v := v) unlent req.words.mr0 req.offset req.val 0#64
  have start := ioreqStart_idle regular.1 (sound.slots.callback_none unused) sound.armed returns (by omega)
  rw [Session.perform, start] at performed
  cases performed
  refine ⟨rfl, rfl, rfl, by simp [System.issue, System.store], fun m => ?_⟩
  simp only [upstream, System.issue, System.store, Function.update_self, sound.started]
  simp
  grind

/-- A response that is handed over leaves the rpc as it was when it was received, and the VMM alone. -/
theorem Sound.response_rpc (sound : Sound s at_) {rpc : System} {held : Held} {id : BitVec 16} {proxy : IoProxy W}
    {code : Int} (received : s.proxy.rpc.receiveResponse v = .ok (rpc, some (held, id)))
    (processed : rpcProcess (handleMmio :: others) { s.proxy with rpc } (rpc.buffer held.1) = .ok (proxy, code)) :
    proxy.rpc = rpc ∧ proxy.outside = s.proxy.outside ∧ upstream (rpc.reclaim held) = upstream s.proxy.rpc := by
  obtain ⟨stock, inv⟩ := sound.located
  rcases inv.receive_response v with ⟨_, returns⟩ | ⟨oldest, rest, queue, first, returns, _⟩
  · rw [returns] at received
    cases received
  rw [returns] at received
  cases received
  have here : at_ held.1 = some (.queue .drvrpcResp, held.2) := by
    apply (inv.occupied.located _ _ _).mp
    rw [first]
    exact List.mem_cons_self
  obtain ⟨req, slot, started, on, holds⟩ := sound.slots.installed held.1 held.2 (number_eq here)
  obtain ⟨data, _, words⟩ := sound.words _ _ _ req here started
  have process := process_answer others { s.proxy with
    rpc := s.proxy.rpc.take .drvrpcResp .driver queue held.1 } (sound.valid req (List.mem_of_getElem? started)) on holds data
  rw [← words] at process
  cases process.symm.trans processed
  exact ⟨rfl, rfl, by simp [upstream, System.reclaim, System.take]⟩

theorem Sound.responses_upstream (sound : Sound s at_) {fuel : Nat} {proxy : IoProxy W} {code : Int}
    (loops : runResponses v (handleMmio :: others) fuel s.proxy 0 = .ok (proxy, code)) :
    code = 0 ∧ proxy.outside = s.proxy.outside ∧ upstream proxy.rpc = upstream s.proxy.rpc ∧
      ∃ at', Sound { s with proxy } at' := by
  induction fuel generalizing s at_ with
  | zero => cases loops
  | succ fuel ih =>
    rcases sound.respond v others with
      ⟨_, returns⟩ | ⟨rpc, resp, id, next, slot, rest, cookie, _, _, returns, process, _, _, at', after⟩
    · rw [runResponses, returns] at loops
      cases loops
      exact ⟨rfl, rfl, rfl, at_, sound⟩
    · obtain ⟨same, alone, before⟩ := sound.response_rpc returns process
      rw [runResponses, returns] at loops
      simp only [bind, Except.bind, process] at loops
      obtain ⟨zero, outside, rest, ending⟩ := ih after loops
      simp only [same] at rest
      exact ⟨zero, outside.trans alone, rest.trans before, ending⟩

theorem Sound.ran (sound : Sound s at_) {event : Msg} {out : Outcome}
    (performed : s.perform v others (.run event) = .ok (t, out)) :
    t.starts = s.starts ∧ t.replies = s.replies ∧ upstream t.proxy.rpc = upstream s.proxy.rpc := by
  obtain ⟨⟨proxy, code⟩, run, rest⟩ := of_bind_ok performed
  cases rest
  obtain ⟨⟨next, rc⟩, responses, events⟩ := of_bind_ok run
  obtain ⟨rfl, _, kept, at', after⟩ := sound.responses_upstream responses
  cases (no_events after.quiet _ _ event).symm.trans events
  exact ⟨rfl, rfl, kept⟩

def Accounted (s : Session W) : Prop :=
  ∀ n < s.starts.length, n ∈ s.replies.map Prod.fst ∨ n ∈ upstream s.proxy.rpc

theorem Accounted.perform (accounted : Accounted s) (sound : Sound s at_) {op : SessionOp} (regular : Regular s op)
    {out : Outcome} (performed : s.perform v others op = .ok (t, out)) : Accounted t := by
  intro n below
  cases op with
  | start req =>
    obtain ⟨starts, replies, _, _, waits⟩ := sound.requested regular performed
    rw [starts, List.length_append, List.length_singleton] at below
    rw [replies, waits]
    rcases Nat.lt_succ_iff_lt_or_eq.mp below with old | new
    · exact (accounted n old).imp_right .inr
    · exact .inr (.inl new)
  | receive peer =>
    rcases sound.received performed with ⟨_, rfl⟩ | ⟨first, rest, queue, msg, oldest, rfl⟩
    · exact accounted n below
    · exact (accounted n below).imp_right (upstream_take oldest n).mpr
  | forward peer held =>
    obtain ⟨queue, rfl⟩ := sound.forwarded regular performed
    refine (accounted n below).imp_right fun waits => ?_
    rcases (upstream_give s.proxy.rpc queue .drvrpcReqDev regular n).mp waits with rfl | still
    · cases peer <;> simp [Session.carry, upstream, System.give]
    · exact still
  | reply peer held data doorbell =>
    obtain ⟨words, queue, rfl⟩ := sound.replied regular performed
    rcases accounted n below with before | waits
    · exact .inl (by simp at before ⊢; exact .inl before)
    · rcases (upstream_give (s.proxy.rpc.write held words) queue .drvrpcResp regular n).mp waits with rfl | still
      · exact .inl (by simp)
      · exact .inr still
  | run event =>
    obtain ⟨starts, replies, waits⟩ := sound.ran performed
    rw [starts] at below
    rw [replies, waits]
    exact accounted n below

theorem reachable_accounted {outside : W} (reached : Session.Reachable v others outside s) :
    Accounted s ∧ ∃ at_, Sound s at_ := by
  refine reached.invariant (P := fun s => Accounted s ∧ ∃ at_, Sound s at_)
    ⟨fun _ below => absurd below (Nat.not_lt_zero _), _, sound_initial outside⟩ ?_
  rintro s op t ⟨accounted, at_, sound⟩ regular edge
  obtain ⟨next, out, returns, after⟩ := sound.perform v others regular
  rw [Session.step, returns] at edge
  cases edge
  exact ⟨accounted.perform sound regular returns, after⟩

/-! ### Serving what is left -/

def Serves (answer : Nat → BitVec 64) : SessionOp → Prop
  | .receive _ | .run _ => True
  | .reply _ held data _ => data = answer held.2
  | .start _ | .forward _ _ => False

structure Drained (s : Session W) : Prop where
  /-- each request was answered once -/
  answered : (s.replies.map Prod.fst).Perm (List.range s.starts.length)
  /-- and each answer has reached the callback of its own request -/
  invoked : List.Forall₂ (Invoked s.starts) s.replies s.proxy.calls
  landed : inFlight s.proxy.rpc = []
  slots : ∀ slot, (s.proxy.ioacks slot).callback = none
  buffers : ∀ msg, s.proxy.rpc.bufferState.lent msg = false

/-- The session went on without new requests, and the new replies are the given answers. -/
structure Continued (answer : Nat → BitVec 64) (s t : Session W) : Prop where
  starts : t.starts = s.starts
  replies : ∃ more, t.replies = s.replies ++ more ∧ ∀ reply ∈ more, reply.2 = answer reply.1

theorem Continued.trans {answer : Nat → BitVec 64} {s t u : Session W} (first : Continued answer s t)
    (next : Continued answer t u) : Continued answer s u := by
  obtain ⟨more, replies, given⟩ := first.replies
  obtain ⟨later, replies', given'⟩ := next.replies
  refine ⟨next.starts.trans first.starts, more ++ later, by rw [replies', replies, List.append_assoc], ?_⟩
  intro reply member
  exact (List.mem_append.mp member).elim (given reply) (given' reply)

theorem upstream_empty {rpc : System} (none_left : backlog rpc = 0) : upstream rpc = [] := by
  unfold backlog at none_left
  have req : rpc.journey .drvrpcReq = [] := List.length_eq_zero_iff.mp (by omega)
  have dev : rpc.journey .drvrpcReqDev = [] := List.length_eq_zero_iff.mp (by omega)
  have km : rpc.hands (.peer .deviceKm) = [] := List.length_eq_zero_iff.mp (by omega)
  have device : rpc.hands (.peer .device) = [] := List.length_eq_zero_iff.mp (by omega)
  rw [upstream, req, dev, km, device]
  rfl

/-- While there is a backlog, a peer can receive or answer. -/
theorem Sound.serve (sound : Sound s at_) (v : CasVariant) (others : List (RpcCallback W)) (answer : Nat → BitVec 64)
    (left : backlog s.proxy.rpc ≠ 0) : ∃ op t out, Serves answer op ∧ Regular s op ∧
      s.perform v others op = .ok (t, out) ∧ backlog t.proxy.rpc < backlog s.proxy.rpc ∧ Continued answer s t ∧
      ∃ at', Sound t at' := by
  by_cases held : ∃ peer held, held ∈ s.proxy.rpc.hands (.peer peer)
  · obtain ⟨peer, held, member⟩ := held
    obtain ⟨t, code, performed, after⟩ := sound.reply v others member (answer held.2) true
    obtain ⟨words, queue, rfl⟩ := sound.replied member performed
    refine ⟨.reply peer held (answer held.2) true, _, _, rfl, member, performed, ?_, ⟨rfl, _, rfl, by simp⟩, after⟩
    have fewer := backlog_reply (s.proxy.rpc.write held words) queue member
    exact Nat.lt_of_succ_le (Nat.le_of_eq fewer)
  · obtain ⟨peer, n, rest, oldest⟩ : ∃ (peer : Peer) (n : Nat) (rest : List Nat),
        s.proxy.rpc.journey peer.request = n :: rest := by
      by_contra none_
      have rested : ∀ peer, s.proxy.rpc.hands (.peer peer) = [] := fun peer =>
        List.eq_nil_iff_forall_not_mem.mpr fun other member => held ⟨peer, other, member⟩
      have quiet : ∀ peer : Peer, s.proxy.rpc.journey peer.request = [] := fun peer => by
        by_contra some_
        obtain ⟨n, rest, queued⟩ := List.exists_cons_of_ne_nil some_
        exact none_ ⟨peer, n, rest, queued⟩
      have req : s.proxy.rpc.journey .drvrpcReq = [] := quiet .deviceKm
      have dev : s.proxy.rpc.journey .drvrpcReqDev = [] := quiet .device
      exact left (by simp [backlog, rested, req, dev])
    obtain ⟨t, msg, performed, _, after⟩ := sound.receive v others peer
    rcases sound.received performed with ⟨empty, _⟩ | ⟨first, later, queue, taken, queued, rfl⟩
    · rw [oldest] at empty
      cases empty
    · refine ⟨.receive peer, _, _, trivial, trivial, performed, ?_, ⟨rfl, [], by simp [Session.carry], by simp⟩, after⟩
      exact Nat.lt_of_succ_le (Nat.le_of_eq (backlog_take queued))

theorem step_of_perform {op : SessionOp} {out : Outcome} (regular : Regular s op)
    (performed : s.perform v others op = .ok (t, out)) :
    guarded (Session.step v others) Regular s op = some t := by
  rw [guarded, if_pos regular, Session.step, performed]

/-- A run of the responses on a session without a backlog settles it. -/
theorem Sound.settle (sound : Sound s at_) (v : CasVariant) (others : List (RpcCallback W)) (accounted : Accounted s)
    (served : backlog s.proxy.rpc = 0) (event : Msg) : ∃ t out, s.perform v others (.run event) = .ok (t, out) ∧
      t.starts = s.starts ∧ t.replies = s.replies ∧ Drained t := by
  obtain ⟨t, performed, invoked, _, at', after⟩ := sound.run v others event
  obtain ⟨starts, replies, waits⟩ := sound.ran performed
  have gone : upstream t.proxy.rpc = [] := waits.trans (upstream_empty served)
  have quiet : t.proxy.rpc.journey .drvrpcResp = [] := by
    obtain ⟨handled, pending, split, queued, calls, _⟩ := after.answered
    -- as many callbacks were called as there are replies
    have all := invoked.length_eq.trans calls.length_eq.symm
    rw [split, List.length_append] at all
    rw [← queued, List.eq_nil_of_length_eq_zero (by omega : pending.length = 0)]
    rfl
  have landed : inFlight t.proxy.rpc = [] := by
    simp only [upstream, List.append_eq_nil_iff, List.map_eq_nil_iff] at gone
    simp [inFlight, gone, quiet, after.rested]
  have nowhere : ∀ msg, number at' msg = none := fun msg => by
    by_contra flies
    obtain ⟨n, flies⟩ := Option.ne_none_iff_exists'.mp flies
    have member := after.in_flight flies
    rw [landed] at member
    cases member
  refine ⟨t, _, performed, starts, replies, ?_, invoked, landed, fun slot => ?_, fun msg => ?_⟩
  · refine (List.perm_ext_iff_of_nodup after.once List.nodup_range).mpr fun n => ?_
    rw [List.mem_range]
    constructor
    · intro member
      obtain ⟨reply, among, rfl⟩ := List.mem_map.mp member
      exact after.older reply among
    · intro below
      rw [starts] at below
      rw [replies]
      exact (accounted n below).resolve_right (by rw [upstream_empty served]; exact List.not_mem_nil)
  · by_contra set
    obtain ⟨msg, n, flies, _⟩ := after.slots.idle slot set
    rw [nowhere msg] at flies
    cases flies
  · obtain ⟨stock, inv⟩ := after.located
    rw [← Bool.not_eq_true, inv.lent, or_false, not_not]
    exact Option.map_eq_none_iff.mp (nowhere msg)

theorem Sound.drain (v : CasVariant) (others : List (RpcCallback W)) (answer : Nat → BitVec 64) (event : Msg)
    (k : Nat) {s : Session W} {at_ : MsgPtr → Option (Place × Nat)} (sound : Sound s at_) (accounted : Accounted s)
    (left : backlog s.proxy.rpc ≤ k) : ∃ ops t, (∀ op ∈ ops, Serves answer op) ∧
      execute (guarded (Session.step v others) Regular) s ops = some t ∧ Continued answer s t ∧ Drained t := by
  induction k generalizing s at_ with
  | zero =>
    obtain ⟨t, out, performed, starts, replies, settled⟩ := sound.settle v others accounted (Nat.le_zero.mp left) event
    refine ⟨[.run event], t, by simp [Serves], ?_, ⟨starts, [], by simp [replies], by simp⟩, settled⟩
    have regular : Regular s (.run event) := trivial
    rw [execute, step_of_perform regular performed]
    rfl
  | succ k ih =>
    by_cases served : backlog s.proxy.rpc = 0
    · exact ih sound accounted (by omega)
    · obtain ⟨op, next, out, serves, regular, performed, fewer, first, at', after⟩ :=
        sound.serve v others answer served
      obtain ⟨ops, t, all, ran, rest, settled⟩ :=
        ih after (accounted.perform sound regular performed) (by omega)
      refine ⟨op :: ops, t, fun other member => ?_, ?_, first.trans rest, settled⟩
      · rcases List.mem_cons.mp member with rfl | later
        · exact serves
        · exact all other later
      · rw [execute, step_of_perform regular performed]
        exact ran

/-- From every state of a session, whatever the answers are to be, the peers and the frontend
can go on without new requests until every request ever started has been answered once
and has reached its callback, and all slots and buffers are free. -/
theorem sessions_drain (v : CasVariant) (others : List (RpcCallback W)) (outside : W) (s : Session W)
    (reached : Session.Reachable v others outside s) (answer : Nat → BitVec 64) :
    ∃ ops t, (∀ op ∈ ops, Serves answer op) ∧
      execute (guarded (Session.step v others) Regular) s ops = some t ∧ Continued answer s t ∧ Drained t := by
  obtain ⟨accounted, at_, sound⟩ := reachable_accounted reached
  exact sound.drain v others answer Msg.zero _ accounted (Nat.le_refl _)

def halfway : List SessionOp :=
  [.start ⟨3#32, .ioackVcpuRead, .ioackVcpuWrite, 100#64, 255#32, 0#32, 4096#64, 4#64, 0#64⟩, .receive .deviceKm,
    .forward .deviceKm (0, 0),
    .start ⟨20#32, .ioackNativeRead, .ioackNativeWrite, 200#64, 2#32, 1#32, 64#64, 8#64, 5#64⟩]

theorem halfway_reached : (execute (guarded (Session.step .user []) Regular) (Session.initial ()) halfway).map
    (fun s => (s.replies, s.starts.length)) = some ([], 2) := by
  decide +kernel

theorem sessions_drain_halfway : ∃ s t ops,
    execute (guarded (Session.step .user []) Regular) (Session.initial ()) halfway = some s ∧ s.replies = [] ∧
    execute (guarded (Session.step .user []) Regular) s ops = some t ∧ Drained t ∧
    (t.replies.map Prod.fst).Perm [0, 1] ∧ ∀ reply ∈ t.replies, reply.2 = 7#64 := by
  obtain ⟨s, ran, shape⟩ := Option.map_eq_some_iff.mp halfway_reached
  obtain ⟨ops, t, _, served, ⟨starts, more, replies, given⟩, settled⟩ :=
    sessions_drain .user [] () s (.of_execute ran) fun _ => 7#64
  rw [Prod.mk.injEq] at shape
  have all := settled.answered
  rw [starts, shape.2] at all
  rw [shape.1, List.nil_append] at replies
  exact ⟨s, t, ops, ran, shape.1, served, settled, all, replies ▸ given⟩

end Virtioso.Proxy
