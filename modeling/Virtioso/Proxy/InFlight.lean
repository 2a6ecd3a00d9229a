import Virtioso.Proxy.Draining

/-! Requests in flight.

What each operation of a session does to the numbers of the requests that are in flight,
and which callbacks a run of the responses calls.
-/

set_option autoImplicit false

namespace Virtioso.Proxy

open Foundation Virtioso.Ring Rpc

variable {W : Type} {v : CasVariant} {others : List (RpcCallback W)} {s t : Session W} {at_ : MsgPtr → Option (Place × Nat)}

theorem Sound.mem_inFlight (sound : Sound s at_) (n : Nat) :
    n ∈ inFlight s.proxy.rpc ↔ n ∈ upstream s.proxy.rpc ∨ n ∈ s.proxy.rpc.journey .drvrpcResp := by
  simp only [inFlight, upstream, sound.rested, List.mem_append, List.nil_append]
  tauto

theorem Sound.mem_upstream (sound : Sound s at_) {n : Nat} (waits : n ∈ upstream s.proxy.rpc) :
    ∃ msg p, at_ msg = some (p, n) ∧ p ≠ .queue .drvrpcResp := by
  simp only [upstream, List.mem_append, List.map_append, List.mem_map] at waits
  rcases waits with (req | dev) | ⟨held, here, rfl⟩ | ⟨held, here, rfl⟩
  · obtain ⟨msg, there⟩ := sound.mem_journey req
    exact ⟨msg, _, there, by decide⟩
  · obtain ⟨msg, there⟩ := sound.mem_journey dev
    exact ⟨msg, _, there, by decide⟩
  · exact ⟨held.1, _, sound.mem_hands here, by decide⟩
  · exact ⟨held.1, _, sound.mem_hands here, by decide⟩

/-- A request that a peer still has to answer is not in the queue of the responses. -/
theorem Sound.apart (sound : Sound s at_) {n : Nat} (waits : n ∈ upstream s.proxy.rpc) :
    n ∉ s.proxy.rpc.journey .drvrpcResp := by
  intro queued
  obtain ⟨msg, p, here, elsewhere⟩ := sound.mem_upstream waits
  obtain ⟨msg', there⟩ := sound.mem_journey queued
  have same := sound.slots.apart msg msg' n n (number_eq here) (number_eq there) rfl
  subst same
  rw [there] at here
  cases here
  exact elsewhere rfl

theorem Sound.started_flight (sound : Sound s at_) {req : IoReq} (regular : Regular s (.start req)) {out : Outcome}
    (performed : s.perform v others (.start req) = .ok (t, out)) {at' : MsgPtr → Option (Place × Nat)}
    (after : Sound t at') (n : Nat) :
    n ∈ inFlight t.proxy.rpc ↔ n = s.starts.length ∨ n ∈ inFlight s.proxy.rpc := by
  obtain ⟨_, _, _, queued, waits⟩ := sound.requested regular performed
  rw [after.mem_inFlight, sound.mem_inFlight, waits, queued, or_assoc]

structure Passed (s t : Session W) : Prop where
  starts : t.starts = s.starts
  calls : t.proxy.calls = s.proxy.calls
  replies : s.replies ⊆ t.replies
  flight : ∀ n, n ∈ inFlight t.proxy.rpc ↔ n ∈ inFlight s.proxy.rpc

theorem Sound.pass_receive (sound : Sound s at_) {peer : Peer} {out : Outcome}
    (performed : s.perform v others (.receive peer) = .ok (t, out)) {at' : MsgPtr → Option (Place × Nat)}
    (after : Sound t at') : Passed s t := by
  rcases sound.received performed with ⟨_, rfl⟩ | ⟨first, rest, queue, msg, oldest, rfl⟩
  · exact ⟨rfl, rfl, fun _ member => member, fun _ => Iff.rfl⟩
  · refine ⟨rfl, rfl, fun _ member => member, fun n => ?_⟩
    rw [after.mem_inFlight, sound.mem_inFlight]
    have queued : (s.proxy.rpc.take peer.request (.peer peer) queue msg).journey .drvrpcResp =
        s.proxy.rpc.journey .drvrpcResp := by cases peer <;> rfl
    exact or_congr (upstream_take oldest n) (by rw [Session.carry, queued])

theorem Sound.pass_forward (sound : Sound s at_) {peer : Peer} {held : Held} {out : Outcome}
    (member : held ∈ s.proxy.rpc.hands (.peer peer))
    (performed : s.perform v others (.forward peer held) = .ok (t, out)) {at' : MsgPtr → Option (Place × Nat)}
    (after : Sound t at') : Passed s t := by
  obtain ⟨queue, rfl⟩ := sound.forwarded member performed
  refine ⟨rfl, rfl, fun _ member => member, fun n => ?_⟩
  rw [after.mem_inFlight, sound.mem_inFlight]
  have again : held.2 ∈ upstream (s.proxy.rpc.give (.peer peer) held .drvrpcReqDev queue) := by
    cases peer <;> simp [upstream, System.give]
  have split := upstream_give s.proxy.rpc queue .drvrpcReqDev member n
  have queued : (s.proxy.rpc.give (.peer peer) held .drvrpcReqDev queue).journey .drvrpcResp =
      s.proxy.rpc.journey .drvrpcResp := rfl
  simp only [Session.carry, queued, split]
  constructor
  · exact Or.imp_left .inr
  · rintro ((rfl | waits) | waits)
    · exact .inl again
    · exact .inl waits
    · exact .inr waits

theorem Sound.pass_reply (sound : Sound s at_) {peer : Peer} {held : Held} {data : BitVec 64} {doorbell : Bool}
    {out : Outcome} (member : held ∈ s.proxy.rpc.hands (.peer peer))
    (performed : s.perform v others (.reply peer held data doorbell) = .ok (t, out))
    {at' : MsgPtr → Option (Place × Nat)} (after : Sound t at') : Passed s t := by
  obtain ⟨words, queue, rfl⟩ := sound.replied member performed
  refine ⟨rfl, rfl, List.subset_append_left _ _, fun n => ?_⟩
  rw [after.mem_inFlight, sound.mem_inFlight]
  have split := upstream_give (s.proxy.rpc.write held words) queue .drvrpcResp member n
  have queued : ((s.proxy.rpc.write held words).give (.peer peer) held .drvrpcResp queue).journey .drvrpcResp =
      s.proxy.rpc.journey .drvrpcResp ++ [held.2] := by simp [System.give, System.write]
  have same : upstream (s.proxy.rpc.write held words) = upstream s.proxy.rpc := rfl
  rw [same] at split
  simp only [Session.carry, queued, split, List.mem_append, List.mem_singleton]
  tauto

theorem Invoked.determined {starts : List IoReq} : Relator.RightUnique (Invoked starts) := by
  rintro reply call call' ⟨req, started, rfl⟩ ⟨req', started', rfl⟩
  rw [started] at started'
  cases started'
  rfl

/-- A run calls the callbacks of the replies in the queue, in their order, and only these leave it. -/
theorem Sound.ran_calls (sound : Sound s at_) {event : Msg} {out : Outcome}
    (performed : s.perform v others (.run event) = .ok (t, out)) :
    t.starts = s.starts ∧ t.replies = s.replies ∧ ∃ pending new, t.proxy.calls = s.proxy.calls ++ new ∧
      pending ⊆ s.replies ∧ List.Forall₂ (Invoked s.starts) pending new ∧ (pending.map Prod.fst).Nodup ∧
      (∀ reply ∈ pending, reply.1 ∈ inFlight s.proxy.rpc) ∧
      ∀ n, n ∈ inFlight t.proxy.rpc ↔ n ∈ inFlight s.proxy.rpc ∧ n ∉ pending.map Prod.fst := by
  obtain ⟨starts, replies, waits⟩ := sound.ran performed
  obtain ⟨u, again, invoked, _, at', after⟩ := sound.run v others event
  rw [performed] at again
  cases again
  obtain ⟨handled, pending, split, queued, calls, _⟩ := sound.answered
  have drained : t.proxy.rpc.journey .drvrpcResp = [] := by
    obtain ⟨all, none_, split', queued', calls', _⟩ := after.answered
    have equal := invoked.length_eq.trans calls'.length_eq.symm
    rw [split', List.length_append] at equal
    rw [← queued', List.eq_nil_of_length_eq_zero (by omega : none_.length = 0)]
    rfl
  -- the callback of a reply is determined, so the calls before the run are the first ones after it
  rw [starts, replies, split] at invoked
  have first := List.forall₂_take handled.length invoked
  have rest := List.forall₂_drop handled.length invoked
  rw [List.take_left] at first
  rw [List.drop_left] at rest
  have same : t.proxy.calls.take handled.length = s.proxy.calls := Invoked.determined.forall₂ first calls
  have once := sound.once
  rw [split, List.map_append, List.nodup_append] at once
  refine ⟨starts, replies, pending, t.proxy.calls.drop handled.length, ?_, ?_, rest, once.2.1, fun reply among => ?_,
    fun n => ?_⟩
  · rw [← same, List.take_append_drop]
  · rw [split]
    exact List.subset_append_right _ _
  · rw [sound.mem_inFlight, ← queued]
    exact .inr (List.mem_map_of_mem among)
  · rw [after.mem_inFlight, sound.mem_inFlight, drained, waits, queued]
    constructor
    · rintro (still | none_)
      · exact ⟨.inl still, sound.apart still⟩
      · cases none_
    · rintro ⟨still | left, gone⟩
      · exact .inl still
      · exact absurd left gone

end Virtioso.Proxy
