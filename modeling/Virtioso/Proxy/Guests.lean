import Virtioso.Proxy.VcpuFaults

/-! The vCPUs of a guest and the proxies of its backends.

Any vCPU that runs may fault at any proxy, while native threads start requests of their own
and each backend receives, answers and runs, one whole operation at a time. No vCPU gets the
reply of another, and none is forgotten.
-/

set_option autoImplicit false

namespace Virtioso.Proxy

open Foundation Virtioso.Ring Rpc

variable {P W : Type}

structure Guest (P W : Type) where
  sessions : P → Session W
  vcpus : Fin sel4MmioMaxVcpu → Vcpu P

inductive GuestOp (P : Type) where
  | fault (vcpuId : Fin sel4MmioMaxVcpu) (owner : P) (fault : VcpuFault)
  | session (owner : P) (op : SessionOp)

def Guest.initial (outside : P → W) : Guest P W where
  sessions owner := .initial (outside owner)
  vcpus _ := ⟨⟨false, 0#64, 0#64, 0#64, 0#64, 0#64⟩, false, []⟩

section Machine
variable [DecidableEq P] (v : CasVariant) (others : List (RpcCallback W)) (cookie : Fin sel4MmioMaxVcpu → Cookie)

/-- The callbacks that an operation calls act on the vCPUs of their cookies, in their order. -/
def Guest.step (g : Guest P W) : GuestOp P → Option (Guest P W)
  | .fault vcpuId owner fault =>
      let s := g.sessions owner
      match mmioFaultHandler v s.proxy vcpuId (cookie vcpuId) fault with
      | .error _ => none
      | .ok (proxy, result) =>
          let starts := if result = .faultHandled then s.starts ++ [fault.ioreq vcpuId (cookie vcpuId)] else s.starts
          some {
            sessions := Function.update g.sessions owner { s with proxy, starts }
            vcpus := Function.update g.vcpus vcpuId
              ⟨fault, true, (g.vcpus vcpuId).trace ++ [.fault owner fault]⟩ }
  | .session owner op =>
      ((g.sessions owner).step v others op).map fun t => {
        sessions := Function.update g.sessions owner t
        vcpus := (t.proxy.calls.drop (g.sessions owner).proxy.calls.length).foldl (IoackCall.resume cookie) g.vcpus }

def SessionOp.Native : SessionOp → Prop
  | .start req => req.Native
  | _ => True

instance : (op : SessionOp) → Decidable op.Native
  | .start req => inferInstanceAs (Decidable req.Native)
  | .receive _ | .forward _ _ | .reply _ _ _ _ | .run _ => .isTrue trivial

/-- Only a vCPU that runs faults; the other requests are those of native threads. -/
def Admitted (g : Guest P W) : GuestOp P → Prop
  | .fault vcpuId _ fault => (g.vcpus vcpuId).stopped = false ∧ fault.len.toNat ≤ 8
  | .session owner op => Regular (g.sessions owner) op ∧ op.Native

instance (g : Guest P W) : (op : GuestOp P) → Decidable (Admitted g op)
  | .fault _ _ _ | .session _ _ => inferInstanceAs (Decidable (_ ∧ _))

abbrev Guest.Reachable (outside : P → W) : Guest P W → Prop :=
  Reach (Guest.step v others cookie) Admitted (Guest.initial outside)

end Machine

section Runs
variable [DecidableEq P] {v : CasVariant} {others : List (RpcCallback W)} {cookie : Fin sel4MmioMaxVcpu → Cookie}
  {g g' : Guest P W} {owner : P} {vcpuId : Fin sel4MmioMaxVcpu}

abbrev Tracks (sessions : P → Session W) (cookie : Cookie) (vcpuId : Fin sel4MmioMaxVcpu) (vcpu : Vcpu P)
    (served : List (Cycle P)) (waiting : Option (P × Nat)) : Prop :=
  Follows (fun owner => (sessions owner).starts) (fun owner => (sessions owner).replies)
    (fun owner n => n ∈ inFlight (sessions owner).proxy.rpc) cookie vcpuId vcpu served waiting

structure Guest.Sound (cookie : Fin sel4MmioMaxVcpu → Cookie) (g : Guest P W) : Prop where
  sessions : ∀ owner, ∃ at_, Proxy.Sound (g.sessions owner) at_
  kinds : ∀ owner, ∀ req ∈ (g.sessions owner).starts,
    req.Native ∨ ∃ vcpuId fault, req = VcpuFault.ioreq fault vcpuId (cookie vcpuId)
  tracks : ∀ vcpuId, ∃ served waiting, Tracks g.sessions (cookie vcpuId) vcpuId (g.vcpus vcpuId) served waiting

theorem guest_sound_initial (outside : P → W) : Guest.Sound cookie (Guest.initial outside) where
  sessions owner := ⟨_, sound_initial (outside owner)⟩
  kinds _ _ member := by cases member
  tracks vcpuId := ⟨[], none, rfl, rfl, nofun, nofun, fun _ => rfl⟩

theorem Guest.Sound.regular (sound : g.Sound cookie) (running : (g.vcpus vcpuId).stopped = false) {fault : VcpuFault}
    (size : fault.len.toNat ≤ 8) (owner : P) :
    Regular (g.sessions owner) (.start (fault.ioreq vcpuId (cookie vcpuId))) := by
  obtain ⟨served, waiting, tracks⟩ := sound.tracks vcpuId
  refine ⟨VcpuFault.ioreq_valid size vcpuId _, ?_⟩
  rintro ⟨n, flies, on⟩
  have here : slotOf (g.sessions owner).starts n = some vcpuId.val := by
    obtain ⟨req, started, same⟩ := Option.map_eq_some_iff.mp on
    rw [slotOf_eq started, same, VcpuFault.ioreq_slot]
  have waits := (tracks.outstanding_iff owner n).mp ⟨flies, here⟩
  have stopped := tracks.stopped
  rw [waits, running] at stopped
  cases stopped

theorem of_start {s t : Session W} {req : IoReq} (performed : s.perform v others (.start req) = .ok (t, .code 0)) :
    ∃ proxy, ioreqStart v s.proxy req = .ok (proxy, 0) ∧ t = { s with proxy, starts := s.starts ++ [req] } := by
  obtain ⟨⟨proxy, code⟩, begun, rest⟩ := of_bind_ok performed
  cases rest
  exact ⟨proxy, begun, rfl⟩

theorem Guest.Sound.fault (sound : g.Sound cookie) (running : (g.vcpus vcpuId).stopped = false) {fault : VcpuFault}
    (size : fault.len.toNat ≤ 8) (owner : P) (v : CasVariant) (others : List (RpcCallback W)) :
    ∃ t, mmioFaultHandler v (g.sessions owner).proxy vcpuId (cookie vcpuId) fault = .ok (t.proxy, .faultHandled) ∧
      (g.sessions owner).perform v others (.start (fault.ioreq vcpuId (cookie vcpuId))) = .ok (t, .code 0) ∧
      (∃ at_, Proxy.Sound t at_) ∧
      g.step v others cookie (.fault vcpuId owner fault) = some {
        sessions := Function.update g.sessions owner t
        vcpus := Function.update g.vcpus vcpuId ⟨fault, true, (g.vcpus vcpuId).trace ++ [.fault owner fault]⟩ } := by
  obtain ⟨at_, before⟩ := sound.sessions owner
  have regular := sound.regular running size owner
  obtain ⟨t, performed, _, after⟩ := before.start v others regular.1 regular.2
  obtain ⟨proxy, begun, rfl⟩ := of_start performed
  have handled : mmioFaultHandler v (g.sessions owner).proxy vcpuId (cookie vcpuId) fault =
      .ok (proxy, .faultHandled) := by
    rw [mmioFaultHandler, begun]
    rfl
  refine ⟨_, handled, performed, after, ?_⟩
  rw [Guest.step]
  simp only [handled]
  rfl

theorem update_field {A : Type} (F : Session W → A) (sessions : P → Session W) (owner : P) (t : Session W) :
    (fun other => F (Function.update sessions owner t other)) =
      Function.update (fun other => F (sessions other)) owner (F t) := by
  funext other
  exact Function.apply_update (fun _ => F) sessions owner t other

/-- What one proxy does for others leaves a vCPU alone. -/
theorem Tracks.carry {sessions : P → Session W} {cookie : Cookie} {vcpu : Vcpu P} {served : List (Cycle P)}
    {waiting : Option (P × Nat)} (tracks : Tracks sessions cookie vcpuId vcpu served waiting) {t : Session W}
    (kept : (sessions owner).starts <+: t.starts) (more : (sessions owner).replies ⊆ t.replies)
    (fewer : ∀ n < (sessions owner).starts.length, n ∈ inFlight t.proxy.rpc → n ∈ inFlight (sessions owner).proxy.rpc)
    (stays : ∀ n ∈ inFlight (sessions owner).proxy.rpc, n ∈ inFlight t.proxy.rpc)
    (apart : numbersOn t.starts vcpuId.val = numbersOn (sessions owner).starts vcpuId.val) :
    Tracks (Function.update sessions owner t) cookie vcpuId vcpu served waiting := by
  have away (other : P) (elsewhere : other ≠ owner) : Function.update sessions owner t other = sessions other :=
    Function.update_of_ne elsewhere ..
  have at_ : Function.update sessions owner t owner = t := Function.update_self ..
  apply Follows.carry tracks
  · intro other
    by_cases here : other = owner
    · rw [here, at_]
      exact kept
    · rw [away other here]
  · intro other
    by_cases here : other = owner
    · rw [here, at_]
      exact more
    · rw [away other here]
      exact List.Subset.refl _
  · intro other n below
    by_cases here : other = owner
    · subst here
      rw [at_]
      exact fewer n below
    · rw [away other here]
      exact fun flies => flies
  · intro other n _
    by_cases here : other = owner
    · rw [here, at_]
      exact stays n
    · rw [away other here]
      exact fun flies => flies
  · intro other
    by_cases here : other = owner
    · rw [here, at_]
      exact apart
    · rw [away other here]

theorem Guest.Sound.kinds_more (sound : g.Sound cookie) {t : Session W} {new : List IoReq}
    (starts : t.starts = (g.sessions owner).starts ++ new)
    (each : ∀ req ∈ new, req.Native ∨ ∃ vcpuId fault, req = VcpuFault.ioreq fault vcpuId (cookie vcpuId))
    (other : P) : ∀ req ∈ (Function.update g.sessions owner t other).starts,
      req.Native ∨ ∃ vcpuId fault, req = VcpuFault.ioreq fault vcpuId (cookie vcpuId) := by
  intro req member
  by_cases here : other = owner
  · rw [here, Function.update_self, starts] at member
    exact (List.mem_append.mp member).elim (sound.kinds owner req) (each req)
  · rw [Function.update_of_ne here] at member
    exact sound.kinds other req member

theorem Guest.Sound.sessions_more (sound : g.Sound cookie) {t : Session W} (after : ∃ at_, Proxy.Sound t at_)
    (other : P) : ∃ at_, Proxy.Sound (Function.update g.sessions owner t other) at_ := by
  by_cases here : other = owner
  · rw [here, Function.update_self]
    exact after
  · rw [Function.update_of_ne here]
    exact sound.sessions other

theorem Guest.Sound.step_fault (sound : g.Sound cookie) (running : (g.vcpus vcpuId).stopped = false)
    {fault : VcpuFault} (size : fault.len.toNat ≤ 8)
    (edge : g.step v others cookie (.fault vcpuId owner fault) = some g') : g'.Sound cookie := by
  obtain ⟨t, _, performed, ⟨at', after⟩, stepped⟩ := sound.fault running size owner v others
  rw [edge] at stepped
  cases stepped
  obtain ⟨at_, before⟩ := sound.sessions owner
  have regular := sound.regular running size owner
  obtain ⟨starts, replies, _⟩ := before.requested regular performed
  have flight := before.started_flight regular performed after
  refine ⟨sound.sessions_more ⟨at', after⟩, sound.kinds_more starts fun req member => ?_, fun id => ?_⟩
  · exact .inr ⟨vcpuId, fault, List.mem_singleton.mp member⟩
  obtain ⟨served, waiting, tracks⟩ := sound.tracks id
  by_cases here : id = vcpuId
  · subst here
    have idle : waiting = none := by
      have stopped := tracks.stopped
      rw [running] at stopped
      exact Option.not_isSome_iff_eq_none.mp (Bool.not_eq_true _ ▸ stopped.symm)
    subst idle
    refine ⟨served, some (owner, (g.sessions owner).starts.length), ?_⟩
    unfold Tracks
    rw [update_field Session.replies, replies, Function.update_eq_self]
    dsimp only
    rw [Function.update_self]
    refine Follows.fault tracks owner fault ?_ ?_ fun other n below => ?_
    · rw [update_field Session.starts, starts]
    · rw [Function.update_self]
      exact (flight _).mpr (.inl rfl)
    · by_cases same : other = owner
      · subst same
        rw [Function.update_self, flight]
        exact fun flies => flies.resolve_left (Nat.ne_of_lt below)
      · rw [Function.update_of_ne same]
        exact fun flies => flies
  · dsimp only
    rw [Function.update_of_ne here]
    refine ⟨served, waiting, tracks.carry (starts ▸ List.prefix_append _ _) (replies ▸ List.Subset.refl _)
      (fun n below flies => ((flight n).mp flies).resolve_left (Nat.ne_of_lt below))
      (fun n flies => (flight n).mpr (.inr flies)) ?_⟩
    rw [starts, numbersOn_append, if_neg, List.append_nil]
    rw [VcpuFault.ioreq_slot]
    exact fun same => here (Fin.ext same.symm)

theorem Guest.Sound.step_quiet (sound : g.Sound cookie) {t : Session W} (after : ∃ at_, Proxy.Sound t at_)
    {new : List IoReq} (starts : t.starts = (g.sessions owner).starts ++ new) (native : ∀ req ∈ new, req.Native)
    (more : (g.sessions owner).replies ⊆ t.replies)
    (fewer : ∀ n < (g.sessions owner).starts.length, n ∈ inFlight t.proxy.rpc →
      n ∈ inFlight (g.sessions owner).proxy.rpc)
    (stays : ∀ n ∈ inFlight (g.sessions owner).proxy.rpc, n ∈ inFlight t.proxy.rpc) :
    Guest.Sound cookie ⟨Function.update g.sessions owner t, g.vcpus⟩ := by
  refine ⟨sound.sessions_more after, sound.kinds_more starts fun req member => .inl (native req member), fun id => ?_⟩
  obtain ⟨served, waiting, tracks⟩ := sound.tracks id
  refine ⟨served, waiting, tracks.carry (starts ▸ List.prefix_append _ _) more fewer stays ?_⟩
  rw [starts]
  clear starts fewer stays
  induction new using List.reverseRecOn with
  | nil => rw [List.append_nil]
  | append_singleton new req ih =>
    have behind : sel4MmioNativeBase ≤ req.slot.toNat := (native req (by simp)).slot
    have below : id.val < sel4MmioNativeBase := id.isLt
    rw [← List.append_assoc, numbersOn_append, if_neg (by omega), List.append_nil]
    exact ih fun other member => native other (List.mem_append_left _ member)

theorem Guest.Sound.step_run (sound : g.Sound cookie) (injective : Function.Injective cookie) {event : Msg}
    {t : Session W} {out : Outcome} (performed : (g.sessions owner).perform v others (.run event) = .ok (t, out))
    (after : ∃ at_, Proxy.Sound t at_) : Guest.Sound cookie ⟨Function.update g.sessions owner t,
      (t.proxy.calls.drop (g.sessions owner).proxy.calls.length).foldl (IoackCall.resume cookie) g.vcpus⟩ := by
  obtain ⟨at_, before⟩ := sound.sessions owner
  obtain ⟨starts, replies, pending, new, calls, among, invoked, once, flies, flight⟩ := before.ran_calls performed
  have appended : t.starts = (g.sessions owner).starts ++ [] := starts.trans (List.append_nil _).symm
  refine ⟨sound.sessions_more after, sound.kinds_more appended nofun, fun id => ?_⟩
  rw [calls, List.drop_left]
  unfold Tracks
  dsimp only
  rw [update_field Session.starts, update_field Session.replies, starts, replies, Function.update_eq_self,
    Function.update_eq_self]
  refine Follows.resume_all (fun owner => (g.sessions owner).starts)
    (fun owner n => n ∈ inFlight (g.sessions owner).proxy.rpc) owner injective (sound.kinds owner) invoked among once
    flies (fun other n => ?_) sound.tracks id
  by_cases here : other = owner
  · subst here
    rw [Function.update_self, flight]
    simp
  · rw [Function.update_of_ne here]
    exact (and_iff_left fun ⟨same, _⟩ => here same).symm

theorem Guest.Sound.step (sound : g.Sound cookie) (injective : Function.Injective cookie) {op : GuestOp P}
    (admitted : Admitted g op) (edge : g.step v others cookie op = some g') : g'.Sound cookie := by
  cases op with
  | fault vcpuId owner fault => exact sound.step_fault admitted.1 admitted.2 edge
  | session owner op =>
    obtain ⟨at_, before⟩ := sound.sessions owner
    obtain ⟨t, out, performed, at', after⟩ := before.perform v others admitted.1
    rw [Guest.step, Session.step, performed] at edge
    cases edge
    have passed (pass : Passed (g.sessions owner) t) : Guest.Sound cookie ⟨Function.update g.sessions owner t,
        (t.proxy.calls.drop (g.sessions owner).proxy.calls.length).foldl (IoackCall.resume cookie) g.vcpus⟩ := by
      rw [pass.calls, List.drop_length]
      exact sound.step_quiet ⟨at', after⟩ (pass.starts.trans (List.append_nil _).symm)
        (fun _ member => absurd member List.not_mem_nil) pass.replies
        (fun n _ => (pass.flight n).mp) fun n => (pass.flight n).mpr
    cases op with
    | start req =>
      obtain ⟨starts, replies, calls, _⟩ := before.requested admitted.1 performed
      have flight := before.started_flight admitted.1 performed after
      dsimp only
      rw [calls, List.drop_length]
      exact sound.step_quiet ⟨at', after⟩ starts (fun other member => List.mem_singleton.mp member ▸ admitted.2)
        (replies ▸ List.Subset.refl _)
        (fun n below flies => ((flight n).mp flies).resolve_left (Nat.ne_of_lt below))
        fun n flies => (flight n).mpr (.inr flies)
    | receive peer => exact passed (before.pass_receive performed after)
    | forward peer held => exact passed (before.pass_forward admitted.1 performed after)
    | reply peer held data doorbell => exact passed (before.pass_reply admitted.1 performed after)
    | run event => exact sound.step_run injective performed ⟨at', after⟩

theorem reachable_guest (injective : Function.Injective cookie) {outside : P → W}
    (reached : Guest.Reachable v others cookie outside g) : g.Sound cookie :=
  reached.invariant (guest_sound_initial outside) fun _ _ _ sound admitted edge => sound.step injective admitted edge

/-- After any whole operations of the vCPUs, the native threads and the backends, the history of a
vCPU is a sequence of faults that were each served by one reply and advanced once, and behind them the
fault it waits for, if it is stopped. A vCPU that runs can fault, at any proxy. -/
theorem vcpu_faults_served (v : CasVariant) (others : List (RpcCallback W)) (cookie : Fin sel4MmioMaxVcpu → Cookie)
    (injective : Function.Injective cookie) (outside : P → W) (g : Guest P W)
    (reached : Guest.Reachable v others cookie outside g) (vcpuId : Fin sel4MmioMaxVcpu) :
    (∃ served waiting, Tracks g.sessions (cookie vcpuId) vcpuId (g.vcpus vcpuId) served waiting) ∧
    ((g.vcpus vcpuId).stopped = true ↔
      ∃ owner, (g.sessions owner).Outstanding (BitVec.ofNat 32 vcpuId.val)) ∧
    ((g.vcpus vcpuId).stopped = false → ∀ owner fault, fault.len.toNat ≤ 8 →
      ∃ proxy, mmioFaultHandler v (g.sessions owner).proxy vcpuId (cookie vcpuId) fault =
        .ok (proxy, .faultHandled)) := by
  have sound := reachable_guest injective reached
  refine ⟨sound.tracks vcpuId, ?_, fun running owner fault size => ?_⟩
  · obtain ⟨served, waiting, tracks⟩ := sound.tracks vcpuId
    have below : (BitVec.ofNat 32 vcpuId.val).toNat = vcpuId.val :=
      (BitVec.toNat_ofNat ..).trans (Nat.mod_eq_of_lt (Nat.lt_trans vcpuId.isLt (by decide)))
    rw [tracks.stopped, Option.isSome_iff_exists]
    constructor
    · rintro ⟨⟨owner, n⟩, rfl⟩
      obtain ⟨started, flies⟩ := tracks.current owner n rfl
      refine ⟨owner, n, flies, ?_⟩
      simp only [started]
      rfl
    · rintro ⟨owner, n, flies, on⟩
      obtain ⟨req, started, same⟩ := Option.map_eq_some_iff.mp on
      exact ⟨_, (tracks.outstanding_iff owner n).mp ⟨flies, by rw [slotOf_eq started, same, below]⟩⟩
  · obtain ⟨t, handled, _⟩ := sound.fault running size owner v others
    exact ⟨t.proxy, handled⟩

/-- A read of the two upper bytes of a word at one backend, and a write at another that is answered first. -/
def twoFaults : List (GuestOp Bool) :=
  [.fault 3 false ⟨true, 0x1002#64, 0xffff0000#64, 0#64, 0x1002#64, 2#64⟩,
    .fault 5 true ⟨false, 0x2001#64, 0xff00#64, 0xabcd#64, 0x2001#64, 1#64⟩,
    .session false (.receive .deviceKm), .session true (.receive .deviceKm),
    .session true (.reply .deviceKm (0, 0) 0#64 true), .session true (.run Msg.zero),
    .session false (.reply .deviceKm (0, 0) 0x1234#64 true)]

abbrev twoVcpus (id : Fin sel4MmioMaxVcpu) : Cookie := BitVec.ofNat 64 (64 + id.val)

theorem twoFaults_reached :
    (execute (guarded (Guest.step .user [] twoVcpus) Admitted) (Guest.initial fun _ => ()) twoFaults).map (fun g =>
        ((g.vcpus 3).stopped, (g.vcpus 5).trace, (g.sessions true).starts.map IoReq.val, (g.sessions false).replies)) =
      some (true, [.fault true ⟨false, 0x2001#64, 0xff00#64, 0xabcd#64, 0x2001#64, 1#64⟩, .advanceFault],
        [0xcd#64], [(0, 0x1234#64)]) := by
  decide +kernel

theorem vcpu_faults_served_two : ∃ g : Guest Bool Unit,
    execute (guarded (Guest.step .user [] twoVcpus) Admitted) (Guest.initial fun _ => ()) twoFaults = some g ∧
    (∃ owner, (g.sessions owner).Outstanding 3#32) ∧
    ∃ served waiting, Tracks g.sessions (twoVcpus 5) 5 (g.vcpus 5) served waiting := by
  obtain ⟨g, ran, shape⟩ := Option.map_eq_some_iff.mp twoFaults_reached
  have injective : Function.Injective twoVcpus := by decide
  have reached := Reach.of_execute ran
  have read := vcpu_faults_served .user [] twoVcpus injective (fun _ => ()) g reached 3
  have write := vcpu_faults_served .user [] twoVcpus injective (fun _ => ()) g reached 5
  exact ⟨g, ran, read.2.1.mp (congrArg Prod.fst shape), write.1⟩

end Runs

end Virtioso.Proxy
