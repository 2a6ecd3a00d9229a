import Virtioso.Proxy.InFlight
import Virtioso.Proxy.NativeSlots

/-! Memory faults of the vCPUs.

A vCPU that accesses the memory of a device stops, and its access becomes a request
of the proxy that owns the memory. The callback of the request finishes the fault and
lets the vCPU go on, so each vCPU has one request at a time, whatever the proxies.
-/

set_option autoImplicit false

namespace Virtioso.Proxy

open Foundation Virtioso.Ring Rpc

/-- `SEL4_MMIO_MAX_VCPU`. -/
abbrev sel4MmioMaxVcpu : Nat := 16

/-- What the fault of a vCPU says, with the address and the length the handler is called with. -/
structure VcpuFault where
  read : Bool
  address : BitVec 64
  dataMask : BitVec 64
  data : BitVec 64
  paddr : BitVec 64
  len : BitVec 64
  deriving DecidableEq, Repr

/-- What happens to a vCPU. A fault is handled by the proxy that owns the memory. -/
inductive VcpuEvent (P : Type) where
  | fault (owner : P) (fault : VcpuFault)
  | setFaultData (data : BitVec 64)
  | advanceFault
  deriving DecidableEq, Repr

/-- A vCPU with its last fault. It runs unless it waits for the fault to be advanced. -/
structure Vcpu (P : Type) where
  fault : VcpuFault
  stopped : Bool
  /-- oldest first -/
  trace : List (VcpuEvent P)

variable {P W : Type}

/-- `set_vcpu_fault_data`. -/
def Vcpu.setFaultData (vcpu : Vcpu P) (data : BitVec 64) : Vcpu P :=
  { vcpu with fault := { vcpu.fault with data }, trace := vcpu.trace ++ [.setFaultData data] }

/-- `advance_vcpu_fault`. -/
def Vcpu.advanceFault (vcpu : Vcpu P) : Vcpu P :=
  { vcpu with stopped := false, trace := vcpu.trace ++ [.advanceFault] }

/-- How far the accessed bytes are shifted in the word. -/
def VcpuFault.lane (fault : VcpuFault) : BitVec 64 := (fault.address &&& 3#64) * 8#64

/-- `ioack_vcpu_read`. -/
def ioackVcpuRead (data : BitVec 64) (vcpu : Vcpu P) : Vcpu P :=
  (vcpu.setFaultData (data <<< vcpu.fault.lane)).advanceFault

/-- `ioack_vcpu_write`. -/
def ioackVcpuWrite (vcpu : Vcpu P) : Vcpu P := vcpu.advanceFault

/-- The arguments that `mmio_fault_handler` passes to `ioreq_start`. -/
def VcpuFault.ioreq (fault : VcpuFault) (vcpuId : Fin sel4MmioMaxVcpu) (cookie : Cookie) : IoReq where
  slot := BitVec.ofNat 32 vcpuId.val
  ioackRead := .ioackVcpuRead
  ioackWrite := .ioackVcpuWrite
  cookie
  addrSpace := asGlobal
  direction := if fault.read then sel4IoDirRead else sel4IoDirWrite
  offset := fault.paddr
  size := fault.len
  val := if fault.read then 0#64 else fault.data &&& (fault.dataMask >>> fault.lane)

/-- `memory_fault_result_t`. -/
inductive MemoryFaultResult where
  | faultHandled
  | faultUnhandled
  | faultError
  deriving DecidableEq, Repr

/-- `mmio_fault_handler`. The fault is advanced when the backend has replied. -/
def mmioFaultHandler (v : CasVariant) (proxy : IoProxy W) (vcpuId : Fin sel4MmioMaxVcpu) (cookie : Cookie)
    (fault : VcpuFault) : Except Fault (IoProxy W × MemoryFaultResult) := do
  let (proxy, err) ← ioreqStart v proxy (fault.ioreq vcpuId cookie)
  if err ≠ 0 then return (proxy, .faultError) else return (proxy, .faultHandled)

def IoackCall.resume (cookie : Fin sel4MmioMaxVcpu → Cookie) (vcpus : Fin sel4MmioMaxVcpu → Vcpu P)
    (call : IoackCall) : Fin sel4MmioMaxVcpu → Vcpu P := fun vcpuId =>
  if call.cookie = cookie vcpuId then
    match call.callback with
    | .ioackVcpuRead => ioackVcpuRead call.data (vcpus vcpuId)
    | .ioackVcpuWrite => ioackVcpuWrite (vcpus vcpuId)
    | .ioackNativeRead | .ioackNativeWrite => vcpus vcpuId
  else vcpus vcpuId

structure IoReq.Native (req : IoReq) : Prop where
  slot : sel4MmioNativeBase ≤ req.slot.toNat
  read : req.ioackRead = .ioackNativeRead
  write : req.ioackWrite = .ioackNativeWrite

instance (req : IoReq) : Decidable req.Native :=
  decidable_of_iff (sel4MmioNativeBase ≤ req.slot.toNat ∧ req.ioackRead = .ioackNativeRead ∧
      req.ioackWrite = .ioackNativeWrite)
    ⟨fun ⟨slot, read, write⟩ => ⟨slot, read, write⟩, fun native => ⟨native.slot, native.read, native.write⟩⟩

/-! ### One vCPU -/

/-- A fault that was served, by request `number` of its owner, with the data of the reply. -/
structure Cycle (P : Type) where
  owner : P
  fault : VcpuFault
  number : Nat
  data : BitVec 64

/-- A served read puts the data into the lane of the access, and either kind is advanced once. -/
def Cycle.events (c : Cycle P) : List (VcpuEvent P) :=
  if c.fault.read then [.fault c.owner c.fault, .setFaultData (c.data <<< c.fault.lane), .advanceFault]
  else [.fault c.owner c.fault, .advanceFault]

def numbersOn (starts : List IoReq) (slot : Nat) : List Nat :=
  (List.range starts.length).filter fun n => slotOf starts n = some slot

theorem resume_native {cookies : Fin sel4MmioMaxVcpu → Cookie} {vcpus : Fin sel4MmioMaxVcpu → Vcpu P}
    {vcpuId : Fin sel4MmioMaxVcpu} {call : IoackCall}
    (native : call.callback = .ioackNativeRead ∨ call.callback = .ioackNativeWrite) :
    call.resume cookies vcpus vcpuId = vcpus vcpuId := by
  unfold IoackCall.resume
  rcases native with same | same <;> rw [same] <;> exact ite_self _

section Follows
variable [DecidableEq P]

def numbersAt (owner : P) (places : List (P × Nat)) : List Nat :=
  (places.filter fun place => place.1 = owner).map Prod.snd

/-- The history of a vCPU is a sequence of served faults, and behind them the one it waits for. -/
structure Follows (starts : P → List IoReq) (replies : P → List (Nat × BitVec 64)) (flight : P → Nat → Prop)
    (cookie : Cookie) (vcpuId : Fin sel4MmioMaxVcpu) (vcpu : Vcpu P) (served : List (Cycle P))
    (waiting : Option (P × Nat)) : Prop where
  trace : vcpu.trace =
    served.flatMap Cycle.events ++ (waiting.map fun place => .fault place.1 vcpu.fault).toList
  stopped : vcpu.stopped = waiting.isSome
  /-- a served fault was a request of its own, and the data are those of its reply -/
  answered : ∀ c ∈ served, (starts c.owner)[c.number]? = some (c.fault.ioreq vcpuId cookie) ∧
    (c.number, c.data) ∈ replies c.owner ∧ ¬flight c.owner c.number
  current : ∀ owner n, waiting = some (owner, n) →
    (starts owner)[n]? = some (vcpu.fault.ioreq vcpuId cookie) ∧ flight owner n
  /-- there are no other requests on the slot of the vCPU -/
  numbers : ∀ owner, numbersOn (starts owner) vcpuId.val =
    numbersAt owner (served.map (fun c => (c.owner, c.number)) ++ waiting.toList)

variable {starts starts' : P → List IoReq} {replies replies' : P → List (Nat × BitVec 64)} {flight flight' : P → Nat → Prop}
  {cookie : Cookie} {vcpuId : Fin sel4MmioMaxVcpu} {vcpu : Vcpu P} {served : List (Cycle P)} {waiting : Option (P × Nat)}

theorem numbersOn_append {l : List IoReq} {req : IoReq} {slot : Nat} :
    numbersOn (l ++ [req]) slot = numbersOn l slot ++ if req.slot.toNat = slot then [l.length] else [] := by
  have newest : slotOf (l ++ [req]) l.length = some req.slot.toNat := slotOf_eq (List.getElem?_concat_length ..)
  rw [numbersOn, numbersOn, List.length_append, List.length_singleton, List.range_succ, List.filter_append]
  congr 1
  · apply List.filter_congr
    intro n below
    rw [slotOf_append (List.mem_range.mp below)]
  · simp [List.filter_singleton, newest]

theorem mem_numbersOn {l : List IoReq} {slot n : Nat} : n ∈ numbersOn l slot ↔ slotOf l n = some slot := by
  rw [numbersOn, List.mem_filter, List.mem_range, decide_eq_true_iff]
  refine and_iff_right_of_imp fun on => ?_
  obtain ⟨req, started, _⟩ := Option.map_eq_some_iff.mp on
  exact (List.getElem?_eq_some_iff.mp started).1

theorem VcpuFault.ioreq_slot (fault : VcpuFault) (vcpuId : Fin sel4MmioMaxVcpu) (cookie : Cookie) :
    (fault.ioreq vcpuId cookie).slot.toNat = vcpuId.val :=
  (BitVec.toNat_ofNat ..).trans (Nat.mod_eq_of_lt (Nat.lt_trans vcpuId.isLt (by decide)))

theorem VcpuFault.ioreq_valid {fault : VcpuFault} (size : fault.len.toNat ≤ 8) (vcpuId : Fin sel4MmioMaxVcpu)
    (cookie : Cookie) : (fault.ioreq vcpuId cookie).Valid where
  slot := by
    rw [fault.ioreq_slot]
    exact Nat.lt_trans vcpuId.isLt (by decide)
  direction := by
    cases read : fault.read with
    | true => exact .inl (if_pos read)
    | false => exact .inr (if_neg (Bool.not_eq_true _ ▸ read))
  addrSpace := Nat.le_refl _
  size := size

theorem started_kept {l l' : List IoReq} {n : Nat} {req : IoReq} (kept : l <+: l') (started : l[n]? = some req) :
    l'[n]? = some req := by
  obtain ⟨more, rfl⟩ := kept
  rw [List.getElem?_append_left (List.getElem?_eq_some_iff.mp started).1, started]

theorem Follows.carry (follows : Follows starts replies flight cookie vcpuId vcpu served waiting)
    (kept : ∀ owner, starts owner <+: starts' owner) (more : ∀ owner, replies owner ⊆ replies' owner)
    (fewer : ∀ owner n, n < (starts owner).length → flight' owner n → flight owner n)
    (stays : ∀ owner n, slotOf (starts owner) n = some vcpuId.val → flight owner n → flight' owner n)
    (apart : ∀ owner, numbersOn (starts' owner) vcpuId.val = numbersOn (starts owner) vcpuId.val) :
    Follows starts' replies' flight' cookie vcpuId vcpu served waiting where
  trace := follows.trace
  stopped := follows.stopped
  answered c among := by
    obtain ⟨started, replied, landed⟩ := follows.answered c among
    have below := (List.getElem?_eq_some_iff.mp started).1
    exact ⟨started_kept (kept _) started, more _ replied, fun flies => landed (fewer _ _ below flies)⟩
  current owner n here := by
    obtain ⟨started, flies⟩ := follows.current owner n here
    have on : slotOf (starts owner) n = some vcpuId.val := by rw [slotOf_eq started, VcpuFault.ioreq_slot]
    exact ⟨started_kept (kept _) started, stays _ _ on flies⟩
  numbers owner := (apart owner).trans (follows.numbers owner)

/-- A vCPU that runs has no request in flight, and one that is stopped has one. -/
theorem Follows.outstanding_iff (follows : Follows starts replies flight cookie vcpuId vcpu served waiting)
    (owner : P) (n : Nat) : flight owner n ∧ slotOf (starts owner) n = some vcpuId.val ↔ waiting = some (owner, n) := by
  constructor
  · rintro ⟨flies, on⟩
    have member := mem_numbersOn.mpr on
    rw [follows.numbers, numbersAt, List.filter_append, List.map_append, List.mem_append] at member
    rcases member with old | current
    · obtain ⟨⟨_, _⟩, among, rfl⟩ := List.mem_map.mp old
      obtain ⟨inside, here⟩ := List.mem_filter.mp among
      obtain ⟨c, before, same⟩ := List.mem_map.mp inside
      cases same
      have equal : c.owner = owner := of_decide_eq_true here
      exact absurd (equal ▸ flies) (follows.answered c before).2.2
    · obtain ⟨⟨_, _⟩, among, rfl⟩ := List.mem_map.mp current
      obtain ⟨inside, here⟩ := List.mem_filter.mp among
      have equal := of_decide_eq_true here
      exact equal ▸ Option.mem_toList.mp inside
  · intro here
    obtain ⟨started, flies⟩ := follows.current owner n here
    exact ⟨flies, by rw [slotOf_eq started, VcpuFault.ioreq_slot]⟩

theorem Follows.fault (follows : Follows starts replies flight cookie vcpuId vcpu served none) (owner : P)
    (fault : VcpuFault) (appended : starts' = Function.update starts owner (starts owner ++ [fault.ioreq vcpuId cookie]))
    (new : flight' owner (starts owner).length)
    (fewer : ∀ other n, n < (starts other).length → flight' other n → flight other n) :
    Follows starts' replies flight' cookie vcpuId ⟨fault, true, vcpu.trace ++ [.fault owner fault]⟩ served
      (some (owner, (starts owner).length)) := by
  have kept : ∀ other, starts other <+: starts' other := by
    intro other
    rw [appended]
    by_cases here : other = owner
    · subst here
      rw [Function.update_self]
      exact List.prefix_append _ _
    · rw [Function.update_of_ne here]
  refine ⟨?_, rfl, fun c among => ?_, fun other n here => ?_, fun other => ?_⟩
  · simp [follows.trace]
  · obtain ⟨started, replied, landed⟩ := follows.answered c among
    have below := (List.getElem?_eq_some_iff.mp started).1
    exact ⟨started_kept (kept _) started, replied, fun flies => landed (fewer _ _ below flies)⟩
  · cases here
    rw [appended, Function.update_self]
    exact ⟨List.getElem?_concat_length .., new⟩
  · have before := follows.numbers other
    rw [Option.toList_none, List.append_nil] at before
    rw [appended, numbersAt, List.filter_append, List.map_append]
    by_cases here : other = owner
    · subst here
      rw [Function.update_self, numbersOn_append, if_pos (fault.ioreq_slot ..), before]
      simp [numbersAt]
    · rw [Function.update_of_ne here, before]
      simp [numbersAt, Ne.symm here]

/-- The callback of the request a vCPU waits for finishes its fault. -/
theorem Follows.finish {owner : P} {n : Nat} {data : BitVec 64}
    (follows : Follows starts replies flight cookie vcpuId vcpu served (some (owner, n)))
    (reply : (n, data) ∈ replies owner) (landed : ¬flight' owner n)
    (fewer : ∀ other m, flight' other m → flight other m) :
    Follows starts replies flight' cookie vcpuId
      (if vcpu.fault.read then ioackVcpuRead data vcpu else ioackVcpuWrite vcpu)
      (served ++ [⟨owner, vcpu.fault, n, data⟩]) none := by
  obtain ⟨started, _⟩ := follows.current owner n rfl
  refine ⟨?_, ?_, fun c among => ?_, nofun, fun other => ?_⟩
  · by_cases read : vcpu.fault.read
    · simp [ioackVcpuRead, Vcpu.setFaultData, Vcpu.advanceFault, follows.trace, Cycle.events, read]
    · simp [ioackVcpuWrite, Vcpu.advanceFault, follows.trace, Cycle.events, read]
  · split <;> rfl
  · rcases List.mem_append.mp among with old | last
    · obtain ⟨before, replied, out⟩ := follows.answered c old
      exact ⟨before, replied, fun flies => out (fewer _ _ flies)⟩
    · rw [List.mem_singleton.mp last]
      exact ⟨started, reply, landed⟩
  · rw [follows.numbers]
    simp

theorem VcpuFault.ioreq_callback (fault : VcpuFault) : (fault.ioreq vcpuId cookie).callback =
    if fault.read then .ioackVcpuRead else .ioackVcpuWrite := by
  cases read : fault.read with
  | true => exact if_pos (if_pos read)
  | false => exact if_neg (by simp [VcpuFault.ioreq, read, sel4IoDirRead, sel4IoDirWrite])

section Callbacks
variable {owner : P} {cookies : Fin sel4MmioMaxVcpu → Cookie} {vcpus : Fin sel4MmioMaxVcpu → Vcpu P}

theorem Follows.resume (injective : Function.Injective cookies) {reply : Nat × BitVec 64} {call : IoackCall}
    (kinds : ∀ req ∈ starts owner, req.Native ∨ ∃ id fault, req = VcpuFault.ioreq fault id (cookies id))
    (follows : Follows starts replies flight (cookies vcpuId) vcpuId (vcpus vcpuId) served waiting)
    (invoked : Invoked (starts owner) reply call) (replied : reply ∈ replies owner) (flies : flight owner reply.1)
    (gone : ∀ other n, flight' other n ↔ flight other n ∧ ¬(other = owner ∧ n = reply.1)) :
    ∃ served waiting, Follows starts replies flight' (cookies vcpuId) vcpuId (call.resume cookies vcpus vcpuId) served
      waiting := by
  obtain ⟨n, data⟩ := reply
  obtain ⟨req, started, rfl⟩ := invoked
  have aside (elsewhere : slotOf (starts owner) n ≠ some vcpuId.val) :
      Follows starts replies flight' (cookies vcpuId) vcpuId (vcpus vcpuId) served waiting := by
    refine follows.carry (fun _ => List.prefix_rfl) (fun _ _ member => member) (fun _ _ _ here => ((gone _ _).mp here).1)
      (fun other m on still => (gone _ _).mpr ⟨still, ?_⟩) fun _ => rfl
    rintro ⟨rfl, rfl⟩
    exact elsewhere on
  rcases kinds req (List.mem_of_getElem? started) with native | ⟨id, fault, rfl⟩
  · have callback : req.callback = .ioackNativeRead ∨ req.callback = .ioackNativeWrite := by
      unfold IoReq.callback
      split
      · exact .inl native.read
      · exact .inr native.write
    rw [resume_native callback]
    refine ⟨served, waiting, aside fun on => ?_⟩
    rw [slotOf_eq started, Option.some.injEq] at on
    exact absurd native.slot (on ▸ Nat.not_le_of_lt vcpuId.isLt)
  · by_cases here : id = vcpuId
    · subst here
      -- the request is the one the vCPU waits for
      have on : slotOf (starts owner) n = some id.val := by rw [slotOf_eq started, VcpuFault.ioreq_slot]
      obtain rfl := (follows.outstanding_iff owner n).mp ⟨flies, on⟩
      have same := (follows.current owner n rfl).1
      rw [started, Option.some.injEq] at same
      refine ⟨served ++ [⟨owner, (vcpus id).fault, n, data⟩], none, ?_⟩
      have resumed : IoackCall.resume cookies vcpus ⟨(fault.ioreq id (cookies id)).callback, data,
          (fault.ioreq id (cookies id)).cookie⟩ id = if (vcpus id).fault.read then ioackVcpuRead data (vcpus id)
            else ioackVcpuWrite (vcpus id) := by
        rw [same, VcpuFault.ioreq_callback]
        cases read : (vcpus id).fault.read <;> simp [IoackCall.resume, VcpuFault.ioreq]
      rw [resumed]
      exact follows.finish replied (fun still => ((gone _ _).mp still).2 ⟨rfl, rfl⟩)
        fun other m still => ((gone _ _).mp still).1
    · have unmoved : IoackCall.resume cookies vcpus ⟨(fault.ioreq id (cookies id)).callback, data,
          (fault.ioreq id (cookies id)).cookie⟩ vcpuId = vcpus vcpuId :=
        if_neg fun same => here (injective same)
      rw [unmoved]
      refine ⟨served, waiting, aside fun on => ?_⟩
      rw [slotOf_eq started, VcpuFault.ioreq_slot, Option.some.injEq] at on
      exact here (Fin.ext on)

theorem Follows.resume_all (starts : P → List IoReq) (flight : P → Nat → Prop) (owner : P)
    (injective : Function.Injective cookies)
    (kinds : ∀ req ∈ starts owner, req.Native ∨ ∃ id fault, req = VcpuFault.ioreq fault id (cookies id))
    {pending : List (Nat × BitVec 64)} {calls : List IoackCall}
    (invoked : List.Forall₂ (Invoked (starts owner)) pending calls) (replied : pending ⊆ replies owner)
    (once : (pending.map Prod.fst).Nodup) (flies : ∀ reply ∈ pending, flight owner reply.1)
    (gone : ∀ other n, flight' other n ↔ flight other n ∧ ¬(other = owner ∧ n ∈ pending.map Prod.fst))
    (follows : ∀ id, ∃ served waiting, Follows starts replies flight (cookies id) id (vcpus id) served waiting) (id) :
    ∃ served waiting, Follows starts replies flight' (cookies id) id
      (calls.foldl (IoackCall.resume cookies) vcpus id) served waiting := by
  induction invoked generalizing flight vcpus with
  | nil =>
    have same : flight' = flight := by
      funext other n
      exact propext ((gone other n).trans (and_iff_left (by simp)))
    rw [same]
    exact follows id
  | @cons reply call pending calls first rest ih =>
    rw [List.map_cons, List.nodup_cons] at once
    have resumed (id : Fin sel4MmioMaxVcpu) : ∃ served waiting,
        Follows starts replies (fun other n => flight other n ∧ ¬(other = owner ∧ n = reply.1)) (cookies id) id
          (IoackCall.resume cookies vcpus call id) served waiting := by
      obtain ⟨served, waiting, before⟩ := follows id
      exact before.resume injective kinds first (replied List.mem_cons_self) (flies reply List.mem_cons_self)
        fun _ _ => Iff.rfl
    refine ih _ (fun other member => replied (List.mem_cons_of_mem _ member)) once.2 (fun later member => ?_)
      (fun other n => ?_) resumed
    · refine ⟨flies later (List.mem_cons_of_mem _ member), fun same => once.1 ?_⟩
      rw [← same.2]
      exact List.mem_map_of_mem member
    · rw [gone, List.map_cons, List.mem_cons]
      tauto

end Callbacks

end Follows

end Virtioso.Proxy
