import Virtioso.Proxy.Traces

/-! Handlers that leave the rpc alone, and the loops of `rpc_run` over their messages.

A loop over a queue of messages gives each to `rpc_process` until one fails. With such
handlers the result depends on the messages only, not on the queues they came from.
-/

set_option autoImplicit false

namespace Virtioso.Proxy

open Virtioso.Ring Rpc

variable {W : Type}

def IoProxy.plug (proxy : IoProxy W) (rpc : System) (deviceEvent : Queue EventStore) : IoProxy W :=
  { proxy with rpc, deviceEvent }

def replug {R : Type} (rpc : System) (deviceEvent : Queue EventStore) (result : Except Fault (IoProxy W × R)) :
    Except Fault (IoProxy W × R) :=
  result.map fun returned => (returned.1.plug rpc deviceEvent, returned.2)

/-- The handler neither reads nor writes the rpc and the events of the io_proxy. -/
def Local (callback : RpcCallback W) : Prop :=
  ∀ proxy rpc deviceEvent op msg,
    callback (proxy.plug rpc deviceEvent) op msg = replug rpc deviceEvent (callback proxy op msg)

/-- Messages go to `rpc_process` one after the other until one of them fails. -/
def processUntil (callbacks : List (RpcCallback W)) : IoProxy W → List Msg → Except Fault (IoProxy W × Int)
  | proxy, [] => return (proxy, 0)
  | proxy, msg :: rest => do
      let (proxy, code) ← rpcProcess callbacks proxy msg
      if code ≠ 0 then return (proxy, code) else processUntil callbacks proxy rest

section Handlers
variable {callbacks : List (RpcCallback W)} (local_ : ∀ callback ∈ callbacks, Local callback)
variable (proxy : IoProxy W) (rpc : System) (deviceEvent : Queue EventStore) (op : BitVec 32) (msg : Msg)

theorem handleMmio_local : Local (handleMmio : RpcCallback W) := by
  intro proxy rpc deviceEvent op msg
  unfold handleMmio
  split
  · rfl
  · simp only [ioreqFinish, IoProxy.plug]
    split
    · rfl
    · split
      · cases (proxy.ioacks _).callback <;> rfl
      · rfl

include local_ in
theorem ask_local : askCallbacks (proxy.plug rpc deviceEvent) op msg callbacks =
    replug rpc deviceEvent (askCallbacks proxy op msg callbacks) := by
  induction callbacks generalizing proxy with
  | nil => rfl
  | cons callback rest ih =>
    unfold askCallbacks
    rw [local_ callback List.mem_cons_self]
    cases callback proxy op msg with
    | error fault => rfl
    | ok result =>
      obtain ⟨next, rc⟩ := result
      simp only [replug, Except.map, bind, Except.bind]
      split
      · exact ih (fun other inside => local_ other (List.mem_cons_of_mem _ inside)) next
      · rfl

include local_ in
theorem process_local : rpcProcess callbacks (proxy.plug rpc deviceEvent) msg =
    replug rpc deviceEvent (rpcProcess callbacks proxy msg) := by
  unfold rpcProcess
  rw [ask_local local_]
  cases askCallbacks proxy ((rpcMr0Op.get msg.mr0).setWidth 32) msg callbacks <;> rfl

include local_ in
theorem processUntil_local (msgs : List Msg) : processUntil callbacks (proxy.plug rpc deviceEvent) msgs =
    replug rpc deviceEvent (processUntil callbacks proxy msgs) := by
  induction msgs generalizing proxy with
  | nil => rfl
  | cons msg rest ih =>
    unfold processUntil
    rw [process_local local_]
    cases rpcProcess callbacks proxy msg with
    | error fault => rfl
    | ok result =>
      obtain ⟨next, code⟩ := result
      simp only [replug, Except.map, bind, Except.bind]
      split
      · rfl
      · exact ih next

include local_ in
/-- What `rpc_process` returns has the rpc and the events it was called with. -/
theorem process_keeps {after : IoProxy W} {code : Int} (processed : rpcProcess callbacks proxy msg = .ok (after, code)) :
    after.rpc = proxy.rpc ∧ after.deviceEvent = proxy.deviceEvent := by
  have same := process_local local_ proxy proxy.rpc proxy.deviceEvent msg
  have self : proxy.plug proxy.rpc proxy.deviceEvent = proxy := rfl
  rw [self, processed] at same
  have plugged : after = after.plug proxy.rpc proxy.deviceEvent := congrArg Prod.fst (Except.ok.inj same)
  rw [plugged]
  exact ⟨rfl, rfl⟩

end Handlers

section Queues
variable {v : CasVariant} {s : System} {msg : MsgPtr} {rest : List MsgPtr}

theorem response_oldest (holding : Holding rpcElement (s.queues .drvrpcResp) (msg :: rest)) :
    ∃ queue, s.receiveResponse v = .ok (s.take .drvrpcResp .driver queue msg,
        some ((msg, (s.journey .drvrpcResp).headD 0), rpcmsgMsgToId msg)) ∧
      Holding rpcElement queue rest := by
  obtain ⟨queue, returns, keeps⟩ := rpc_receive (v := v) holding
  refine ⟨queue, ?_, keeps⟩
  simp only [System.receiveResponse, rpcmsgReceiveResponse, returns, bind, Except.bind, pure, Except.pure,
    Option.map_some]

theorem response_none (holding : Holding rpcElement (s.queues .drvrpcResp) []) :
    s.receiveResponse v = .ok (s, none) := by
  simp only [System.receiveResponse, rpcmsgReceiveResponse, rpc_receive_empty holding, bind, Except.bind, pure,
    Except.pure, Option.map_none, Function.update_eq_self]

theorem queued_of_holding {Store Data Result : Type} {F : ElementFns Store Data Result} {q : Queue Store}
    {contents : List Data} (holding : Holding F q contents) : queued q = contents.length := by
  obtain ⟨taken, represents⟩ := holding
  exact represents.heads

end Queues

/-! ### The loops, by the messages in the queues -/

/-- Every message that `rpc_process` got was processed successfully. -/
def Succeeds (trace : List RunEvent) : Prop := ∀ msg code, .processed msg code ∈ trace → code = 0

theorem succeeds_nil : Succeeds [] := fun _ _ inside => absurd inside List.not_mem_nil

theorem succeeds_cons {step : RunEvent} {trace : List RunEvent} :
    Succeeds (step :: trace) ↔ (∀ msg code, step = .processed msg code → code = 0) ∧ Succeeds trace := by
  simp only [Succeeds, List.mem_cons]
  constructor
  · exact fun all => ⟨fun msg code same => all msg code (.inl same.symm), fun msg code inside => all msg code (.inr inside)⟩
  · rintro ⟨first, later⟩ msg code (rfl | inside)
    · exact first msg code rfl
    · exact later msg code inside

theorem succeeds_append {first second : List RunEvent} :
    Succeeds (first ++ second) ↔ Succeeds first ∧ Succeeds second := by
  simp only [Succeeds, List.mem_append, or_imp, forall_and]

/-- A traced loop does what `rpc_process` does with the messages, up to the rpc and the events
that it leaves; `returned` is the code of the loop for the code of the last message. -/
structure Processes (returned : Int → Int) (spec : Except Fault (IoProxy W × Int))
    (run : Except Fault (IoProxy W × Int × List RunEvent)) : Prop where
  stops : ∀ fault, spec = .error fault → run = .error fault
  returns : ∀ after code, spec = .ok (after, code) →
    ∃ rpc deviceEvent trace, run = .ok (after.plug rpc deviceEvent, returned code, trace) ∧
      (code = 0 ↔ Succeeds trace)

section Processes
variable {returned other : Int → Int} {spec : Except Fault (IoProxy W × Int)} {next : IoProxy W} {code : Int}
variable {run : Except Fault (IoProxy W × Int × List RunEvent)} {trace : List RunEvent}

theorem Processes.fault (fault : Fault) :
    Processes returned (.error fault : Except Fault (IoProxy W × Int)) (.error fault) where
  stops _ same := by
    cases same
    rfl
  returns _ _ same := by cases same

theorem Processes.ended (codes : code = 0 ↔ Succeeds trace) (rpc : System) (deviceEvent : Queue EventStore) :
    Processes returned (.ok (next, code)) (.ok (next.plug rpc deviceEvent, returned code, trace)) where
  stops _ same := by cases same
  returns after code same := by
    cases same
    exact ⟨rpc, deviceEvent, trace, rfl, codes⟩

theorem Processes.prepend {rpc : System} {deviceEvent : Queue EventStore}
    (later : Processes returned (replug rpc deviceEvent spec) run) {steps : List RunEvent} (good : Succeeds steps) :
    Processes returned spec (run.map fun result => (result.1, result.2.1, steps ++ result.2.2)) where
  stops fault same := by
    rw [same] at later
    rw [later.stops fault rfl]
    rfl
  returns after code same := by
    rw [same] at later
    obtain ⟨rpc, deviceEvent, trace, ends, codes⟩ := later.returns _ _ rfl
    rw [ends]
    exact ⟨rpc, deviceEvent, _, rfl, codes.trans (succeeds_append.trans (and_iff_right good)).symm⟩

theorem Processes.congr (processes : Processes returned spec run)
    (same : ∀ after code, spec = .ok (after, code) → returned code = other code) : Processes other spec run where
  stops := processes.stops
  returns after code ends := by
    rw [← same after code ends]
    exact processes.returns after code ends

end Processes

section Loops
variable {v : CasVariant} {callbacks : List (RpcCallback W)} (local_ : ∀ callback ∈ callbacks, Local callback)
variable {proxy next : IoProxy W} {fuel : Nat} {msg : MsgPtr} {code : Int}

theorem processUntil_fault {callbacks : List (RpcCallback W)} {msg : Msg} {rest : List Msg} {fault : Fault}
    (processed : rpcProcess callbacks proxy msg = .error fault) :
    processUntil callbacks proxy (msg :: rest) = .error fault := by
  rw [processUntil, processed]
  rfl

theorem processUntil_failed {callbacks : List (RpcCallback W)} {msg : Msg} {rest : List Msg}
    (processed : rpcProcess callbacks proxy msg = .ok (next, code)) (failed : code ≠ 0) :
    processUntil callbacks proxy (msg :: rest) = .ok (next, code) := by
  rw [processUntil, processed]
  exact if_pos failed

theorem processUntil_next {callbacks : List (RpcCallback W)} {msg : Msg} {rest : List Msg}
    (processed : rpcProcess callbacks proxy msg = .ok (next, 0)) :
    processUntil callbacks proxy (msg :: rest) = processUntil callbacks next rest := by
  rw [processUntil, processed]
  rfl

include local_ in
theorem traceResponses_oldest (fuel : Nat) {rest : List MsgPtr}
    (holding : Holding rpcElement (proxy.rpc.queues .drvrpcResp) (msg :: rest)) :
    ∃ taken resp, resp.1 = msg ∧ taken.buffer = proxy.rpc.buffer ∧
      Holding rpcElement ((taken.reclaim resp).queues .drvrpcResp) rest ∧
      traceResponses v callbacks (fuel + 1) proxy 0 =
        match rpcProcess callbacks proxy (proxy.rpc.buffer msg) with
        | .error fault => .error fault
        | .ok (next, code) =>
            if code ≠ 0 then .ok (next.plug taken proxy.deviceEvent, code,
              [.dequeued msg, .processed (proxy.rpc.buffer msg) code])
            else (traceResponses v callbacks fuel (next.plug (taken.reclaim resp) proxy.deviceEvent) 0).map
              fun result => (result.1, result.2.1,
                .dequeued msg :: .processed (proxy.rpc.buffer msg) 0 :: .reclaimed msg :: result.2.2) := by
  obtain ⟨queue, received, keeps⟩ := response_oldest (v := v) holding
  refine ⟨proxy.rpc.take .drvrpcResp .driver queue msg, (msg, (proxy.rpc.journey .drvrpcResp).headD 0), rfl, rfl,
    ?_, ?_⟩
  · simpa [System.reclaim, System.take] using keeps
  · rw [traceResponses, received]
    simp only [bind, Except.bind]
    -- processing sees the words of the message, and not the queues beside it
    have plugged : { proxy with rpc := proxy.rpc.take .drvrpcResp .driver queue msg } =
        proxy.plug (proxy.rpc.take .drvrpcResp .driver queue msg) proxy.deviceEvent := rfl
    have words : (proxy.rpc.take .drvrpcResp .driver queue msg).buffer = proxy.rpc.buffer := rfl
    rw [plugged, words, process_local local_]
    cases rpcProcess callbacks proxy (proxy.rpc.buffer msg) with
    | error fault => rfl
    | ok result =>
      obtain ⟨next, code⟩ := result
      simp only [replug, Except.map]
      split
      · rfl
      · next succeeds =>
        rw [not_not] at succeeds
        subst succeeds
        rfl

include local_ in
theorem traceResponses_processes {contents : List MsgPtr}
    (holding : Holding rpcElement (proxy.rpc.queues .drvrpcResp) contents) (enough : contents.length < fuel) :
    Processes id (processUntil callbacks proxy (contents.map proxy.rpc.buffer))
      (traceResponses v callbacks fuel proxy 0) := by
  induction contents generalizing proxy fuel with
  | nil =>
    obtain ⟨fuel, rfl⟩ := Nat.exists_eq_succ_of_ne_zero (Nat.ne_of_gt enough)
    rw [traceResponses, response_none holding]
    exact .ended (by simp [succeeds_nil]) proxy.rpc proxy.deviceEvent
  | cons msg rest ih =>
    obtain ⟨fuel, rfl⟩ := Nat.exists_eq_succ_of_ne_zero (Nat.ne_of_gt (Nat.lt_of_le_of_lt (Nat.zero_le _) enough))
    obtain ⟨taken, resp, _, words, keeps, run⟩ := traceResponses_oldest (v := v) local_ fuel holding
    rw [List.map_cons, run]
    cases processed : rpcProcess callbacks proxy (proxy.rpc.buffer msg) with
    | error fault =>
      rw [processUntil_fault processed]
      exact .fault fault
    | ok result =>
      obtain ⟨next, code⟩ := result
      simp only
      split
      · next failed =>
        rw [processUntil_failed processed failed]
        exact .ended (by simp [succeeds_cons, succeeds_nil]) taken proxy.deviceEvent
      · next succeeds =>
        rw [not_not] at succeeds
        subst succeeds
        rw [processUntil_next processed]
        have later : Processes id
            (processUntil callbacks (next.plug (taken.reclaim resp) proxy.deviceEvent)
              (rest.map (taken.reclaim resp).buffer))
            (traceResponses v callbacks fuel (next.plug (taken.reclaim resp) proxy.deviceEvent) 0) :=
          ih keeps (Nat.lt_of_succ_lt_succ enough)
        -- the responses behind this one still have their words, and no handler sees the queue
        have buffers : (taken.reclaim resp).buffer = proxy.rpc.buffer := words
        rw [buffers, processUntil_local local_] at later
        have good : Succeeds [.dequeued msg, .processed (proxy.rpc.buffer msg) 0, .reclaimed msg] := by
          simp [succeeds_cons, succeeds_nil]
        exact later.prepend good

include local_ in
theorem traceEvents_oldest (fuel : Nat) {msg : Msg} {rest : List Msg}
    (holding : Holding eventElement proxy.deviceEvent (msg :: rest)) (event : Msg) (rc : Int) :
    ∃ queue, Holding eventElement queue rest ∧
      traceEvents v callbacks (fuel + 1) proxy event rc =
        match rpcProcess callbacks proxy msg with
        | .error fault => .error fault
        | .ok (next, code) =>
            if code ≠ 0 then .ok (next.plug proxy.rpc queue, code, [.processed msg code])
            else (traceEvents v callbacks fuel (next.plug proxy.rpc queue) msg 0).map
              fun result => (result.1, result.2.1, .processed msg 0 :: result.2.2) := by
  obtain ⟨queue, received, keeps⟩ := event_rx (v := v) holding event
  have plugged : { proxy with deviceEvent := queue } = proxy.plug proxy.rpc queue := rfl
  refine ⟨queue, keeps, ?_⟩
  -- one round of the loop, in which the event has been delivered
  conv_lhs => unfold traceEvents
  rw [received]
  simp only [ne_eq, not_true_eq_false, if_false, bind, Except.bind]
  rw [plugged, process_local local_]
  cases rpcProcess callbacks proxy msg with
  | error fault => rfl
  | ok result =>
    obtain ⟨next, code⟩ := result
    simp only [replug, Except.map]
    split
    · rfl
    · next succeeds =>
      rw [not_not] at succeeds
      subst succeeds
      rfl

include local_ in
theorem traceEvents_processes {contents : List Msg} (holding : Holding eventElement proxy.deviceEvent contents)
    (enough : contents.length < fuel) (event : Msg) (rc : Int) :
    Processes (fun code => if contents = [] then rc else code) (processUntil callbacks proxy contents)
      (traceEvents v callbacks fuel proxy event rc) := by
  induction contents generalizing proxy fuel event rc with
  | nil =>
    obtain ⟨fuel, rfl⟩ := Nat.exists_eq_succ_of_ne_zero (Nat.ne_of_gt enough)
    unfold traceEvents
    rw [event_rx_empty holding event]
    exact .ended (by simp [succeeds_nil]) proxy.rpc proxy.deviceEvent
  | cons msg rest ih =>
    obtain ⟨fuel, rfl⟩ := Nat.exists_eq_succ_of_ne_zero (Nat.ne_of_gt (Nat.lt_of_le_of_lt (Nat.zero_le _) enough))
    obtain ⟨queue, keeps, run⟩ := traceEvents_oldest (v := v) local_ fuel holding event rc
    have last : (fun code => if msg :: rest = [] then rc else code) = id := by
      funext code
      exact if_neg (List.cons_ne_nil msg rest)
    rw [run, last]
    cases processed : rpcProcess callbacks proxy msg with
    | error fault =>
      rw [processUntil_fault processed]
      exact .fault fault
    | ok result =>
      obtain ⟨next, code⟩ := result
      simp only
      split
      · next failed =>
        rw [processUntil_failed processed failed]
        exact .ended (by simp [succeeds_cons, succeeds_nil]) proxy.rpc queue
      · next succeeds =>
        rw [not_not] at succeeds
        subst succeeds
        rw [processUntil_next processed]
        have later : Processes (fun code => if rest = [] then 0 else code)
            (processUntil callbacks (next.plug proxy.rpc queue) rest)
            (traceEvents v callbacks fuel (next.plug proxy.rpc queue) msg 0) :=
          ih keeps (Nat.lt_of_succ_lt_succ enough) msg 0
        rw [processUntil_local local_] at later
        have good : Succeeds [.processed msg 0] := by simp [succeeds_cons, succeeds_nil]
        refine (later.prepend good).congr fun after code returns => ?_
        -- without a later event the code stays 0
        split
        · next none_left =>
          subst none_left
          cases returns
          rfl
        · rfl

end Loops

/-! ### What a loop leaves of the buffer state -/

structure Responded (proxy after : IoProxy W) (rc : Int) (trace : List RunEvent) : Prop where
  deviceEvent : after.deviceEvent = proxy.deviceEvent
  lent : ∀ msg, after.rpc.bufferState.lent msg =
    (proxy.rpc.bufferState.lent msg && !decide (.reclaimed msg ∈ trace))
  balanced : rc = 0 ↔ ∀ msg, trace.count (.dequeued msg) = trace.count (.reclaimed msg)

section Leaves
variable {v : CasVariant} {callbacks : List (RpcCallback W)} (local_ : ∀ callback ∈ callbacks, Local callback)
variable {proxy after : IoProxy W} {fuel : Nat} {rc : Int} {trace : List RunEvent}

theorem receiveResponse_keeps {s rpc : System} {answer : Option (Held × BitVec 16)}
    (received : s.receiveResponse v = .ok (rpc, answer)) : rpc.bufferState = s.bufferState := by
  unfold System.receiveResponse at received
  cases dequeued : rpcmsgReceiveResponse v (s.queues .drvrpcResp) with
  | error fault =>
    rw [dequeued] at received
    cases received
  | ok result =>
    obtain ⟨queue, answered⟩ := result
    rw [dequeued] at received
    cases answered <;> cases received <;> rfl

include local_ in
theorem Responds.leaves (responds : Responds v callbacks proxy after rc trace) : Responded proxy after rc trace := by
  induction responds with
  | empty received => exact ⟨rfl, fun msg => by simp [receiveResponse_keeps received], by simp⟩
  | @failed _ next _ resp _ code received processed failed =>
    -- the loop ends with this response dequeued and still lent
    obtain ⟨sameRpc, sameEvents⟩ := process_keeps local_ _ _ processed
    refine ⟨sameEvents, fun msg => by simp [sameRpc, receiveResponse_keeps received], ?_⟩
    refine iff_of_false failed fun balanced => ?_
    have one := balanced resp.1
    simp at one
  | @next _ next _ _ resp _ _ _ received processed _ ih =>
    obtain ⟨sameRpc, sameEvents⟩ := process_keeps local_ _ _ processed
    refine ⟨ih.deviceEvent.trans sameEvents, fun msg => ?_, ih.balanced.trans (forall_congr' fun msg => ?_)⟩
    · rw [ih.lent, System.reclaim, lent_reclaim, sameRpc, receiveResponse_keeps received]
      by_cases here : msg = resp.1
      · subst here
        simp
      · simp [here]
    · by_cases here : resp.1 = msg
      · subst here
        simp
      · simp [here]

include local_ in
theorem Handles.leaves {event : Msg} {start : Int} (handles : Handles v callbacks proxy event start after rc trace) :
    after.rpc = proxy.rpc ∧ ∀ msg, .dequeued msg ∉ trace ∧ .reclaimed msg ∉ trace := by
  induction handles with
  | empty _ _ => exact ⟨rfl, by simp⟩
  | failed _ processed _ => exact ⟨(process_keeps local_ _ _ processed).1, by simp⟩
  | next _ processed _ ih =>
    obtain ⟨kept, silent⟩ := ih
    exact ⟨kept.trans (process_keeps local_ _ _ processed).1, by simpa using silent⟩

end Leaves

end Virtioso.Proxy
