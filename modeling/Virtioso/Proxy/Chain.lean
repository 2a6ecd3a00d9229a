import Virtioso.Proxy.Dispatch

/-! The chain of handlers that `rpc_process` asks.

A handler that passes a message on leaves it to the rest; one that answers ends the
chain. What all handlers keep, the chain keeps.
-/

set_option autoImplicit false

namespace Virtioso.Proxy

open Irq (Rc)

/-- A sequence that returns, part by part. -/
theorem of_bind_ok {A B : Type} {first : Except Rpc.Fault A} {next : A → Except Rpc.Fault B} {result : B}
    (returns : (first >>= next) = .ok result) : ∃ value, first = .ok value ∧ next value = .ok result := by
  cases first with
  | error fault => cases returns
  | ok value => exact ⟨value, rfl, returns⟩

variable {W : Type} {proxy after : IoProxy W} {op : BitVec 32} {msg : Ring.Msg}
variable {callback : RpcCallback W} (rest : List (RpcCallback W)) {rc : Rc}

theorem ask_passed (passes : callback proxy op msg = .ok (proxy, .none)) :
    askCallbacks proxy op msg (callback :: rest) = askCallbacks proxy op msg rest := by
  conv_lhs => unfold askCallbacks
  rw [passes]
  rfl

theorem ask_answered (answers : callback proxy op msg = .ok (after, rc)) (taken : rc ≠ .none) :
    askCallbacks proxy op msg (callback :: rest) = .ok (after, rc) := by
  unfold askCallbacks
  rw [answers]
  exact if_neg taken

/-- What `rpc_process` returns for the answer of a handler. -/
def processed (rc : Rc) : Int := match rc with | .error | .none => -1 | .handled => 0

theorem process_of_ask {callbacks : List (RpcCallback W)} (decoded : (rpcMr0Op.get msg.mr0).setWidth 32 = op)
    (asked : askCallbacks proxy op msg callbacks = .ok (after, rc)) :
    rpcProcess callbacks proxy msg = .ok (after, processed rc) := by
  subst decoded
  unfold rpcProcess
  rw [asked]
  rfl

/-- What every handler of a chain does to the state, the chain does, if it can be composed. -/
theorem ask_rel {R : IoProxy W → IoProxy W → Prop} (refl : ∀ proxy, R proxy proxy)
    (trans : ∀ a b c, R a b → R b c → R a c) {callbacks : List (RpcCallback W)}
    (each : ∀ callback ∈ callbacks, ∀ proxy after rc, callback proxy op msg = .ok (after, rc) → R proxy after)
    (asked : askCallbacks proxy op msg callbacks = .ok (after, rc)) :
    R proxy after := by
  induction callbacks generalizing proxy with
  | nil =>
    cases asked
    exact refl _
  | cons callback rest ih =>
    unfold askCallbacks at asked
    obtain ⟨⟨next, answered⟩, answer, asked⟩ := of_bind_ok asked
    have first := each callback List.mem_cons_self proxy next answered answer
    simp only at asked
    split at asked
    · exact trans _ _ _ first (ih (fun other inside => each other (List.mem_cons_of_mem _ inside)) asked)
    · cases asked
      exact first

theorem process_rel {R : IoProxy W → IoProxy W → Prop} (refl : ∀ proxy, R proxy proxy)
    (trans : ∀ a b c, R a b → R b c → R a c) {callbacks : List (RpcCallback W)}
    (each : ∀ callback ∈ callbacks, ∀ op proxy after rc, callback proxy op msg = .ok (after, rc) → R proxy after)
    {code : Int} (processed : rpcProcess callbacks proxy msg = .ok (after, code)) : R proxy after := by
  unfold rpcProcess at processed
  cases asked : askCallbacks proxy ((rpcMr0Op.get msg.mr0).setWidth 32) msg callbacks with
  | error fault =>
    rw [asked] at processed
    cases processed
  | ok result =>
    rw [asked] at processed
    cases processed
    exact ask_rel refl trans (fun callback inside => each callback inside _) asked

theorem ask_fault {callbacks : List (RpcCallback W)} {fault : Rpc.Fault}
    (asked : askCallbacks proxy op msg callbacks = .error fault) :
    ∃ callback ∈ callbacks, ∃ before, callback before op msg = .error fault := by
  induction callbacks generalizing proxy with
  | nil => cases asked
  | cons callback rest ih =>
    unfold askCallbacks at asked
    cases answer : callback proxy op msg with
    | error stop =>
      rw [answer] at asked
      cases asked
      exact ⟨callback, List.mem_cons_self, proxy, answer⟩
    | ok result =>
      obtain ⟨next, answered⟩ := result
      rw [answer] at asked
      by_cases passed : answered = .none
      · simp only [bind, Except.bind, if_pos passed] at asked
        obtain ⟨other, inside, before, stops⟩ := ih asked
        exact ⟨other, List.mem_cons_of_mem _ inside, before, stops⟩
      · simp only [bind, Except.bind, if_neg passed] at asked
        cases asked

theorem process_fault {callbacks : List (RpcCallback W)} {fault : Rpc.Fault}
    (stopped : rpcProcess callbacks proxy msg = .error fault) :
    ∃ callback ∈ callbacks, ∃ before, callback before ((rpcMr0Op.get msg.mr0).setWidth 32) msg = .error fault := by
  unfold rpcProcess at stopped
  cases asked : askCallbacks proxy ((rpcMr0Op.get msg.mr0).setWidth 32) msg callbacks with
  | error stop =>
    rw [asked] at stopped
    cases stopped
    exact ask_fault asked
  | ok result =>
    rw [asked] at stopped
    cases stopped

/-! ### What the end of a request touches -/

theorem ioreqFinish_keeps {slot : BitVec 32} {data : BitVec 64} {err : Int}
    (returns : ioreqFinish proxy slot data = .ok (after, err)) :
    after = { proxy with calls := after.calls, ioacks := after.ioacks } := by
  unfold ioreqFinish at returns
  split at returns
  · cases returns
  · split at returns
    · simp only at returns
      split at returns
      · cases returns
      · cases returns
        rfl
    · cases returns

theorem handleMmio_keeps (returns : handleMmio proxy op msg = .ok (after, rc)) :
    after = { proxy with calls := after.calls, ioacks := after.ioacks } := by
  unfold handleMmio at returns
  split at returns
  · cases returns
    rfl
  · simp only at returns
    cases finished : ioreqFinish proxy ((rpcMr0MmioSlot.get msg.mr0).setWidth 32) msg.mr2 with
    | error fault =>
      rw [finished] at returns
      cases returns
    | ok result =>
      rw [finished] at returns
      cases returns
      exact ioreqFinish_keeps finished

end Virtioso.Proxy
