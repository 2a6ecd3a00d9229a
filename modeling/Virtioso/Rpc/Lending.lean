import Virtioso.Rpc.Conservation

/-! Concurrent callers of `rpcmsg_request` on one buffer state.

`rpcmsg_lend_buffer` searches the bitmap and then sets the bit it found; between the
two another caller may set the same bit. The other parties run complete operations
in between, with the driver reclaiming answered buffers among them.
-/

set_option autoImplicit false

namespace Virtioso.Rpc

open Foundation Virtioso.Ring

/-- Control points of `rpcmsg_request`, each before one access. The bitmap is one
word, so the search reads it once. -/
inductive LendPoint where
  | idle
  | search (words : Msg)
  | setBit (words : Msg) (msg : MsgPtr)
  | write (words : Msg) (msg : MsgPtr)
  | enqueue (msg : MsgPtr)
  /-- the queue was full -/
  | clearBit (msg : MsgPtr)
  | returned (code : Int)
  /-- the search found nothing and NULL was written through -/
  | crashed
  deriving DecidableEq, Repr

/-- The parties of the driver rpc and the threads that call `rpcmsg_request`. -/
structure Lending (ι : Type) where
  system : System
  point : ι → LendPoint

inductive LendAction (ι : Type) where
  | call (i : ι) (words : Msg)
  | access (i : ι)
  /-- a complete operation of another party, or of the thread that handles responses -/
  | operate (op : Operation)

def LendPoint.ready : LendPoint → Bool
  | .idle | .returned _ => true
  | _ => false

/-- The message whose bit this call has set. -/
def LendPoint.holds : LendPoint → Option MsgPtr
  | .write _ msg | .enqueue msg | .clearBit msg => some msg
  | _ => none

variable {ι : Type}

def Lending.initial : Lending ι := ⟨.initial, fun _ => .idle⟩

section Steps
variable [DecidableEq ι]

def Lending.put (s : Lending ι) (i : ι) (system : System) (p : LendPoint) : Lending ι :=
  ⟨system, Function.update s.point i p⟩

@[simp] theorem put_self (s : Lending ι) (i : ι) (system : System) (p : LendPoint) :
    (s.put i system p).point i = p := Function.update_self ..

theorem put_of_ne (s : Lending ι) {i j : ι} (system : System) (p : LendPoint) (ne : j ≠ i) :
    (s.put i system p).point j = s.point j := Function.update_of_ne ne ..

/-- The next access of thread `i` in its call. -/
def Lending.access (v : CasVariant) (s : Lending ι) (i : ι) : Option (Lending ι) :=
  match s.point i with
  | .search words =>
      match findBuffer s.system.bufferState with
      | none => some (s.put i s.system .crashed)
      | some msg => some (s.put i s.system (.setBit words msg))
  | .setBit words msg =>
      some (s.put i { s.system with bufferState := s.system.bufferState.setBit msg.val } (.write words msg))
  | .write words msg =>
      some (s.put i { s.system with buffer := Function.update s.system.buffer msg words } (.enqueue msg))
  | .enqueue msg =>
      match rpcmsgRpcEnqueue v (s.system.queues .drvrpcReq) msg with
      | .error _ => none
      | .ok (queue, code) =>
          if code = 0 then
            let id : Int := (rpcmsgMsgToId msg).toNat
            some (s.put i (s.system.issue ⟨queue, s.system.buffer, s.system.bufferState, id⟩) (.returned id))
          else
            some (s.put i
              { s.system with queues := Function.update s.system.queues .drvrpcReq queue } (.clearBit msg))
  | .clearBit msg =>
      some (s.put i { s.system with bufferState := rpcmsgReclaimBuffer s.system.bufferState msg }
        (.returned (-1)))
  | .idle | .returned _ | .crashed => none

def Lending.step (v : CasVariant) (s : Lending ι) : LendAction ι → Option (Lending ι)
  | .call i words => if (s.point i).ready then some (s.put i s.system (.search words)) else none
  | .access i => s.access v i
  | .operate (.request _ _ _ _) => none
  | .operate op => (s.system.step v op).map fun system => { s with system }

end Steps

/-- What the parties are promised to keep to; the callers keep to nothing. -/
def Permitted (s : Lending ι) : LendAction ι → Prop
  | .operate op => Disciplined s.system op
  | .call _ _ | .access _ => True

/-- `set_bit` finds the bit still clear that the search before it found clear. -/
def LendPoint.clear (state : BufferState) : LendPoint → Bool
  | .setBit _ msg => !state.lent msg
  | _ => true

def Unraced (s : Lending ι) : LendAction ι → Prop
  | .operate op => Disciplined s.system op
  | .call _ _ => True
  | .access i => (s.point i).clear s.system.bufferState = true

/-- No two outstanding requests hold the same message, whether their calls are still
in progress or the requests are in queues or hands. -/
structure Exclusive (s : Lending ι) : Prop where
  calls : ∀ i j msg, (s.point i).holds = some msg → (s.point j).holds = some msg → i = j
  apart : ∀ i msg, (s.point i).holds = some msg → occurrences s.system msg = 0
  sent : ∀ msg, occurrences s.system msg ≤ 1

def Borrowed (s : Lending ι) (msg : MsgPtr) : Prop := ∃ i, (s.point i).holds = some msg

structure LendInv (s : Lending ι) : Prop where
  conserving : Conserving (Borrowed s) s.system
  alone : ∀ i j msg, (s.point i).holds = some msg → (s.point j).holds = some msg → i = j
  room : ∀ i msg, s.point i ≠ .clearBit msg

theorem LendInv.exclusive {s : Lending ι} (inv : LendInv s) : Exclusive s := by
  obtain ⟨at_, stock, sound⟩ := inv.conserving
  refine ⟨inv.alone, fun i msg holds => ?_, fun msg => ?_⟩
  · rw [sound.occurrences, if_pos (sound.apart msg ⟨i, holds⟩)]
  · rw [sound.occurrences]
    split <;> omega

section Preservation
variable [DecidableEq ι] {v : CasVariant} {s t : Lending ι} {i : ι}

omit [DecidableEq ι] in
theorem lendInv_initial : LendInv (.initial : Lending ι) where
  conserving := by
    have nobody : Borrowed (.initial : Lending ι) = fun _ => False := by
      funext msg
      simp [Borrowed, Lending.initial, LendPoint.holds]
    rw [nobody]
    exact conserving_initial
  alone i j msg holds := by simp [Lending.initial, LendPoint.holds] at holds
  room i msg := by simp [Lending.initial]

theorem borrowed_put (system : System) (p : LendPoint) (msg : MsgPtr) :
    Borrowed (s.put i system p) msg ↔
      p.holds = some msg ∨ ∃ j, j ≠ i ∧ (s.point j).holds = some msg := by
  constructor
  · rintro ⟨j, holds⟩
    by_cases same : j = i
    · subst same
      left
      simpa using holds
    · exact .inr ⟨j, same, by simpa [put_of_ne _ _ _ same] using holds⟩
  · rintro (holds | ⟨j, other, holds⟩)
    · exact ⟨i, by simpa using holds⟩
    · exact ⟨j, by simpa [put_of_ne _ _ _ other] using holds⟩

theorem borrowed_split (i : ι) (msg : MsgPtr) :
    Borrowed s msg ↔ (s.point i).holds = some msg ∨ ∃ j, j ≠ i ∧ (s.point j).holds = some msg := by
  have put := borrowed_put (s := s) (i := i) s.system (s.point i) msg
  rwa [Lending.put, Function.update_eq_self] at put

theorem LendInv.put_alone (inv : LendInv s) (system : System) {p : LendPoint}
    (fresh : ∀ msg, p.holds = some msg → ∀ j, j ≠ i → (s.point j).holds ≠ some msg) :
    ∀ j k msg, ((s.put i system p).point j).holds = some msg →
      ((s.put i system p).point k).holds = some msg → j = k := by
  intro j k msg first second
  by_cases here : j = i
  · subst here
    by_cases there : k = j
    · exact there.symm
    · rw [put_self] at first
      rw [put_of_ne _ _ _ there] at second
      exact absurd second (fresh msg first k there)
  · rw [put_of_ne _ _ _ here] at first
    by_cases there : k = i
    · subst there
      rw [put_self] at second
      exact absurd first (fresh msg second j here)
    · rw [put_of_ne _ _ _ there] at second
      exact inv.alone j k msg first second

theorem LendInv.put_room (inv : LendInv s) (system : System) {p : LendPoint}
    (room : ∀ msg, p ≠ .clearBit msg) : ∀ j msg, (s.put i system p).point j ≠ .clearBit msg := by
  intro j msg
  by_cases here : j = i
  · subst here
    rw [put_self]
    exact room msg
  · rw [put_of_ne _ _ _ here]
    exact inv.room j msg

theorem LendInv.keep (inv : LendInv s) {system : System} {p : LendPoint}
    (same : p.holds = (s.point i).holds) (room : ∀ msg, p ≠ .clearBit msg)
    (conserving : Conserving (Borrowed s) system) : LendInv (s.put i system p) where
  conserving := by
    have equal : Borrowed (s.put i system p) = Borrowed s := by
      funext msg
      rw [borrowed_put, same, ← borrowed_split]
    rw [equal]
    exact conserving
  alone := inv.put_alone system fun msg holds j other held =>
    other (inv.alone j i msg held (same ▸ holds))
  room := inv.put_room system room

theorem LendInv.lend (inv : LendInv s) {words : Msg} {msg : MsgPtr} (at_ : s.point i = .setBit words msg)
    (clear : s.system.bufferState.lent msg = false) :
    LendInv (s.put i { s.system with bufferState := s.system.bufferState.setBit msg.val }
      (.write words msg)) := by
  obtain ⟨at', stock, sound⟩ := inv.conserving
  obtain ⟨nowhere, unclaimed⟩ := sound.free clear
  -- before its `set_bit` the thread holds nothing
  have before : ∀ other, Borrowed s other ↔ ∃ j, j ≠ i ∧ (s.point j).holds = some other := by
    intro other
    rw [borrowed_split i, at_]
    simp [LendPoint.holds]
  refine ⟨⟨at', stock, sound.occupied, sound.hands, sound.holding, sound.journey, fun other => ?_,
    fun other borrowed => ?_, sound.issued⟩, inv.put_alone _ ?_, inv.put_room _ (by simp)⟩
  · rw [borrowed_put, ← before]
    simp only [Lending.put, lent_setBit, Bool.or_eq_true, decide_eq_true_eq, sound.lent]
    simp only [LendPoint.holds, Option.some.injEq]
    tauto
  · rw [borrowed_put, ← before] at borrowed
    rcases borrowed with holds | borrowed
    · cases holds
      exact nowhere
    · exact sound.apart other borrowed
  · intro other holds j different held
    cases holds
    exact unclaimed ⟨j, held⟩

theorem LendInv.enqueue (inv : LendInv s) {msg : MsgPtr} (at_ : s.point i = .enqueue msg)
    (edge : s.access v i = some t) : LendInv t := by
  obtain ⟨at', stock, sound⟩ := inv.conserving
  have holds : (s.point i).holds = some msg := by rw [at_]; rfl
  have nowhere := sound.apart msg ⟨i, holds⟩
  have room := sound.room .drvrpcReq msg (by simp [nowhere])
  obtain ⟨next, returns, keeps⟩ := rpc_enqueue (v := v) (sound.holding .drvrpcReq) room msg
  simp only [Lending.access, at_, returns, if_pos, Option.some.injEq] at edge
  subst edge
  refine ⟨⟨_, sound.issue nowhere _ _ keeps (fun other => ?_) fun other borrowed => ?_⟩,
    inv.put_alone _ (by simp [LendPoint.holds]), inv.put_room _ (by simp)⟩
  · rw [borrowed_put, sound.lent, borrowed_split i, holds]
    simp only [LendPoint.holds, Option.some.injEq, reduceCtorEq, false_or, eq_comm (a := msg)]
    tauto
  · rw [borrowed_put] at borrowed
    obtain ⟨j, different, held⟩ := borrowed.resolve_left (by simp [LendPoint.holds])
    refine ⟨?_, j, held⟩
    rintro rfl
    exact different (inv.alone j i _ held holds)

theorem LendInv.access (inv : LendInv s) (unraced : Unraced s (.access i))
    (edge : s.access v i = some t) : LendInv t := by
  have conserving := inv.conserving
  cases at_ : s.point i with
  | idle | returned _ | crashed => simp [Lending.access, at_] at edge
  | search words =>
    simp only [Lending.access, at_] at edge
    split at edge
    · cases edge
      exact inv.keep (by rw [at_]; rfl) (by simp) conserving
    · cases edge
      exact inv.keep (by rw [at_]; rfl) (by simp) conserving
  | setBit words msg =>
    simp only [Lending.access, at_, Option.some.injEq] at edge
    subst edge
    -- unraced means that the bit is still clear
    simp only [Unraced, at_, LendPoint.clear, Bool.not_eq_true'] at unraced
    exact inv.lend at_ unraced
  | write words msg =>
    simp only [Lending.access, at_, Option.some.injEq] at edge
    subst edge
    obtain ⟨at', stock, sound⟩ := conserving
    exact inv.keep (by rw [at_]; rfl) (by simp) ⟨at', stock, sound.occupied, sound.hands, sound.holding,
      sound.journey, sound.lent, sound.apart, sound.issued⟩
  | enqueue msg => exact inv.enqueue at_ edge
  | clearBit msg => exact absurd at_ (inv.room i msg)

theorem LendInv.step (inv : LendInv s) {a : LendAction ι} (unraced : Unraced s a)
    (edge : s.step v a = some t) : LendInv t := by
  cases a with
  | call i words =>
    simp only [Lending.step, Option.ite_none_right_eq_some, Option.some.injEq] at edge
    obtain ⟨ready, rfl⟩ := edge
    refine inv.keep ?_ (by simp) inv.conserving
    cases at_ : s.point i <;> simp [at_, LendPoint.ready, LendPoint.holds] at ready ⊢
  | access i => exact inv.access unraced edge
  | operate op =>
    have perform : (s.system.step v op).map (fun system => { s with system }) = some t := by
      cases op <;> first | exact edge | cases edge
    obtain ⟨system, stepped, rfl⟩ := Option.map_eq_some_iff.mp perform
    obtain ⟨at', stock, sound⟩ := inv.conserving
    obtain ⟨next, out, returns, _, keeps⟩ := sound.perform (v := v) unraced
    rw [System.step, returns] at stepped
    cases stepped
    exact ⟨keeps, inv.alone, inv.room⟩

def WordsKept (s : Lending ι) (i : ι) (t : Lending ι) : Prop :=
  ∀ msg, (occurrences s.system msg = 1 ∨ ∃ j, j ≠ i ∧ (s.point j).holds = some msg) →
    t.system.buffer msg = s.system.buffer msg

theorem Exclusive.words_kept (exclusive : Exclusive s) (edge : s.access v i = some t) :
    WordsKept s i t := by
  intro msg outstanding
  cases at_ : s.point i with
  | idle | returned _ | crashed => simp [Lending.access, at_] at edge
  | search words =>
    simp only [Lending.access, at_] at edge
    split at edge <;> cases edge <;> rfl
  | setBit _ _ | clearBit _ =>
    simp only [Lending.access, at_, Option.some.injEq] at edge
    subst edge
    rfl
  | write words own =>
    simp only [Lending.access, at_, Option.some.injEq] at edge
    subst edge
    have holds : (s.point i).holds = some own := by rw [at_]; rfl
    -- the own message is nobody else's
    have other : msg ≠ own := by
      rintro rfl
      rcases outstanding with sent | ⟨j, different, held⟩
      · rw [exclusive.apart i msg holds] at sent
        cases sent
      · exact different (exclusive.calls j i msg held holds)
    exact Function.update_of_ne other ..
  | enqueue own =>
    simp only [Lending.access, at_] at edge
    split at edge
    · cases edge
    · split at edge <;> cases edge <;> rfl

/-- A `set_bit` on a bit that is already set gives one message to two requests. -/
theorem LendInv.race (inv : LendInv s) (raced : ¬Unraced s (.access i))
    (edge : s.access v i = some t) : ¬Exclusive t := by
  intro exclusive
  cases at_ : s.point i with
  | setBit words msg =>
    simp only [Unraced, at_, LendPoint.clear, Bool.not_eq_true', Bool.not_eq_false] at raced
    simp only [Lending.access, at_, Option.some.injEq] at edge
    subst edge
    obtain ⟨at', stock, sound⟩ := inv.conserving
    rcases (sound.lent msg).mp raced with somewhere | ⟨j, held⟩
    · have sent := sound.occurrences msg
      rw [if_neg somewhere] at sent
      have apart := exclusive.apart i msg (by simp [LendPoint.holds])
      exact absurd (sent.symm.trans apart) (by decide)
    · have different : j ≠ i := by
        rintro rfl
        simp [at_, LendPoint.holds] at held
      refine different (exclusive.calls j i msg ?_ (by simp [LendPoint.holds]))
      rwa [put_of_ne _ _ _ different]
  | idle | returned _ | crashed | search _ | write _ _ | enqueue _ | clearBit _ =>
    simp [Unraced, at_, LendPoint.clear] at raced

instance (s : Lending ι) : (a : LendAction ι) → Decidable (Permitted s a)
  | .call _ _ | .access _ => .isTrue trivial
  | .operate op => inferInstanceAs (Decidable (Disciplined s.system op))

instance (s : Lending ι) : (a : LendAction ι) → Decidable (Unraced s a)
  | .call _ _ => .isTrue trivial
  | .access _ => inferInstanceAs (Decidable (_ = true))
  | .operate op => inferInstanceAs (Decidable (Disciplined s.system op))

/-- While every `set_bit` finds its bit clear, messages are lent exclusively and no
request is overwritten; the first `set_bit` that does not ends that. -/
theorem exclusive_lending_iff_unraced (v : CasVariant) (s : Lending ι)
    (reached : Reach (Lending.step v) Unraced .initial s) :
    Exclusive s ∧ ∀ i t, s.step v (.access i) = some t →
      WordsKept s i t ∧ (Exclusive t ↔ Unraced s (.access i)) := by
  have inv := reached.invariant (P := LendInv) lendInv_initial fun _ _ _ inv unraced edge =>
    inv.step unraced edge
  refine ⟨inv.exclusive, fun i t edge => ⟨inv.exclusive.words_kept edge, ?_, fun unraced => ?_⟩⟩
  · intro exclusive
    by_contra raced
    exact inv.race raced edge exclusive
  · exact (inv.step unraced edge).exclusive

end Preservation

/-- Two threads search before either sets the bit it found. -/
def racing : List (LendAction Bool) :=
  [.call true ⟨1, 0, 0, 0⟩, .call false ⟨2, 0, 0, 0⟩, .access true, .access false] ++
    List.replicate 3 (.access true) ++ List.replicate 3 (.access false)

theorem lending_not_exclusive :
    ¬∀ s : Lending Bool, Reach (Lending.step .user) Permitted .initial s → Exclusive s := by
  intro claim
  have twice : (execute (guarded (Lending.step .user) Permitted) (.initial : Lending Bool) racing).map
      (fun s => (occurrences s.system 0, (s.system.buffer 0).mr0)) = some (2, 2) := by decide +kernel
  obtain ⟨s, ran, sent⟩ := Option.map_eq_some_iff.mp twice
  have once := (claim s (.of_execute ran)).sent 0
  rw [(Prod.mk.inj sent).1] at once
  exact absurd once (by decide)

/-- The same two requests, the second search after the first `set_bit`. -/
def separate : List (LendAction Bool) :=
  [.call true ⟨1, 0, 0, 0⟩, .call false ⟨2, 0, 0, 0⟩] ++
    List.replicate 4 (.access true) ++ List.replicate 4 (.access false)

theorem exclusive_lending_separate :
    ∃ s, execute (guarded (Lending.step .user) Unraced) (.initial : Lending Bool) separate = some s ∧
      s.point false = .returned 1 ∧ Exclusive s := by
  have returns : (execute (guarded (Lending.step .user) Unraced) (.initial : Lending Bool) separate).map
      (fun s => s.point false) = some (.returned 1) := by decide +kernel
  obtain ⟨s, ran, at_⟩ := Option.map_eq_some_iff.mp returns
  exact ⟨s, ran, at_, (exclusive_lending_iff_unraced .user s (.of_execute ran)).1⟩

end Virtioso.Rpc
