import Virtioso.Rpc.Requests

/-! Sequences of calls on one bitmap.

The last call on an index decides its bit. A call past the end of the array changes
none of the array's bits.
-/

set_option autoImplicit false

namespace Virtioso.Rpc

/-- A call of `_set_bit` or `_clear_bit`. -/
inductive BitCall where
  | set (nr : Nat)
  | clear (nr : Nat)
  deriving DecidableEq, Repr

def BitCall.nr : BitCall → Nat
  | .set nr | .clear nr => nr

def BitCall.sets : BitCall → Bool
  | .set _ => true
  | .clear _ => false

def BitCall.perform (addr : List (BitVec 64)) : BitCall → List (BitVec 64)
  | .set nr => setBit nr addr
  | .clear nr => clearBit nr addr

def afterCalls (addr : List (BitVec 64)) (calls : List BitCall) : List (BitVec 64) :=
  calls.foldl BitCall.perform addr

/-- Whether the last call on bit `i` was a set; `none` without a call on it. -/
def lastCall (i : Nat) (calls : List BitCall) : Option Bool :=
  (calls.reverse.find? fun call => call.nr = i).map BitCall.sets

variable {addr : List (BitVec 64)} {calls : List BitCall} {call : BitCall} {size i : Nat}

@[simp] theorem length_perform : (call.perform addr).length = addr.length := by
  cases call with
  | set nr => exact length_setBit
  | clear nr => exact length_clearBit

@[simp] theorem length_afterCalls : (afterCalls addr calls).length = addr.length := by
  induction calls generalizing addr with
  | nil => rfl
  | cons call rest ih => exact ih.trans length_perform

theorem testBit_perform (inside : i < addr.length * 64) :
    testBit (call.perform addr) i = if call.nr = i then call.sets else testBit addr i := by
  by_cases within : call.nr / 64 < addr.length
  · cases call with
    | set nr =>
      have word : nr / 64 < addr.length := within
      rw [BitCall.perform, testBit_setBit word]
      by_cases same : nr = i
      · simp [BitCall.nr, BitCall.sets, same]
      · simp [BitCall.nr, same, Ne.symm same]
    | clear nr =>
      have word : nr / 64 < addr.length := within
      rw [BitCall.perform, testBit_clearBit word]
      by_cases same : nr = i
      · simp [BitCall.nr, BitCall.sets, same]
      · simp [BitCall.nr, same, Ne.symm same]
  · -- an index past the end is none of the array's bits
    have other : call.nr ≠ i := by omega
    have unchanged : call.perform addr = addr := by
      cases call with
      | set nr => exact List.modify_eq_self (Nat.le_of_not_lt within)
      | clear nr => exact List.modify_eq_self (Nat.le_of_not_lt within)
    rw [unchanged, if_neg other]

theorem lastCall_append : lastCall i (calls ++ [call]) = if call.nr = i then some call.sets else lastCall i calls := by
  rw [lastCall, List.reverse_append, List.reverse_singleton, List.singleton_append, List.find?_cons]
  by_cases same : call.nr = i
  · simp [same]
  · simp [same, lastCall]

theorem testBit_afterCalls (inside : i < addr.length * 64) :
    testBit (afterCalls addr calls) i = (lastCall i calls).getD (testBit addr i) := by
  induction calls using List.reverseRecOn with
  | nil => rfl
  | append_singleton calls call ih =>
    have step : afterCalls addr (calls ++ [call]) = call.perform (afterCalls addr calls) := by
      rw [afterCalls, List.foldl_append]
      rfl
    rw [step, testBit_perform (by rwa [length_afterCalls]), lastCall_append, ih]
    split <;> rfl

/-- Only a clear bit is lent, and only its bit changes. -/
theorem lends_clear {state next : BufferState} {msg : Ring.MsgPtr}
    (lends : rpcmsgLendBuffer state = some (next, msg)) :
    state.lent msg = false ∧ ∀ other, next.lent other = (decide (other = msg) || state.lent other) := by
  by_cases free : ∃ other, state.lent other = false
  · obtain ⟨other, clear⟩ := free
    obtain ⟨lending, returns, zero⟩ := lend_buffer clear
    rw [lends] at returns
    cases returns
    exact ⟨zero, fun other => lent_setBit⟩
  · have all : ∀ other, state.lent other = true := by simpa using free
    rw [lend_none all] at lends
    cases lends

/-- After any calls on an array of any length the search is exact for every size that the
array has bits for, each bit is what the last call on it made it, and what is found and
then set was clear. Lending gets a buffer whose bit was clear, and does if there is one. -/
theorem bitmap_search_exact (addr : List (BitVec 64)) (calls : List BitCall) (size : Nat)
    (capacity : size ≤ addr.length * 64) :
    FirstZero (afterCalls addr calls) 0 size (findFirstZeroBit (afterCalls addr calls) size) ∧
    (∀ i < addr.length * 64, testBit (afterCalls addr calls) i = (lastCall i calls).getD (testBit addr i)) ∧
    (∀ nr, findFirstZeroBit (afterCalls addr calls) size = nr → nr < size →
      testBit (afterCalls addr calls) nr = false ∧ lastCall nr calls ≠ some true ∧
        testBit (setBit nr (afterCalls addr calls)) nr = true) ∧
    (∀ state next msg, rpcmsgLendBuffer state = some (next, msg) → state.lent msg = false) ∧
    ∀ state msg, state.lent msg = false → ∃ next lending, rpcmsgLendBuffer state = some (next, lending) := by
  have least : FirstZero (afterCalls addr calls) 0 size (findFirstZeroBit (afterCalls addr calls) size) := by
    apply findFirstZeroBit_spec
    rwa [length_afterCalls]
  refine ⟨least, fun i inside => testBit_afterCalls inside, ?_, fun state next msg lends => (lends_clear lends).1,
    fun state msg clear => ?_⟩
  · intro nr found below
    subst found
    have inside := Nat.lt_of_lt_of_le below capacity
    have clear := (least.2.resolve_right (Nat.ne_of_lt below)).2
    refine ⟨clear, fun last => ?_, ?_⟩
    · rw [testBit_afterCalls inside, last] at clear
      cases clear
    · rw [testBit_setBit (by rw [length_afterCalls]; omega)]
      simp
  · obtain ⟨lending, lends, -⟩ := lend_buffer clear
    exact ⟨_, lending, lends⟩

def oneLent : BufferState := ⟨afterCalls [0#64] [.set 0, .set 1, .clear 0], rfl⟩

/-- The buffer that was given back is found, and lent again. -/
theorem bitmap_search_exact_word :
    FirstZero oneLent.words 0 32 (findFirstZeroBit oneLent.words 32) ∧ findFirstZeroBit oneLent.words 32 = 0 ∧
      ∃ next lending, rpcmsgLendBuffer oneLent = some (next, lending) ∧ lending = 0 := by
  obtain ⟨least, -, -, -, lends⟩ := bitmap_search_exact [0#64] [.set 0, .set 1, .clear 0] 32 (by decide)
  obtain ⟨next, lending, lent⟩ := lends oneLent 0 (by decide +kernel)
  have first : (rpcmsgLendBuffer oneLent).map Prod.snd = some 0 := by decide +kernel
  rw [lent] at first
  exact ⟨least, by decide +kernel, next, lending, lent, Option.some.inj first⟩

end Virtioso.Rpc
