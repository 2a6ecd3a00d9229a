import Mathlib.Tactic.Common

/-! Bitmaps of `rpc_queue.h`: search for a zero bit, set and clear one bit.

The functions work on an array of 64-bit words. The loop of `_find_first_zero_bit`
runs over the words; an array that ends before `size` bits is outside its contract.
-/

set_option autoImplicit false

namespace Virtioso.Rpc

/-- Iteration `i` of the loop of `_find_first_zero_bit` and what follows it. -/
def findFirstZeroFrom (size : Nat) : Nat → List (BitVec 64) → Nat
  | _, [] => size
  | i, word :: rest =>
      if i * 64 < size then
        if ~~~word ≠ 0#64 then min (i * 64 + (~~~word).ctz.toNat) size
        else findFirstZeroFrom size (i + 1) rest
      else size

/-- `_find_first_zero_bit`. -/
def findFirstZeroBit (addr : List (BitVec 64)) (size : Nat) : Nat := findFirstZeroFrom size 0 addr

def bitMask (nr : Nat) : BitVec 64 := 1#64 <<< (nr % 64)

/-- `_set_bit`. -/
def setBit (nr : Nat) (addr : List (BitVec 64)) : List (BitVec 64) :=
  addr.modify (nr / 64) (· ||| bitMask nr)

/-- `_clear_bit`. -/
def clearBit (nr : Nat) (addr : List (BitVec 64)) : List (BitVec 64) :=
  addr.modify (nr / 64) (· &&& ~~~bitMask nr)

/-- Bit `nr` of an array of words. -/
def testBit (addr : List (BitVec 64)) (nr : Nat) : Bool :=
  (addr[nr / 64]?.getD 0#64).getLsbD (nr % 64)

variable {addr : List (BitVec 64)} {size nr i : Nat}

theorem bitMask_getLsbD (nr k : Nat) : (bitMask nr).getLsbD k = decide (nr % 64 = k) := by
  have below : nr % 64 < 64 := Nat.mod_lt _ (by decide)
  have bit := BitVec.getLsbD_twoPow (w := 64) (nr % 64) k
  rwa [decide_eq_true below, Bool.true_and] at bit

theorem same_bit (i nr : Nat) : i = nr ↔ i / 64 = nr / 64 ∧ nr % 64 = i % 64 := by
  omega

@[simp] theorem length_setBit : (setBit nr addr).length = addr.length := List.length_modify ..
@[simp] theorem length_clearBit : (clearBit nr addr).length = addr.length := List.length_modify ..

theorem getD_modify {f : BitVec 64 → BitVec 64} {w j : Nat} (inside : w < addr.length) :
    (addr.modify w f)[j]?.getD 0#64 =
      if w = j then f (addr[j]?.getD 0#64) else addr[j]?.getD 0#64 := by
  rw [List.getElem?_modify]
  by_cases same : w = j
  · subst same
    rw [List.getElem?_eq_getElem inside]
    simp
  · simp [same]

theorem testBit_setBit (inside : nr / 64 < addr.length) :
    testBit (setBit nr addr) i = (decide (i = nr) || testBit addr i) := by
  unfold testBit setBit
  rw [getD_modify inside]
  by_cases word : nr / 64 = i / 64
  · rw [if_pos word, BitVec.getLsbD_or, bitMask_getLsbD, Bool.or_comm]
    simp only [same_bit i nr, word, true_and]
  · have other : ¬i = nr := fun same => word (by rw [same])
    rw [if_neg word, decide_eq_false other, Bool.false_or]

theorem testBit_clearBit (inside : nr / 64 < addr.length) :
    testBit (clearBit nr addr) i = (!decide (i = nr) && testBit addr i) := by
  unfold testBit clearBit
  rw [getD_modify inside]
  by_cases word : nr / 64 = i / 64
  · have below : i % 64 < 64 := Nat.mod_lt _ (by decide)
    rw [if_pos word, BitVec.getLsbD_and, BitVec.getLsbD_not, bitMask_getLsbD, Bool.and_comm,
      decide_eq_true below, Bool.true_and]
    simp only [same_bit i nr, word, true_and]
  · have other : ¬i = nr := fun same => word (by rw [same])
    rw [if_neg word, decide_eq_false other, Bool.not_false, Bool.true_and]

theorem clearBit_setBit (clear : testBit addr nr = false) : clearBit nr (setBit nr addr) = addr := by
  unfold clearBit setBit
  rw [List.modify_modify_eq]
  apply List.ext_getElem?
  intro j
  rw [List.getElem?_modify]
  cases found : addr[j]? with
  | none => rfl
  | some word =>
    apply congrArg some
    by_cases same : nr / 64 = j
    · subst same
      rw [testBit, found, Option.getD_some] at clear
      simp only [if_true]
      apply BitVec.eq_of_getLsbD_eq
      intro k below
      simp only [Function.comp_apply, BitVec.getLsbD_and, BitVec.getLsbD_or, BitVec.getLsbD_not,
        bitMask_getLsbD, decide_eq_true below, Bool.true_and]
      by_cases bit : nr % 64 = k
      · rw [← bit, clear]
        simp
      · simp [bit]
    · simp only [if_neg same]

/-- `n` is the least index from `low` on, below `size`, whose bit is 0; or `size` if there is none. -/
def FirstZero (addr : List (BitVec 64)) (low size n : Nat) : Prop :=
  (∀ k, low ≤ k → k < n → testBit addr k = true) ∧ (n < size ∧ testBit addr n = false ∨ n = size)

theorem testBit_of_drop {word : BitVec 64} {rest : List (BitVec 64)} {k : Nat}
    (here : addr.drop i = word :: rest) (inside : k < 64) :
    testBit addr (i * 64 + k) = word.getLsbD k := by
  have found : addr[i]? = some word := by
    rw [← List.head?_drop, here, List.head?_cons]
  have div : (i * 64 + k) / 64 = i := by omega
  have mod : (i * 64 + k) % 64 = k := by omega
  rw [testBit, div, mod, found, Option.getD_some]

theorem findFirstZeroFrom_spec {words : List (BitVec 64)} (rest : addr.drop i = words)
    (capacity : size ≤ addr.length * 64) :
    FirstZero addr (i * 64) size (findFirstZeroFrom size i words) := by
  induction words generalizing i with
  | nil =>
    have ended : addr.length ≤ i := List.drop_eq_nil_iff.mp rest
    refine ⟨fun k low below => ?_, .inr rfl⟩
    simp only [findFirstZeroFrom] at below
    omega
  | cons word words ih =>
    unfold findFirstZeroFrom
    split
    · next inside =>
      split
      · next zero =>
        have bit := BitVec.getLsbD_true_ctz_of_ne_zero zero
        have short := BitVec.lt_of_getLsbD bit
        rw [BitVec.getLsbD_not, decide_eq_true short, Bool.true_and, Bool.not_eq_true'] at bit
        refine ⟨fun k low below => ?_, ?_⟩
        · -- the bits below the trailing zeros of the complement are ones
          obtain ⟨j, rfl⟩ := Nat.exists_eq_add_of_le low
          have lower : j < (~~~word).ctz.toNat := by omega
          have one := BitVec.getLsbD_false_of_lt_ctz lower
          rw [BitVec.getLsbD_not, decide_eq_true (by omega), Bool.true_and, Bool.not_eq_false'] at one
          rw [testBit_of_drop rest (by omega)]
          exact one
        · by_cases fits : i * 64 + (~~~word).ctz.toNat < size
          · left
            rw [Nat.min_eq_left (Nat.le_of_lt fits)]
            exact ⟨fits, (testBit_of_drop rest short).trans bit⟩
          · right
            exact Nat.min_eq_right (Nat.le_of_not_lt fits)
      · next ones =>
        have full : word = BitVec.allOnes 64 := by
          have complement := congrArg (~~~·) (not_not.mp ones)
          simpa using complement
        have next : addr.drop (i + 1) = words := by
          rw [← List.drop_drop, rest, List.drop_one, List.tail_cons]
        obtain ⟨below, found⟩ := ih next
        refine ⟨fun k low less => ?_, found⟩
        by_cases here : k < (i + 1) * 64
        · obtain ⟨j, rfl⟩ := Nat.exists_eq_add_of_le low
          rw [testBit_of_drop rest (by omega), full, BitVec.getLsbD_allOnes]
          exact decide_eq_true (by omega)
        · exact below k (by omega) less
    · next past =>
      exact ⟨fun k low below => by omega, .inr rfl⟩

/-- `_find_first_zero_bit` returns the least index below `size` whose bit is 0. -/
theorem findFirstZeroBit_spec (capacity : size ≤ addr.length * 64) :
    FirstZero addr 0 size (findFirstZeroBit addr size) := by
  have spec : FirstZero addr (0 * 64) size (findFirstZeroFrom size 0 addr) :=
    findFirstZeroFrom_spec rfl capacity
  rwa [Nat.zero_mul] at spec

end Virtioso.Rpc
