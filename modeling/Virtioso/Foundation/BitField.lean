import Mathlib.Algebra.Group.Nat.Defs

/-! Bit fields packed into a machine word.

A field is a run of bits. Writing a field clears its bits and stores what fits;
the value comes back, and a field that shares no bit with it keeps its own.
-/

set_option autoImplicit false

namespace Virtioso.Foundation

structure BitField where
  width : Nat
  shift : Nat
  deriving DecidableEq, Repr

variable {w : Nat}

def mask (w n : Nat) : BitVec w := (1#w <<< n) - 1#w

namespace BitField

def ones (f : BitField) (w : Nat) : BitVec w := mask w f.width <<< f.shift

def get (f : BitField) (v : BitVec w) : BitVec w := (v >>> f.shift) &&& mask w f.width

def set (f : BitField) (v n : BitVec w) : BitVec w := (v &&& ~~~f.ones w) ||| ((n <<< f.shift) &&& f.ones w)

def Apart (f g : BitField) : Prop := f.shift + f.width ≤ g.shift ∨ g.shift + g.width ≤ f.shift

instance (f g : BitField) : Decidable (f.Apart g) := inferInstanceAs (Decidable (_ ∨ _))

end BitField

theorem getLsbD_mask {n i : Nat} (fits : n < w) : (mask w n).getLsbD i = decide (i < n) := by
  have power : 2 ^ n < 2 ^ w := Nat.pow_lt_pow_right (by decide) fits
  have positive : 0 < 2 ^ n := Nat.two_pow_pos n
  have value : (mask w n).toNat = 2 ^ n - 1 := by
    have one : (1#w <<< n).toNat = 2 ^ n := by
      rw [← BitVec.twoPow_eq, BitVec.toNat_twoPow, Nat.mod_eq_of_lt power]
    have unit : (1#w).toNat = 1 := by
      rw [BitVec.toNat_ofNat, Nat.mod_eq_of_lt (by omega)]
    rw [mask, BitVec.toNat_sub_of_le (by rw [BitVec.le_def, one, unit]; exact positive), one, unit]
  rw [BitVec.getLsbD, value, Nat.testBit_two_pow_sub_one]

namespace BitField
variable {f g : BitField} {v n : BitVec w}

theorem getLsbD_get {i : Nat} (fits : f.width < w) :
    (f.get v).getLsbD i = (v.getLsbD (f.shift + i) && decide (i < f.width)) := by
  rw [get, BitVec.getLsbD_and, BitVec.getLsbD_ushiftRight, getLsbD_mask fits]

theorem getLsbD_set {i : Nat} (fits : f.width < w) (inside : i < w) :
    (f.set v n).getLsbD i = if f.shift ≤ i ∧ i < f.shift + f.width then n.getLsbD (i - f.shift) else v.getLsbD i := by
  have member : (f.ones w).getLsbD i = decide (f.shift ≤ i ∧ i < f.shift + f.width) := by
    rw [ones, BitVec.getLsbD_shiftLeft, getLsbD_mask fits]
    by_cases below : i < f.shift
    · simp [below, Nat.not_le_of_lt below]
    · have rest : i - f.shift < f.width ↔ i < f.shift + f.width := by omega
      simp [below, inside, Nat.le_of_not_lt below, rest]
  rw [set, BitVec.getLsbD_or, BitVec.getLsbD_and, BitVec.getLsbD_and, BitVec.getLsbD_not,
    BitVec.getLsbD_shiftLeft, member]
  by_cases within : f.shift ≤ i ∧ i < f.shift + f.width
  · simp [within, inside, Nat.not_lt_of_le within.1]
  · simp [within, inside]

theorem get_set (inside : f.shift + f.width ≤ w) (fits : f.width < w) (small : n.toNat < 2 ^ f.width) :
    f.get (f.set v n) = n := by
  apply BitVec.eq_of_getLsbD_eq
  intro i below
  rw [getLsbD_get fits]
  by_cases within : i < f.width
  · rw [getLsbD_set fits (by omega), if_pos (by omega)]
    simp [within]
  · -- above the field a small value has no bits
    have high : n.toNat < 2 ^ i := Nat.lt_of_lt_of_le small (Nat.pow_le_pow_right (by decide) (by omega))
    simp [within, BitVec.getLsbD, Nat.testBit_lt_two_pow high]

theorem get_set_apart (apart : f.Apart g) (inside : g.shift + g.width ≤ w) (narrow : f.width < w)
    (fits : g.width < w) : g.get (f.set v n) = g.get v := by
  apply BitVec.eq_of_getLsbD_eq
  intro i below
  rw [getLsbD_get fits, getLsbD_get fits]
  by_cases within : i < g.width
  · have outside : ¬(f.shift ≤ g.shift + i ∧ g.shift + i < f.shift + f.width) := by
      rcases apart with before | after <;> omega
    rw [getLsbD_set narrow (by omega), if_neg outside]
  · simp [within]

end BitField

end Virtioso.Foundation
