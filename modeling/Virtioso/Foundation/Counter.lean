import Mathlib.Algebra.Group.Nat.Defs
import Mathlib.Tactic.Common

/-! Free-running counters stored in a machine word.

A counter that is only ever incremented is stored modulo `2 ^ w`. Inside a
window shorter than the modulus the stored values still decide equality and
distance of the unbounded counts.
-/

set_option autoImplicit false

namespace Virtioso.Foundation

variable {w : Nat}

theorem eq_of_residue {a b size : Nat} (le : a ≤ b) (window : b - a < size)
    (same : a % size = b % size) : a = b := by
  have divides : size ∣ b - a := Nat.dvd_of_mod_eq_zero (Nat.sub_mod_eq_zero_of_mod_eq same.symm)
  have zero : b - a = 0 := Nat.eq_zero_of_dvd_of_lt divides window
  omega

theorem ofNat_inj_of_window {a b : Nat} (le : a ≤ b) (window : b - a < 2 ^ w)
    (same : BitVec.ofNat w a = BitVec.ofNat w b) : a = b := by
  have residues := congrArg BitVec.toNat same
  simp only [BitVec.toNat_ofNat] at residues
  exact eq_of_residue le window residues

theorem ofNat_distance {a b : Nat} (le : a ≤ b) :
    BitVec.ofNat w b - BitVec.ofNat w a = BitVec.ofNat w (b - a) := by
  have split : b = a + (b - a) := by omega
  rw [split, BitVec.ofNat_add, Nat.add_sub_cancel_left, BitVec.add_comm, BitVec.add_sub_cancel]

/-- The word distance of two counts of one window is their exact distance. -/
theorem toNat_distance {a b : Nat} (le : a ≤ b) (window : b - a < 2 ^ w) :
    (BitVec.ofNat w b - BitVec.ofNat w a).toNat = b - a := by
  rw [ofNat_distance le, BitVec.toNat_ofNat, Nat.mod_eq_of_lt window]

theorem eq_of_slot {a b size : Nat} (slot : a % size = b % size)
    (above : a < b + size) (below : b < a + size) : a = b := by
  rcases Nat.le_total a b with le | le
  · exact eq_of_residue le (by omega) slot
  · exact (eq_of_residue le (by omega) slot.symm).symm

end Virtioso.Foundation
