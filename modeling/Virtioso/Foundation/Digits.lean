import Mathlib.Data.Nat.Digits.Defs
import Mathlib.Data.Nat.Notation
import Mathlib.Tactic.Common

/-! Numbers as text and as bytes.

A numeral determines its number, and its digits are none of the characters that
separate the parts of a name. A 32-bit cell is four bytes, the most significant first;
a word of the bus is read with the least significant byte first.
-/

set_option autoImplicit false

namespace Virtioso.Foundation

/-! ### Numerals -/

theorem digitChar_inj {m n : Nat} (left : m < 16) (right : n < 16) (same : m.digitChar = n.digitChar) :
    m = n := by
  have digits : ∀ a b : Fin 16, a.val.digitChar = b.val.digitChar → a = b := by decide
  exact congrArg Fin.val (digits ⟨m, left⟩ ⟨n, right⟩ same)

theorem toDigits_inj {b : Nat} (two : 1 < b) (hex : b ≤ 16) {m n : Nat}
    (same : Nat.toDigits b m = Nat.toDigits b n) : m = n := by
  induction m using Nat.strongRecOn generalizing n with
  | ind m ih =>
    rw [Nat.toDigits_eq_if two, Nat.toDigits_eq_if (n := n) two] at same
    split at same
    · next short =>
      split at same
      · next short' =>
        exact digitChar_inj (by omega) (by omega) (List.cons.inj same).1
      · have length := congrArg List.length same
        have digits := List.length_pos_iff.mpr (Nat.toDigits_ne_nil (n := n / b) (b := b))
        simp only [List.length_append, List.length_singleton] at length
        omega
    · next long =>
      split at same
      · have length := congrArg List.length same
        have digits := List.length_pos_iff.mpr (Nat.toDigits_ne_nil (n := m / b) (b := b))
        simp only [List.length_append, List.length_singleton] at length
        omega
      · -- the last digit is the remainder, the others are the quotient
        obtain ⟨front, last⟩ := List.append_inj' same rfl
        have quotient := ih (m / b) (Nat.div_lt_self (by omega) two) front
        have remainder := digitChar_inj (Nat.lt_of_lt_of_le (Nat.mod_lt m (by omega)) hex)
          (Nat.lt_of_lt_of_le (Nat.mod_lt n (by omega)) hex) (List.cons.inj last).1
        rw [← Nat.div_add_mod m b, ← Nat.div_add_mod n b, quotient, remainder]

theorem mem_toDigits {b : Nat} (two : 1 < b) {n : Nat} {c : Char} (mem : c ∈ Nat.toDigits b n) :
    ∃ d < b, c = d.digitChar := by
  induction n using Nat.strongRecOn with
  | ind n ih =>
    rw [Nat.toDigits_eq_if two] at mem
    split at mem
    · next short => exact ⟨n, short, List.mem_singleton.mp mem⟩
    · rcases List.mem_append.mp mem with front | last
      · exact ih (n / b) (Nat.div_lt_self (by omega) two) front
      · exact ⟨n % b, Nat.mod_lt n (by omega), List.mem_singleton.mp last⟩

theorem not_mem_toDigits {b : Nat} (two : 1 < b) {c : Char} (other : ∀ d < b, c ≠ d.digitChar) (n : Nat) :
    c ∉ Nat.toDigits b n := by
  intro mem
  obtain ⟨d, below, same⟩ := mem_toDigits two mem
  exact other d below same

/-! ### Cells -/

abbrev Byte := BitVec 8

def cellBytes (x : BitVec 32) : List Byte :=
  [x.extractLsb' 24 8, x.extractLsb' 16 8, x.extractLsb' 8 8, x.extractLsb' 0 8]

def readCell : List Byte → Option (BitVec 32)
  | [a, b, c, d] => some (a ++ b ++ c ++ d)
  | _ => none

@[simp] theorem readCell_cellBytes (x : BitVec 32) : readCell (cellBytes x) = some x := by
  apply congrArg some
  rw [BitVec.extractLsb'_append_extractLsb'_eq_extractLsb' (by decide),
    BitVec.extractLsb'_append_extractLsb'_eq_extractLsb' (by decide),
    BitVec.extractLsb'_append_extractLsb'_eq_extractLsb' (by decide)]
  exact BitVec.extractLsb'_eq_self

/-! ### Little-endian values -/

/-- The value of bytes of which the first is the least significant. -/
def leValue (bytes : List Byte) : Nat := Nat.ofDigits 256 (bytes.map BitVec.toNat)

theorem leValue_digits (bytes : List Byte) : ∀ digit ∈ bytes.map BitVec.toNat, digit < 256 := by
  intro digit member
  obtain ⟨byte, _, rfl⟩ := List.mem_map.mp member
  exact byte.isLt

theorem leValue_lt (bytes : List Byte) : leValue bytes < 256 ^ bytes.length := by
  have bound := Nat.ofDigits_lt_base_pow_length (by decide) (leValue_digits bytes)
  rwa [List.length_map] at bound

theorem leValue_inj {a b : List Byte} (length : a.length = b.length) : leValue a = leValue b ↔ a = b := by
  constructor
  · intro same
    have digits := Nat.ofDigits_inj_of_len_eq (by decide) (by simpa using length) (leValue_digits a) (leValue_digits b) same
    exact (List.map_inj_right fun _ _ => BitVec.eq_of_toNat_eq).mp digits
  · intro same
    rw [same]

@[simp] theorem leValue_singleton (byte : Byte) : leValue [byte] = byte.toNat := by
  simp [leValue]

end Virtioso.Foundation
