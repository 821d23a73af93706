/-
  Words as numbers: what masks and shifts do to the value of a word.

  A mask of adjacent ones cuts a field out of a number (`and_mask`), and putting a number above another
  that is small enough is an addition (`or_mul_two_pow`).  With these two, a register made of bit
  fields is arithmetic, which `omega` decides.

  Where a word is put together from parts of others, `field` reads one field of it: a bitwise operation
  acts on each field by itself (`field_and`, `field_or`, `field_xor`), and the field of a mask is a
  number.
-/
import Mathlib.Algebra.Group.Nat.Defs

namespace Famicom

/-- What holds of 256 numbers holds of every byte. -/
theorem forall_byte {P : UInt8 → Prop} (h : ∀ n : Fin 256, P (UInt8.ofNat n)) (v : UInt8) : P v := by
  have hv := h ⟨v.toNat, v.toNat_lt⟩
  rwa [UInt8.ofNat_toNat] at hv

/-- A mask of `n` ones above `k` zeros keeps `n` binary digits of a number in their places. -/
theorem and_mask (x n k : Nat) : x &&& (2 ^ n - 1) * 2 ^ k = x / 2 ^ k % 2 ^ n * 2 ^ k := by
  apply Nat.eq_of_testBit_eq
  intro i
  rw [← Nat.shiftLeft_eq, ← Nat.shiftLeft_eq, ← Nat.shiftRight_eq_div_pow]
  by_cases hk : k ≤ i
  · simp [hk, Nat.testBit_and, Nat.testBit_shiftLeft, Nat.testBit_two_pow_sub_one,
      Nat.testBit_mod_two_pow, Nat.testBit_shiftRight, Bool.and_comm]
  · simp [hk, Nat.testBit_and, Nat.testBit_shiftLeft]

/-- A mask of as many ones leaves a word of `n` binary digits as it is. -/
theorem ofNat_and_mask {n x : Nat} (hn : n ≤ 16) (h : x < 2 ^ n) :
    UInt16.ofNat x &&& .ofNat (2 ^ n - 1) = .ofNat x := by
  have hword : 2 ^ n ≤ 2 ^ 16 := Nat.pow_le_pow_right (by decide) hn
  apply UInt16.toNat_inj.mp
  rw [UInt16.toNat_and, UInt16.toNat_ofNat', UInt16.toNat_ofNat',
    Nat.mod_eq_of_lt (by omega : x < 2 ^ 16), Nat.mod_eq_of_lt (by omega : 2 ^ n - 1 < 2 ^ 16)]
  exact Nat.and_two_pow_sub_one_of_lt_two_pow h

/-- Of two numbers with no binary digit in common, one on top of the other is the sum. -/
theorem or_mul_two_pow {x k : Nat} (y : Nat) (h : x < 2 ^ k) : x ||| y * 2 ^ k = x + y * 2 ^ k := by
  rw [Nat.or_comm, ← Nat.shiftLeft_eq, ← Nat.shiftLeft_add_eq_or_of_lt h, Nat.add_comm]

/-- The topmost digit of a word of `n + 1` digits moved up by `k` places. -/
theorem top_digit (w : Nat) {n k : Nat} (hk : k ≤ n) :
    w * 2 ^ k % 2 ^ (n + 1) / 2 ^ n = w / 2 ^ (n - k) % 2 := by
  have hword : 2 ^ (n + 1) = 2 ^ (n - k) * 2 * 2 ^ k := by
    rw [← Nat.pow_succ, ← Nat.pow_add, show n - k + 1 + k = n + 1 by omega]
  have htop : 2 ^ n = 2 ^ (n - k) * 2 ^ k := by
    rw [← Nat.pow_add, show n - k + k = n by omega]
  rw [hword, Nat.mul_mod_mul_right, htop, Nat.mul_div_mul_right _ _ (Nat.two_pow_pos k),
    Nat.mod_mul_right_div_self]

/-- Two digits put into a byte. -/
theorem two_bits (u v : UInt8) (hu : u.toNat < 2) (hv : v.toNat < 2) :
    (u ||| (v <<< (1 : UInt8))).toNat = u.toNat + 2 * v.toNat := by
  rw [UInt8.toNat_or, UInt8.toNat_shiftLeft, Nat.shiftLeft_eq]
  show u.toNat ||| v.toNat * 2 ^ 1 % 256 = _
  rw [Nat.mod_eq_of_lt (by omega), or_mul_two_pow _ hu]
  omega

theorem xor_one {n : Nat} (h : n < 2) : n ^^^ 1 = 1 - n := by
  rcases (by omega : n = 0 ∨ n = 1) with rfl | rfl <;> rfl

/-- The `n` binary digits of a word that stand above its lowest `k`. -/
def field (v : UInt16) (k n : Nat) : Nat := v.toNat / 2 ^ k % 2 ^ n

theorem field_lt (v : UInt16) (k n : Nat) : field v k n < 2 ^ n := Nat.mod_lt _ (Nat.two_pow_pos n)

theorem field_and (v w : UInt16) (k n : Nat) : field (v &&& w) k n = field v k n &&& field w k n := by
  simp only [field, UInt16.toNat_and, Nat.and_div_two_pow, Nat.and_mod_two_pow]

theorem field_or (v w : UInt16) (k n : Nat) : field (v ||| w) k n = field v k n ||| field w k n := by
  simp only [field, UInt16.toNat_or, Nat.or_div_two_pow, Nat.or_mod_two_pow]

theorem field_xor (v w : UInt16) (k n : Nat) : field (v ^^^ w) k n = field v k n ^^^ field w k n := by
  simp only [field, UInt16.toNat_xor, Nat.xor_div_two_pow, Nat.xor_mod_two_pow]

/-- A mask that has only ones in a field leaves the field as it is. -/
theorem field_and_ones (v m : UInt16) (k n : Nat) (h : field m k n = 2 ^ n - 1) :
    field (v &&& m) k n = field v k n := by
  rw [field_and, h, Nat.and_two_pow_sub_one_of_lt_two_pow (field_lt v k n)]

/-- A mask that has only zeros in a field clears the field. -/
theorem field_and_zeros (v m : UInt16) (k n : Nat) (h : field m k n = 0) :
    field (v &&& m) k n = 0 := by
  rw [field_and, h, Nat.and_zero]

end Famicom
