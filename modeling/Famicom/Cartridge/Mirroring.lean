/-
  How the two kilobytes of name-table memory answer for four name tables.
-/

namespace Famicom

/-- The wiring of a cartridge decides which pairs of name tables share memory. -/
inductive Mirroring where
  /-- The upper two tables are one, the lower two another. -/
  | horizontal
  /-- The left two tables are one, the right two another. -/
  | vertical
  deriving DecidableEq, Repr, Inhabited

namespace Mirroring

/-- The byte of name-table memory that a picture address stands for. -/
def vramIndex : Mirroring → UInt16 → UInt16
  | horizontal, addr => (addr &&& 0x03FF) ||| ((addr &&& 0x0800) >>> (1 : UInt16))
  | vertical, addr => addr &&& 0x07FF

/-- Every picture address falls into the two kilobytes. -/
theorem vramIndex_lt (m : Mirroring) (addr : UInt16) : (m.vramIndex addr).toNat < 0x800 := by
  cases m
  · have h₁ : (addr &&& 0x03FF).toNat < 2 ^ 11 := by
      rw [UInt16.toNat_and]; exact Nat.lt_of_le_of_lt Nat.and_le_right (by decide)
    have h₂ : ((addr &&& 0x0800) >>> 1).toNat < 2 ^ 11 := by
      rw [UInt16.toNat_shiftRight, UInt16.toNat_and]
      have : addr.toNat &&& 0x0800 ≤ 0x0800 := Nat.and_le_right
      show (addr.toNat &&& 0x0800) >>> 1 < 2 ^ 11
      rw [Nat.shiftRight_eq_div_pow]; omega
    show (_ ||| _ : UInt16).toNat < 2 ^ 11
    rw [UInt16.toNat_or]
    exact Nat.or_lt_two_pow h₁ h₂
  · show (addr &&& 0x07FF).toNat < 0x800
    rw [UInt16.toNat_and]; exact Nat.lt_of_le_of_lt Nat.and_le_right (by decide)

end Mirroring

end Famicom
