/-
  How many output samples pass in one clock of the input, as a fixed-point number.

  The ratio of two rates is first rounded to 53 significant bits, to the nearest and ties to even, and
  then up to a whole number of units.  Main statements: `roundHalfEven` is within half a unit of the
  quotient (`two_mul_roundHalfEven_le`, `le_two_mul_roundHalfEven`).
-/

namespace Famicom.Resampler

/-- The whole number nearest to a quotient; of two equally near, the even one. -/
def roundHalfEven (num den : Nat) : Nat :=
  let q := num / den
  let r := num % den
  if 2 * r < den ∨ (2 * r = den ∧ q % 2 = 0) then q else q + 1

/-- Rounding goes up by at most half a unit. -/
theorem two_mul_roundHalfEven_le (num den : Nat) :
    2 * den * roundHalfEven num den ≤ 2 * num + den := by
  have h : den * (num / den) + num % den = num := Nat.div_add_mod num den
  unfold roundHalfEven
  simp only
  split
  · rw [Nat.mul_assoc]; omega
  · rw [Nat.mul_assoc, Nat.mul_add]; omega

/-- Rounding goes down by at most half a unit. -/
theorem le_two_mul_roundHalfEven (num den : Nat) (hd : 0 < den) :
    2 * num ≤ 2 * den * roundHalfEven num den + den := by
  have h : den * (num / den) + num % den = num := Nat.div_add_mod num den
  have hr : num % den < den := Nat.mod_lt num hd
  unfold roundHalfEven
  simp only
  split
  · rw [Nat.mul_assoc]; omega
  · rw [Nat.mul_assoc, Nat.mul_add]; omega

/-- A number `significand * 2 ^ exponent`. -/
structure Dyadic where
  significand : Nat
  exponent : Int
  deriving DecidableEq, Repr

namespace Dyadic

/-- The smallest whole number that is not below. -/
def ceil (d : Dyadic) : Nat :=
  match d.exponent with
  | .ofNat e => d.significand <<< e
  | .negSucc e => (d.significand + (1 <<< (e + 1)) - 1) >>> (e + 1)

/-- A positive quotient divided by a power of two, rounded to a whole number. -/
def atExponent (num den : Nat) (exponent : Int) : Dyadic :=
  match exponent with
  | .ofNat e => ⟨roundHalfEven num (den <<< e), exponent⟩
  | .negSucc e => ⟨roundHalfEven (num <<< (e + 1)) den, exponent⟩

/-- A positive quotient rounded to 53 significant bits.  The two logarithms give the exponent but
    for one, which the size of the significand decides. -/
def ofQuotient (num den : Nat) : Dyadic :=
  let exponent : Int := num.log2 - den.log2 - 53
  let d := atExponent num den exponent
  if 1 <<< 53 ≤ d.significand then atExponent num den (exponent + 1) else d

end Dyadic

/-- Units of time in one output sample. -/
def timeUnit : Nat := 1 <<< 52

/-- Units of time in one clock, rounded up; none where they do not fit 64 bits.  Both rates are
    positive. -/
def unitsPerClock? (clockRate sampleRate : Nat) : Option Nat :=
  let units := (Dyadic.ofQuotient (timeUnit * sampleRate) clockRate).ceil
  if units < 1 <<< 64 then some units else none

end Famicom.Resampler
