/-
  The ratio of two rates as a whole number of units: where the rounding goes up, and where it does not.

  The ratio is rounded to 53 significant bits, to the nearest, and then up to a whole number.  How much a
  significant bit is worth depends on the size of the ratio.

  1. **Significant bits** (`Binade`): the exponent that puts a quotient between 2^52 and 2^53.  There is one
     (`exists_binade`), and the rounding comes to the quotient rounded there (`ceil_ofQuotient`), also where
     it carries into the next.
  2. **The units in closed form.**  Below the clock there are bits for a fraction (`units_below`): the
     whole number is the one above, unless the fraction is at most half of the last bit and is lost.  From
     the clock on the bits end at the units or above them (`units_above`).
  3. **Rounded up** (`RoundedUp`): what the closed forms ask of the remainder (`roundedUp_below`,
     `roundedUp_above`).

  Main statement beside these: the units fit their 64 bits iff there are fewer than 4096 samples to a clock
  (`unitsPerClock?_eq_none_iff`).
-/
import Mathlib.Tactic.Ring
import Famicom.Resampler.Ratio

namespace Famicom

namespace Resampler

/-! ## Rounding to the nearest -/

section

variable {num den m n : Nat}

theorem div_le_roundHalfEven (num den : Nat) : num / den ≤ roundHalfEven num den := by
  unfold roundHalfEven
  dsimp only
  split
  · exact Nat.le_refl _
  · exact Nat.le_succ _

theorem roundHalfEven_le_succ (num den : Nat) : roundHalfEven num den ≤ num / den + 1 := by
  unfold roundHalfEven
  dsimp only
  split
  · exact Nat.le_succ _
  · exact Nat.le_refl _

/-- A quotient below a whole number is not rounded past it. -/
theorem roundHalfEven_le (h : num < den * m) : roundHalfEven num den ≤ m :=
  Nat.le_trans (roundHalfEven_le_succ num den) (Nat.div_lt_of_lt_mul h)

/-- Less than half away, a whole number is what is rounded to. -/
theorem roundHalfEven_eq_of_near (hd : 0 < den) (hlo : 2 * den * m < 2 * num + den)
    (hhi : 2 * num < 2 * den * m + den) : roundHalfEven num den = m := by
  have hle := two_mul_roundHalfEven_le num den
  have hge := le_two_mul_roundHalfEven num den hd
  rcases Nat.lt_trichotomy (roundHalfEven num den) m with h | h | h
  · have hstep := Nat.mul_le_mul_left (2 * den) (Nat.succ_le_of_lt h)
    rw [Nat.succ_eq_add_one, Nat.mul_add] at hstep
    omega
  · exact h
  · have hstep := Nat.mul_le_mul_left (2 * den) (Nat.succ_le_of_lt h)
    rw [Nat.succ_eq_add_one, Nat.mul_add] at hstep
    omega

/-- An even number beside the quotient has no part in the rounding. -/
theorem roundHalfEven_even_add (hd : 0 < den) (hm : m % 2 = 0) :
    roundHalfEven (den * m + n) den = m + roundHalfEven n den := by
  have hdiv : (den * m + n) / den = m + n / den := Nat.mul_add_div hd m n
  have hmod : (den * m + n) % den = n % den := Nat.mul_add_mod _ _ _
  have hparity : (m + n / den) % 2 = n / den % 2 := by omega
  unfold roundHalfEven
  dsimp only
  rw [hdiv, hmod, hparity]
  split
  · rfl
  · exact Nat.add_assoc _ _ _

/-- Up to a half is rounded to nothing. -/
theorem roundHalfEven_eq_zero_iff (hd : 0 < den) : roundHalfEven n den = 0 ↔ 2 * n ≤ den := by
  constructor
  · intro h
    have hge := le_two_mul_roundHalfEven n den hd
    rw [h, Nat.mul_zero] at hge
    omega
  · intro h
    have hdiv : n / den = 0 := Nat.div_eq_of_lt (by omega)
    have hmod : n % den = n := Nat.mod_eq_of_lt (by omega)
    unfold roundHalfEven
    dsimp only
    rw [hdiv, hmod, if_pos (by omega)]

end

/-! ## Significant bits

  A quotient is rounded to 53 significant bits, so what the rounding costs is a matter of the
  quotient's size: the more bits before the point, the fewer behind it. -/

/-- Divided by this power of two the quotient has 53 bits before the point. -/
structure Binade (num den : Nat) (e : Int) : Prop where
  le : 2 ^ 52 * (den * 2 ^ e.toNat) ≤ num * 2 ^ (-e).toNat
  lt : num * 2 ^ (-e).toNat < 2 ^ 53 * (den * 2 ^ e.toNat)

theorem toNat_neg_ofNat (k : Nat) : (-(Int.ofNat k)).toNat = 0 :=
  Int.toNat_of_nonpos (Int.neg_nonpos_of_nonneg (Int.natCast_nonneg k))

namespace Dyadic

theorem atExponent_eq (num den : Nat) (e : Int) : atExponent num den e =
    ⟨roundHalfEven (num * 2 ^ (-e).toNat) (den * 2 ^ e.toNat), e⟩ := by
  cases e with
  | ofNat k =>
    rw [toNat_neg_ofNat]
    simp [atExponent, Nat.shiftLeft_eq]
  | negSucc k =>
    have h : (Int.negSucc k).toNat = 0 := rfl
    rw [h]
    simp [atExponent, Nat.shiftLeft_eq]

theorem ceil_atExponent_ofNat (num den k : Nat) :
    (atExponent num den (.ofNat k)).ceil = roundHalfEven num (den * 2 ^ k) * 2 ^ k := by
  simp [atExponent, ceil, Nat.shiftLeft_eq]

theorem ceil_atExponent_negSucc (num den k : Nat) : (atExponent num den (.negSucc k)).ceil =
    (roundHalfEven (num * 2 ^ (k + 1)) den + 2 ^ (k + 1) - 1) / 2 ^ (k + 1) := by
  simp [atExponent, ceil, Nat.shiftLeft_eq, Nat.shiftRight_eq_div_pow]

/-- Twice as much with half the place is the same whole number. -/
theorem ceil_carry (m : Nat) (e : Int) : ceil ⟨2 * m, e⟩ = ceil ⟨m, e + 1⟩ := by
  rcases e with k | _ | k
  · show (2 * m) <<< k = m <<< (k + 1)
    rw [Nat.shiftLeft_eq, Nat.shiftLeft_eq]
    ring
  · show (2 * m + 1 <<< 1 - 1) >>> 1 = m <<< 0
    rw [Nat.shiftRight_eq_div_pow]
    omega
  · show (2 * m + 1 <<< (k + 2) - 1) >>> (k + 2) = (m + 1 <<< (k + 1) - 1) >>> (k + 1)
    have hpos : 0 < 2 ^ (k + 1) := Nat.two_pow_pos _
    have hhalf : (2 * m + 2 ^ (k + 1) * 2 - 1) / 2 = m + 2 ^ (k + 1) - 1 := by omega
    rw [Nat.shiftRight_eq_div_pow, Nat.shiftRight_eq_div_pow, Nat.shiftLeft_eq, Nat.shiftLeft_eq,
      Nat.one_mul, Nat.one_mul, ← hhalf, Nat.div_div_eq_div_mul, Nat.mul_comm 2 (2 ^ (k + 1))]
    rfl

end Dyadic

variable {num den : Nat} {e : Int}

/-- One place up, the numerator is halved or the denominator doubled. -/
theorem scale_succ (num den : Nat) (e : Int) :
    (num * 2 ^ (-(e + 1)).toNat = num * 2 ^ (-e).toNat ∧
      den * 2 ^ (e + 1).toNat = 2 * (den * 2 ^ e.toNat)) ∨
    (num * 2 ^ (-e).toNat = 2 * (num * 2 ^ (-(e + 1)).toNat) ∧
      den * 2 ^ (e + 1).toNat = den * 2 ^ e.toNat) := by
  rcases Int.lt_or_le e 0 with h | h
  · refine .inr ⟨?_, ?_⟩
    · rw [show (-e).toNat = (-(e + 1)).toNat + 1 by omega, Nat.pow_succ]
      ring
    · rw [show (e + 1).toNat = e.toNat by omega]
  · refine .inl ⟨?_, ?_⟩
    · rw [show (-(e + 1)).toNat = (-e).toNat by omega]
    · rw [show (e + 1).toNat = e.toNat + 1 by omega, Nat.pow_succ]
      ring

theorem two_pow_log2_add_le {n : Nat} (hn : 0 < n) (k : Nat) : 2 ^ (n.log2 + k) ≤ n * 2 ^ k := by
  rw [Nat.pow_add]
  exact Nat.mul_le_mul_right _ (Nat.log2_self_le (Nat.ne_of_gt hn))

theorem lt_two_pow_log2_add (n k : Nat) : n * 2 ^ k < 2 ^ (n.log2 + 1 + k) := by
  rw [Nat.pow_add]
  exact Nat.mul_lt_mul_of_pos_right Nat.lt_log2_self (Nat.two_pow_pos _)

/-- The logarithms give the exponent but for one. -/
theorem Binade.exponent (h : Binade num den e) (hd : 0 < den) :
    e = num.log2 - den.log2 - 53 ∨ e = num.log2 - den.log2 - 53 + 1 := by
  obtain ⟨hle, hlt⟩ := h
  have hn : 0 < num := by
    rcases Nat.eq_zero_or_pos num with rfl | hn
    · have : 0 < den * 2 ^ e.toNat := Nat.mul_pos hd (Nat.two_pow_pos _)
      omega
    · exact hn
  have hlow : 2 ^ (52 + (den.log2 + e.toNat)) < 2 ^ (num.log2 + 1 + (-e).toNat) := by
    rw [Nat.pow_add 2 52]
    calc 2 ^ 52 * 2 ^ (den.log2 + e.toNat)
        ≤ 2 ^ 52 * (den * 2 ^ e.toNat) := Nat.mul_le_mul_left _ (two_pow_log2_add_le hd _)
      _ ≤ num * 2 ^ (-e).toNat := hle
      _ < 2 ^ (num.log2 + 1 + (-e).toNat) := lt_two_pow_log2_add num _
  have hhigh : 2 ^ (num.log2 + (-e).toNat) < 2 ^ (53 + (den.log2 + 1 + e.toNat)) := by
    rw [Nat.pow_add 2 53]
    calc 2 ^ (num.log2 + (-e).toNat)
        ≤ num * 2 ^ (-e).toNat := two_pow_log2_add_le hn _
      _ < 2 ^ 53 * (den * 2 ^ e.toNat) := hlt
      _ ≤ 2 ^ 53 * 2 ^ (den.log2 + 1 + e.toNat) :=
        Nat.mul_le_mul_left _ (Nat.le_of_lt (lt_two_pow_log2_add den _))
  have hlow := (Nat.pow_lt_pow_iff_right (by decide)).mp hlow
  have hhigh := (Nat.pow_lt_pow_iff_right (by decide)).mp hhigh
  omega

/-- Every quotient has its exponent. -/
theorem exists_binade (hn : 0 < num) (hd : 0 < den) : ∃ e, Binade num den e := by
  -- at the exponent of the logarithms the quotient is above 2^52, and below 2^54
  obtain ⟨e, he⟩ : ∃ e : Int, e = num.log2 - den.log2 - 53 := ⟨_, rfl⟩
  have hlow : 2 ^ 52 * (den * 2 ^ e.toNat) ≤ num * 2 ^ (-e).toNat := by
    have hpow : 52 + (den.log2 + 1 + e.toNat) = num.log2 + (-e).toNat := by omega
    calc 2 ^ 52 * (den * 2 ^ e.toNat)
        ≤ 2 ^ 52 * 2 ^ (den.log2 + 1 + e.toNat) :=
          Nat.mul_le_mul_left _ (Nat.le_of_lt (lt_two_pow_log2_add den _))
      _ = 2 ^ (num.log2 + (-e).toNat) := by rw [← Nat.pow_add, hpow]
      _ ≤ num * 2 ^ (-e).toNat := two_pow_log2_add_le hn _
  have hhigh : num * 2 ^ (-e).toNat < 2 ^ 54 * (den * 2 ^ e.toNat) := by
    have hpow : num.log2 + 1 + (-e).toNat = 54 + (den.log2 + e.toNat) := by omega
    calc num * 2 ^ (-e).toNat
        < 2 ^ (num.log2 + 1 + (-e).toNat) := lt_two_pow_log2_add num _
      _ = 2 ^ 54 * 2 ^ (den.log2 + e.toNat) := by rw [hpow, Nat.pow_add]
      _ ≤ 2 ^ 54 * (den * 2 ^ e.toNat) := Nat.mul_le_mul_left _ (two_pow_log2_add_le hd _)
  rcases Nat.lt_or_ge (num * 2 ^ (-e).toNat) (2 ^ 53 * (den * 2 ^ e.toNat)) with h | h
  · exact ⟨e, hlow, h⟩
  · have hscale := scale_succ num den e
    exact ⟨e + 1, by omega, by omega⟩

/-- What the rounding comes to is the quotient rounded at its exponent. -/
theorem ceil_ofQuotient (h : Binade num den e) (hd : 0 < den) :
    (Dyadic.ofQuotient num den).ceil = (Dyadic.atExponent num den e).ceil := by
  have hscale := scale_succ num den
  have hpos : ∀ e : Int, 0 < den * 2 ^ e.toNat := fun e => Nat.mul_pos hd (Nat.two_pow_pos _)
  unfold Dyadic.ofQuotient
  dsimp only
  rcases h.exponent hd with rfl | he
  · obtain ⟨-, hlt⟩ := h
    generalize (num.log2 : Int) - den.log2 - 53 = e at hlt ⊢
    split
    · next hcarry =>
      -- the significand has been rounded up to 2^53, and one place up it is 2^52
      rw [Dyadic.atExponent_eq] at hcarry
      have hsig : roundHalfEven (num * 2 ^ (-e).toNat) (den * 2 ^ e.toNat) = 2 * 2 ^ 52 := by
        have hlt : num * 2 ^ (-e).toNat < den * 2 ^ e.toNat * (2 * 2 ^ 52) := by omega
        exact Nat.le_antisymm (roundHalfEven_le hlt) hcarry
      have hnear := two_mul_roundHalfEven_le (num * 2 ^ (-e).toNat) (den * 2 ^ e.toNat)
      rw [hsig] at hnear
      have hnext : roundHalfEven (num * 2 ^ (-(e + 1)).toNat) (den * 2 ^ (e + 1).toNat) = 2 ^ 52 := by
        have hpos := hpos (e + 1)
        refine roundHalfEven_eq_of_near hpos ?_ ?_
        · rcases hscale e with ⟨hnum, hden⟩ | ⟨hnum, hden⟩ <;> omega
        · rcases hscale e with ⟨hnum, hden⟩ | ⟨hnum, hden⟩ <;> omega
      rw [Dyadic.atExponent_eq, Dyadic.atExponent_eq, hsig, hnext, Dyadic.ceil_carry]
    · rfl
  · -- at the exponent of the logarithms the quotient still has 54 bits
    obtain ⟨hle, -⟩ := h
    rw [he] at hle ⊢
    generalize (num.log2 : Int) - den.log2 - 53 = e at hle ⊢
    have hpos := hpos e
    have hsig : 1 <<< 53 ≤ (Dyadic.atExponent num den e).significand := by
      rw [Dyadic.atExponent_eq]
      refine Nat.le_trans ?_ (div_le_roundHalfEven _ _)
      rw [Nat.le_div_iff_mul_le hpos]
      show 2 ^ 53 * (den * 2 ^ e.toNat) ≤ _
      rcases hscale e with ⟨hnum, hden⟩ | ⟨hnum, hden⟩ <;> omega
    rw [if_pos hsig]

/-! ## What the rounding may cost -/

/-- What is rounded to a fraction of a unit, and then up, is the exact quotient but for half a unit
    and a whole one. -/
theorem ceilDiv_bounds {num den q p : Nat} (hp : 0 < p) (hle : 2 * den * q ≤ 2 * (num * p) + den)
    (hge : 2 * (num * p) ≤ 2 * den * q + den) :
    2 * num ≤ 2 * den * ((q + p - 1) / p) + den ∧
      2 * den * ((q + p - 1) / p) ≤ 2 * num + 2 * den := by
  generalize hu : (q + p - 1) / p = u
  have hlo : q ≤ p * u := by
    have := Nat.lt_mul_div_succ (q + p - 1) hp
    rw [hu, Nat.mul_add] at this
    omega
  have hhi : p * u + 1 ≤ q + p := by
    have := Nat.mul_div_le (q + p - 1) p
    rw [hu] at this
    omega
  constructor
  · refine Nat.le_of_mul_le_mul_left ?_ hp
    calc p * (2 * num) = 2 * (num * p) := by ring
      _ ≤ 2 * den * q + den := hge
      _ ≤ 2 * den * (p * u) + den * p :=
        Nat.add_le_add (Nat.mul_le_mul_left _ hlo) (Nat.le_mul_of_pos_right _ hp)
      _ = p * (2 * den * u + den) := by ring
  · refine Nat.le_of_mul_le_mul_left ?_ hp
    have h := Nat.mul_le_mul_left (2 * den) hhi
    calc p * (2 * den * u) = 2 * den * (p * u) := by ring
      _ ≤ 2 * den * (q + p) - den := by rw [Nat.mul_add] at h; omega
      _ ≤ 2 * (num * p) + 2 * den * p := by rw [Nat.mul_add]; omega
      _ = p * (2 * num + 2 * den) := by ring

/-- Rounding up from a place that is not far above the units adds few of them. -/
theorem ceil_atExponent_le (num den : Nat) {e : Int} (hd : 0 < den) (he : e ≤ 11) :
    2 * den * (Dyadic.atExponent num den e).ceil ≤ 2 * num + den * 2 ^ 12 := by
  cases e with
  | ofNat k =>
    have hk : k ≤ 11 := Int.ofNat_le.mp he
    have hr := two_mul_roundHalfEven_le num (den * 2 ^ k)
    have hpow : den * 2 ^ k ≤ den * 2 ^ 12 :=
      Nat.mul_le_mul_left den (Nat.pow_le_pow_right (by decide) (by omega))
    rw [Dyadic.ceil_atExponent_ofNat]
    calc 2 * den * (roundHalfEven num (den * 2 ^ k) * 2 ^ k)
        = 2 * (den * 2 ^ k) * roundHalfEven num (den * 2 ^ k) := by ring
      _ ≤ 2 * num + den * 2 ^ k := hr
      _ ≤ 2 * num + den * 2 ^ 12 := Nat.add_le_add_left hpow _
  | negSucc k =>
    have hle := two_mul_roundHalfEven_le (num * 2 ^ (k + 1)) den
    have hge := le_two_mul_roundHalfEven (num * 2 ^ (k + 1)) den hd
    obtain ⟨-, hhi⟩ := ceilDiv_bounds Nat.one_le_two_pow hle hge
    rw [Dyadic.ceil_atExponent_negSucc]
    omega

/-! ## The units in closed form -/

section

variable {clockRate sampleRate k : Nat}

/-- The units of a clock, whether or not they fit their 64 bits. -/
def roundedUnits (clockRate sampleRate : Nat) : Nat :=
  (Dyadic.ofQuotient (2 ^ 52 * sampleRate) clockRate).ceil

theorem unitsPerClock?_eq (clockRate sampleRate : Nat) : unitsPerClock? clockRate sampleRate =
    if roundedUnits clockRate sampleRate < 2 ^ 64 then some (roundedUnits clockRate sampleRate)
    else none := rfl

/-- The exponent is negative below the clock. -/
theorem binade_negSucc_iff : Binade (2 ^ 52 * sampleRate) clockRate (.negSucc k) ↔
    clockRate ≤ sampleRate * 2 ^ (k + 1) ∧ sampleRate * 2 ^ (k + 1) < 2 * clockRate := by
  have hnum : 2 ^ 52 * sampleRate * 2 ^ (-(Int.negSucc k)).toNat =
      2 ^ 52 * (sampleRate * 2 ^ (k + 1)) := Nat.mul_assoc _ _ _
  have hden : clockRate * 2 ^ (Int.negSucc k).toNat = clockRate := Nat.mul_one _
  constructor
  · rintro ⟨hle, hlt⟩
    rw [hnum, hden] at hle hlt
    exact ⟨by omega, by omega⟩
  · rintro ⟨hlo, hhi⟩
    constructor
    · rw [hnum, hden]
      exact Nat.mul_le_mul_left _ hlo
    · rw [hnum, hden]
      omega

/-- From the clock on it is not. -/
theorem binade_ofNat_iff : Binade (2 ^ 52 * sampleRate) clockRate (.ofNat k) ↔
    clockRate * 2 ^ k ≤ sampleRate ∧ sampleRate < 2 * (clockRate * 2 ^ k) := by
  have hnum : 2 ^ 52 * sampleRate * 2 ^ (-(Int.ofNat k)).toNat = 2 ^ 52 * sampleRate := by
    rw [toNat_neg_ofNat]
    exact Nat.mul_one _
  have hden : clockRate * 2 ^ (Int.ofNat k).toNat = clockRate * 2 ^ k := rfl
  constructor
  · rintro ⟨hle, hlt⟩
    rw [hnum, hden] at hle hlt
    exact ⟨by omega, by omega⟩
  · rintro ⟨hlo, hhi⟩
    constructor
    · rw [hnum, hden]
      exact Nat.mul_le_mul_left _ hlo
    · rw [hnum, hden]
      omega

/-- Below the clock a fraction of a unit counts as a whole one, unless it is at most half of the last
    significant bit. -/
theorem units_below (hlo : clockRate ≤ sampleRate * 2 ^ (k + 1))
    (hhi : sampleRate * 2 ^ (k + 1) < 2 * clockRate) :
    roundedUnits clockRate sampleRate = 2 ^ 52 * sampleRate / clockRate +
      if 2 ^ (k + 2) * (2 ^ 52 * sampleRate % clockRate) ≤ clockRate then 0 else 1 := by
  have hc : 0 < clockRate := by omega
  have hbinade := binade_negSucc_iff.mpr ⟨hlo, hhi⟩
  have hdiv := Nat.div_add_mod (2 ^ 52 * sampleRate) clockRate
  have hmod := Nat.mod_lt (2 ^ 52 * sampleRate) hc
  rw [roundedUnits, ceil_ofQuotient hbinade hc, Dyadic.ceil_atExponent_negSucc]
  generalize 2 ^ 52 * sampleRate / clockRate = q at hdiv ⊢
  generalize 2 ^ 52 * sampleRate % clockRate = x at hdiv hmod ⊢
  have heven : q * 2 ^ (k + 1) % 2 = 0 := by
    rw [Nat.pow_succ, ← Nat.mul_assoc]
    exact Nat.mul_mod_left _ _
  have hnum : 2 ^ 52 * sampleRate * 2 ^ (k + 1) =
      clockRate * (q * 2 ^ (k + 1)) + x * 2 ^ (k + 1) := by
    rw [← hdiv]
    ring
  have hpos : 0 < 2 ^ (k + 1) := Nat.two_pow_pos _
  have hfraction : roundHalfEven (x * 2 ^ (k + 1)) clockRate ≤ 2 ^ (k + 1) :=
    roundHalfEven_le (Nat.mul_lt_mul_of_pos_right hmod hpos)
  have hlost := roundHalfEven_eq_zero_iff (n := x * 2 ^ (k + 1)) hc
  rw [show 2 * (x * 2 ^ (k + 1)) = 2 ^ (k + 2) * x by ring] at hlost
  rw [hnum, roundHalfEven_even_add hc heven, Nat.add_assoc, Nat.add_sub_assoc (by omega),
    Nat.mul_comm q, Nat.mul_add_div hpos]
  congr 1
  split
  · next h =>
    rw [hlost.mpr h, Nat.zero_add]
    exact Nat.div_eq_of_lt (by omega)
  · next h =>
    have := mt hlost.mp h
    exact Nat.div_eq_of_lt_le (by omega) (by omega)

/-- From the clock on the nearest multiple of a power of two is taken; up to twice the clock that is the
    nearest unit. -/
theorem units_above (hlo : clockRate * 2 ^ k ≤ sampleRate) (hhi : sampleRate < 2 * (clockRate * 2 ^ k)) :
    roundedUnits clockRate sampleRate =
      roundHalfEven (2 ^ 52 * sampleRate) (clockRate * 2 ^ k) * 2 ^ k := by
  have hc : 0 < clockRate := Nat.pos_of_ne_zero (by rintro rfl; omega)
  have hbinade := binade_ofNat_iff.mpr ⟨hlo, hhi⟩
  rw [roundedUnits, ceil_ofQuotient hbinade hc, Dyadic.ceil_atExponent_ofNat]

/-- Every pair of rates has one of the two sizes. -/
theorem exists_size (hc : 0 < clockRate) (hs : 0 < sampleRate) :
    (∃ k, clockRate ≤ sampleRate * 2 ^ (k + 1) ∧ sampleRate * 2 ^ (k + 1) < 2 * clockRate) ∨
      ∃ k, clockRate * 2 ^ k ≤ sampleRate ∧ sampleRate < 2 * (clockRate * 2 ^ k) := by
  obtain ⟨e, hbinade⟩ := exists_binade (show 0 < 2 ^ 52 * sampleRate by omega) hc
  cases e with
  | ofNat k => exact .inr ⟨k, binade_ofNat_iff.mp hbinade⟩
  | negSucc k => exact .inl ⟨k, binade_negSucc_iff.mp hbinade⟩

theorem roundedUnits_pos (hc : 0 < clockRate) (hs : 0 < sampleRate) :
    0 < roundedUnits clockRate sampleRate := by
  rcases exists_size hc hs with ⟨k, hlo, hhi⟩ | ⟨k, hlo, hhi⟩
  · rw [units_below hlo hhi]
    split
    · next h =>
      have hdiv := Nat.div_add_mod (2 ^ 52 * sampleRate) clockRate
      have hlarge : 2 ^ (k + 2) * (2 ^ 52 * sampleRate) = 2 ^ 53 * (sampleRate * 2 ^ (k + 1)) := by ring
      by_contra hzero
      -- the remainder is all of the numerator, which is much more than half of the last bit
      have hzero := Nat.eq_zero_of_not_pos hzero
      rw [Nat.add_zero] at hzero
      rw [hzero, Nat.mul_zero, Nat.zero_add] at hdiv
      rw [hdiv] at h
      omega
    · exact Nat.succ_pos _
  · rw [units_above hlo hhi]
    have hround := div_le_roundHalfEven (2 ^ 52 * sampleRate) (clockRate * 2 ^ k)
    have hdiv : 0 < 2 ^ 52 * sampleRate / (clockRate * 2 ^ k) :=
      Nat.div_pos (by omega) (by omega)
    exact Nat.mul_pos (by omega) (Nat.two_pow_pos k)

/-! ## Rounded up

  The units are rounded up against the quotient as it was rounded.  Where that had been rounded down,
  rounding up may still stay below the exact ratio. -/

/-- The exact ratio rounded up to a whole number of units. -/
structure RoundedUp (clockRate sampleRate units : Nat) : Prop where
  le : 2 ^ 52 * sampleRate ≤ clockRate * units
  lt : clockRate * units < 2 ^ 52 * sampleRate + clockRate

/-- Below the clock the ratio is rounded up unless the fraction is lost. -/
theorem roundedUp_below (hlo : clockRate ≤ sampleRate * 2 ^ (k + 1))
    (hhi : sampleRate * 2 ^ (k + 1) < 2 * clockRate) :
    RoundedUp clockRate sampleRate (roundedUnits clockRate sampleRate) ↔
      2 ^ 52 * sampleRate % clockRate = 0 ∨
        clockRate < 2 ^ (k + 2) * (2 ^ 52 * sampleRate % clockRate) := by
  have hdiv := Nat.div_add_mod (2 ^ 52 * sampleRate) clockRate
  have hmod := Nat.mod_lt (2 ^ 52 * sampleRate) (show 0 < clockRate by omega)
  rw [units_below hlo hhi]
  generalize 2 ^ 52 * sampleRate / clockRate = q at hdiv ⊢
  generalize 2 ^ 52 * sampleRate % clockRate = x at hdiv hmod ⊢
  split
  · next h =>
    rw [Nat.add_zero]
    constructor
    · rintro ⟨hle, -⟩
      exact .inl (by omega)
    · intro hx
      exact ⟨by omega, by omega⟩
  · next h =>
    constructor
    · intro _
      exact .inr (Nat.lt_of_not_le h)
    · intro _
      have hx : x ≠ 0 := by
        rintro rfl
        exact h (Nat.zero_le _)
      have hunits := Nat.mul_add clockRate q 1
      exact ⟨by omega, by omega⟩

/-- From the clock on it is rounded up if nothing is left over, or if what is left over is at least half
    and less than a unit away. -/
theorem roundedUp_above (hlo : clockRate * 2 ^ k ≤ sampleRate)
    (hhi : sampleRate < 2 * (clockRate * 2 ^ k)) :
    RoundedUp clockRate sampleRate (roundedUnits clockRate sampleRate) ↔
      2 ^ 52 * sampleRate % (clockRate * 2 ^ k) = 0 ∨
        clockRate * 2 ^ k < 2 ^ 52 * sampleRate % (clockRate * 2 ^ k) + clockRate ∧
          (clockRate * 2 ^ k < 2 * (2 ^ 52 * sampleRate % (clockRate * 2 ^ k)) ∨
            2 * (2 ^ 52 * sampleRate % (clockRate * 2 ^ k)) = clockRate * 2 ^ k ∧
              2 ^ 52 * sampleRate / (clockRate * 2 ^ k) % 2 = 1) := by
  have hc : 0 < clockRate := Nat.pos_of_ne_zero (by rintro rfl; omega)
  have hdiv := Nat.div_add_mod (2 ^ 52 * sampleRate) (clockRate * 2 ^ k)
  have hmod := Nat.mod_lt (2 ^ 52 * sampleRate) (show 0 < clockRate * 2 ^ k by omega)
  rw [units_above hlo hhi, roundHalfEven]
  generalize 2 ^ 52 * sampleRate / (clockRate * 2 ^ k) = q at hdiv ⊢
  generalize 2 ^ 52 * sampleRate % (clockRate * 2 ^ k) = x at hdiv hmod ⊢
  have hunits : ∀ n, clockRate * (n * 2 ^ k) = clockRate * 2 ^ k * n := fun n => by ring
  split
  · next h =>
    have hunits := hunits q
    constructor
    · rintro ⟨hle, -⟩
      exact .inl (by omega)
    · rintro (hx | hx)
      · exact ⟨by omega, by omega⟩
      · omega
  · next h =>
    have hunits := hunits (q + 1)
    rw [Nat.mul_add _ q 1] at hunits
    constructor
    · rintro ⟨-, hlt⟩
      exact .inr ⟨by omega, by omega⟩
    · rintro (hx | hx)
      · omega
      · exact ⟨by omega, by omega⟩

/-! ## What fits 64 bits -/

/-- The units fit unless there are 4096 samples to a clock. -/
theorem unitsPerClock?_eq_none_iff (hlt : clockRate < 2 ^ 32) (hc : 0 < clockRate) (hs : 0 < sampleRate) :
    unitsPerClock? clockRate sampleRate = none ↔ 4096 * clockRate ≤ sampleRate := by
  obtain ⟨e, hbinade⟩ := exists_binade (show 0 < 2 ^ 52 * sampleRate by omega) hc
  have hunits : roundedUnits clockRate sampleRate =
      (Dyadic.atExponent (2 ^ 52 * sampleRate) clockRate e).ceil := ceil_ofQuotient hbinade hc
  rw [unitsPerClock?_eq, hunits]
  rcases Int.lt_or_le 11 e with he | he
  · -- 53 bits that end at 2^12 or higher
    obtain ⟨k, hk, rfl⟩ : ∃ k : Nat, 12 ≤ k ∧ e = .ofNat k :=
      ⟨e.toNat, by omega, (Int.toNat_of_nonneg (by omega)).symm⟩
    have hlow := hbinade.le
    rw [toNat_neg_ofNat, Nat.pow_zero, Nat.mul_one] at hlow
    have hpow : 2 ^ 12 ≤ 2 ^ k := Nat.pow_le_pow_right (by decide) hk
    have hrate : clockRate * 2 ^ 12 ≤ clockRate * 2 ^ k := Nat.mul_le_mul_left _ hpow
    have hround : 2 ^ 52 ≤ roundHalfEven (2 ^ 52 * sampleRate) (clockRate * 2 ^ k) := by
      refine Nat.le_trans ?_ (div_le_roundHalfEven _ _)
      exact (Nat.le_div_iff_mul_le (by omega)).mpr hlow
    have hlarge : 2 ^ 52 * 2 ^ 12 ≤ roundHalfEven (2 ^ 52 * sampleRate) (clockRate * 2 ^ k) * 2 ^ k :=
      Nat.mul_le_mul hround hpow
    rw [Dyadic.ceil_atExponent_ofNat, if_neg (by omega)]
    have hlow : 2 ^ 52 * (clockRate * 2 ^ k) ≤ 2 ^ 52 * sampleRate := hlow
    exact iff_of_true rfl (by omega)
  · have hhigh : sampleRate < 4096 * clockRate := by
      have hpow : clockRate * 2 ^ e.toNat ≤ clockRate * 2 ^ 11 :=
        Nat.mul_le_mul_left _ (Nat.pow_le_pow_right (by decide) (by omega))
      have hnum : 2 ^ 52 * sampleRate ≤ 2 ^ 52 * sampleRate * 2 ^ (-e).toNat :=
        Nat.le_mul_of_pos_right _ (Nat.two_pow_pos _)
      have := hbinade.lt
      omega
    have hceil := ceil_atExponent_le (2 ^ 52 * sampleRate) clockRate hc he
    have hfits : (Dyadic.atExponent (2 ^ 52 * sampleRate) clockRate e).ceil < 2 ^ 64 := by
      by_contra h
      have := Nat.mul_le_mul_left (2 * clockRate) (Nat.le_of_not_lt h)
      omega
    rw [if_pos hfits]
    exact iff_of_false (by simp) (by omega)

end

end Resampler

end Famicom
