/-
  The clock of a pair of rates, and what half of it is good for.

  1. **Bounds** (`unitsPerClock?_bounds`): below the rate of the clock, the units of a clock are the
     exact ratio, at most half a unit too few and at most one too many.  The significand of the ratio
     has fraction bits there (`ofQuotient_below`), so rounding it costs half a unit, and rounding it up
     to a whole number of units the other.
  2. **Not a part of a sample** (`not_dvd_timeUnit`): the processor's rate is odd, so no whole number of
     clocks makes a sample; the bounds are too narrow for the rounding to make it so.
  3. **Carries** (`exists_carry`): the clocks that have passed, counted modulo a sample, take every
     value that their common divisor with a sample allows.  So two phases with such a value between
     them do not always have as many samples behind them.

  Main statement: after some number of clocks half a clock is not the same phase as the 2^31 units that
  a new resampler begins with (`exists_carry_half`).
-/
import Mathlib.Data.Int.GCD
import Mathlib.Data.Nat.Prime.Basic
import Famicom.Region
import Famicom.Proofs.Resampler.Rounding

namespace Famicom

namespace Resampler

/-! ## The clock is the exact ratio, but for a unit -/

/-- A quotient below 2^52 is rounded with bits to spare for a fraction. -/
theorem ofQuotient_below {num den : Nat} (hs : num + 2 ^ 52 ≤ 2 ^ 52 * den) (hd : den < 2 ^ 54) :
    ∃ k, Dyadic.ofQuotient num den = .atExponent num den (.negSucc k) := by
  have hlog : (num.log2 : Int) - den.log2 - 53 < 0 := by
    rcases Nat.eq_zero_or_pos num with rfl | h0
    · simp only [Nat.log2_zero]
      omega
    · have hn : 2 ^ num.log2 ≤ num := Nat.log2_self_le (by omega)
      have hden : den < 2 ^ (den.log2 + 1) := Nat.lt_log2_self
      have hpow : 2 ^ (den.log2 + 53) = 2 ^ 52 * 2 ^ (den.log2 + 1) := by
        rw [← Nat.pow_add]
        congr 1
        omega
      have hlt : 2 ^ num.log2 < 2 ^ (den.log2 + 53) := by omega
      have := (Nat.pow_lt_pow_iff_right (by decide)).mp hlt
      omega
  obtain ⟨k, hk⟩ := Int.eq_negSucc_of_lt_zero hlog
  unfold Dyadic.ofQuotient
  rw [hk]
  dsimp only
  split
  · next h =>
    cases k with
    | zero =>
      -- the significand can only reach 53 bits where the quotient reaches 2^52
      exfalso
      have hr := two_mul_roundHalfEven_le (num <<< 1) den
      have hq : 2 ^ 53 ≤ roundHalfEven (num <<< 1) den := h
      rw [Nat.shiftLeft_eq] at hr hq
      have := Nat.mul_le_mul_left (2 * den) hq
      omega
    | succ k => exact ⟨k, rfl⟩
  · exact ⟨k, rfl⟩

variable {clockRate sampleRate units : Nat}

/-- Below the rate of the clock, a clock is at most half a unit short of the exact ratio, and at most a
    unit over it. -/
theorem unitsPerClock?_bounds (hs : sampleRate < clockRate) (hc : clockRate < 2 ^ 54)
    (hu : unitsPerClock? clockRate sampleRate = some units) :
    2 * (2 ^ 52 * sampleRate) ≤ 2 * clockRate * units + clockRate ∧
      2 * clockRate * units ≤ 2 * (2 ^ 52 * sampleRate) + 2 * clockRate := by
  have hnum : 2 ^ 52 * sampleRate + 2 ^ 52 ≤ 2 ^ 52 * clockRate := by omega
  obtain ⟨k, hk⟩ := ofQuotient_below hnum hc
  have hunits : units = (roundHalfEven (2 ^ 52 * sampleRate * 2 ^ (k + 1)) clockRate +
      2 ^ (k + 1) - 1) / 2 ^ (k + 1) := by
    unfold unitsPerClock? at hu
    rw [show timeUnit = 2 ^ 52 from rfl, hk] at hu
    dsimp only at hu
    split at hu
    · cases hu
      exact Dyadic.ceil_atExponent_negSucc _ _ k
    · cases hu
  rw [hunits]
  exact ceilDiv_bounds Nat.one_le_two_pow (two_mul_roundHalfEven_le _ _)
    (le_two_mul_roundHalfEven _ _ (by omega))

theorem unitsPerClock?_lt_timeUnit (hs : sampleRate < clockRate) (hc : clockRate < 2 ^ 52)
    (hu : unitsPerClock? clockRate sampleRate = some units) : units < 2 ^ 52 := by
  obtain ⟨-, hhi⟩ := unitsPerClock?_bounds hs (by omega) hu
  by_contra h
  have := Nat.mul_le_mul_left (2 * clockRate) (Nat.le_of_not_lt h)
  omega

/-! ## No whole number of clocks makes a sample -/

/-- An odd clock rate has no common divisor with the units of a sample. -/
theorem eq_one_of_dvd_odd {t : Nat} (hodd : clockRate % 2 = 1) (ht : t ∣ clockRate)
    (ht' : t ∣ 2 ^ 52) : t = 1 := by
  have hcop : Nat.Coprime clockRate (2 ^ 52) := by
    refine Nat.Coprime.pow_right 52 (Nat.Coprime.symm ?_)
    exact Nat.Coprime.gcd_eq_one ((Nat.Prime.coprime_iff_not_dvd Nat.prime_two).mpr (by omega))
  exact Nat.eq_one_of_dvd_one (hcop ▸ Nat.dvd_gcd ht ht')

theorem not_dvd_timeUnit (hodd : clockRate % 2 = 1) (hs : sampleRate < clockRate)
    (hc : clockRate < 2 ^ 52) (hlarge : clockRate < units)
    (hu : unitsPerClock? clockRate sampleRate = some units) : ¬ units ∣ 2 ^ 52 := by
  rintro ⟨t, ht⟩
  obtain ⟨hlo, hhi⟩ := unitsPerClock?_bounds hs (by omega) hu
  have hexact : 2 ^ 52 * sampleRate = units * (t * sampleRate) := by rw [ht, Nat.mul_assoc]
  have hcu : 2 * clockRate * units = 2 * (units * clockRate) := by ring
  rw [hexact, hcu] at hlo hhi
  -- the bounds leave room for less than a clock on either side
  have hrate : t * sampleRate = clockRate := by
    rcases Nat.lt_trichotomy (t * sampleRate) clockRate with h | h | h
    · have := Nat.mul_le_mul_left units (show t * sampleRate + 1 ≤ clockRate from h)
      rw [Nat.mul_add] at this
      omega
    · exact h
    · have := Nat.mul_le_mul_left units (show clockRate + 1 ≤ t * sampleRate from h)
      rw [Nat.mul_add] at this
      omega
  have hone : t = 1 := eq_one_of_dvd_odd hodd ⟨_, hrate.symm⟩ ⟨units, by rw [ht, Nat.mul_comm]⟩
  subst hone
  omega

/-! ## Two phases, and the samples behind them -/

/-- Clocks can be found that bring a phase to the end of a sample, if the phase is a multiple of the
    common divisor of a clock and a sample. -/
theorem exists_mul_add_eq {m x : Nat} (hm : 0 < m) (hg : Nat.gcd units m ∣ x) :
    ∃ n t, n * units + x = m * t := by
  obtain ⟨y, rfl⟩ := hg
  have hbez := Nat.gcd_eq_gcd_ab units m
  generalize units.gcdA m = u at hbez
  generalize units.gcdB m = v at hbez
  have hm' : (m : Int) ≠ 0 := by omega
  have hn := Int.emod_nonneg (-u * y) hm'
  have hdvd : (m : Int) ∣ (((-u * y) % m).toNat * units + Nat.gcd units m * y : Nat) := by
    refine ⟨v * y - units * (-u * y / m), ?_⟩
    have hdm := Int.emod_add_mul_ediv (-u * y) m
    push_cast
    rw [Int.toNat_of_nonneg hn, hbez]
    have : (-u * y) % m = -u * y - m * (-u * y / m) := by omega
    rw [this]
    ring
  obtain ⟨t, ht⟩ := Int.natCast_dvd_natCast.mp hdvd
  exact ⟨_, t, ht⟩

/-- Of two phases with a common multiple between them, the later is a sample ahead at some time. -/
theorem exists_carry {m a b x : Nat} (ha : a < x) (hb : x ≤ b) (hm : b < m)
    (hg : Nat.gcd units m ∣ x) : ∃ n, (n * units + a) / m < (n * units + b) / m := by
  obtain ⟨n, t, h⟩ := exists_mul_add_eq (by omega) hg
  refine ⟨n, Nat.lt_of_lt_of_le (m := t) ?_ ?_⟩
  · exact Nat.div_lt_of_lt_mul (by omega)
  · rw [Nat.le_div_iff_mul_le (by omega), Nat.mul_comm]
    omega

/-- With a clock of more than three times 2^31 units that is no part of a sample, half of it is a later
    phase than 2^31 units. -/
theorem exists_carry_large (h : 3 * 2 ^ 31 < units) (hlt : units < 2 ^ 52) (hd : ¬ units ∣ 2 ^ 52) :
    ∃ n, (n * units + 2 ^ 31) / 2 ^ 52 < (n * units + units / 2) / 2 ^ 52 := by
  obtain ⟨o, ho⟩ := Nat.gcd_dvd_left units (2 ^ 52)
  have hg := Nat.gcd_dvd_right units (2 ^ 52)
  have hpos : 0 < Nat.gcd units (2 ^ 52) := Nat.gcd_pos_of_pos_left _ (by omega)
  generalize hgcd : Nat.gcd units (2 ^ 52) = g at ho hg hpos
  -- the clock is at least twice the divisor, so a third of it lies below a multiple of the divisor
  have ho2 : 2 ≤ o := by
    rcases o with _ | _ | o
    · omega
    · rw [ho] at hd
      exact absurd (by rwa [Nat.zero_add, Nat.mul_one]) hd
    · omega
  have hx : g * (o / 2) * 2 ≤ units ∧ units ≤ g * (o / 2) * 3 := by
    rw [ho, Nat.mul_assoc, Nat.mul_assoc]
    exact ⟨Nat.mul_le_mul_left g (by omega), Nat.mul_le_mul_left g (by omega)⟩
  refine exists_carry (x := g * (o / 2)) (by omega) (by omega) (by omega) ?_
  rw [hgcd]
  exact ⟨_, rfl⟩

/-- Rates of one and of two samples a second have clocks short of that; they are looked at one by one. -/
theorem exists_carry_small (region : Region) (h0 : 0 < sampleRate) (h2 : sampleRate ≤ 2)
    (hu : unitsPerClock? region.cpuRate.toNat sampleRate = some units) :
    ∃ n, (n * units + 2 ^ 31) / 2 ^ 52 ≠ (n * units + units / 2) / 2 ^ 52 := by
  obtain rfl | rfl : sampleRate = 1 ∨ sampleRate = 2 := by omega
  · have hunits : units = 2516296552 ∨ units = 2708757769 := by
      cases region with
      | ntsc => exact .inl (Option.some.inj (hu.symm.trans (by decide +kernel)))
      | pal => exact .inr (Option.some.inj (hu.symm.trans (by decide +kernel)))
    have hcarry : ∃ n, (n * units + units / 2) / 2 ^ 52 < (n * units + 2 ^ 31) / 2 ^ 52 := by
      rcases hunits with rfl | rfl
      · exact exists_carry (x := 2 ^ 31) (by decide) (by decide) (by decide) (by decide +kernel)
      · exact exists_carry (x := 2 ^ 31) (by decide) (by decide) (by decide) (by decide +kernel)
    obtain ⟨n, hn⟩ := hcarry
    exact ⟨n, Nat.ne_of_gt hn⟩
  · have hunits : units = 5032593103 ∨ units = 5417515538 := by
      cases region with
      | ntsc => exact .inl (Option.some.inj (hu.symm.trans (by decide +kernel)))
      | pal => exact .inr (Option.some.inj (hu.symm.trans (by decide +kernel)))
    have hcarry : ∃ n, (n * units + 2 ^ 31) / 2 ^ 52 < (n * units + units / 2) / 2 ^ 52 := by
      rcases hunits with rfl | rfl
      · exact exists_carry (x := 2 ^ 31 + 2) (by decide) (by decide) (by decide) (by decide +kernel)
      · exact exists_carry (x := 2 ^ 31 + 2) (by decide) (by decide) (by decide) (by decide +kernel)
    obtain ⟨n, hn⟩ := hcarry
    exact ⟨n, Nat.ne_of_lt hn⟩

/-- Below the rate of the processor, half a clock and 2^31 units are phases that some number of clocks
    tells apart. -/
theorem exists_carry_half (region : Region) (h0 : 0 < sampleRate)
    (hs : sampleRate < region.cpuRate.toNat)
    (hu : unitsPerClock? region.cpuRate.toNat sampleRate = some units) :
    ∃ n, (n * units + 2 ^ 31) / 2 ^ 52 ≠ (n * units + units / 2) / 2 ^ 52 := by
  have hrate : region.cpuRate.toNat % 2 = 1 ∧ region.cpuRate.toNat < 2 ^ 21 := by
    cases region <;> decide
  rcases Nat.lt_or_ge 2 sampleRate with h3 | h2
  · obtain ⟨hlo, -⟩ := unitsPerClock?_bounds hs (by omega) hu
    have hlarge : 3 * 2 ^ 31 < units := by
      by_contra h
      have := Nat.mul_le_mul (show 2 * region.cpuRate.toNat ≤ 2 * (2 ^ 21 - 1) by omega)
        (Nat.le_of_not_lt h)
      omega
    obtain ⟨n, hn⟩ := exists_carry_large hlarge (unitsPerClock?_lt_timeUnit hs (by omega) hu)
      (not_dvd_timeUnit hrate.1 hs (by omega) (by omega) hu)
    exact ⟨n, Nat.ne_of_lt hn⟩
  · exact exists_carry_small region h0 h2 hu

/-! ## Every number of samples has a clock -/

/-- The processor's clock has units for every number of samples that can be asked for. -/
theorem exists_unitsPerClock_cpu (region : Region) (sampleRate : UInt32) :
    ∃ units, unitsPerClock? region.cpuRate.toNat sampleRate.toNat = some units := by
  have hrate : 2 ^ 20 < region.cpuRate.toNat := by cases region <;> decide
  have hs := sampleRate.toNat_lt
  rcases Nat.eq_zero_or_pos sampleRate.toNat with h0 | h0
  · rw [h0]
    cases region with
    | ntsc => exact ⟨0, by decide⟩
    | pal => exact ⟨0, by decide⟩
  · refine Option.ne_none_iff_exists'.mp fun hnone => ?_
    have := (unitsPerClock?_eq_none_iff region.cpuRate.toNat_lt (by omega) h0).mp hnone
    omega

end Resampler

end Famicom
