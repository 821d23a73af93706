/-
  Setting the rates, and what the rounding of their ratio comes to over a run of clocks.

  1. **Runs** (`Passes`): clocks that pass in frames within the format of time, with steps and readings in
     between.  Each operation keeps one account (`Passes.ledger`): the samples that were read, those that
     wait and the part of the next are the clocks at the units of each.
  2. **Never short** (`Passes.not_short`): units that are not below the exact ratio give at least the whole
     samples of the exact ratio, after any run.
  3. **Short in the end** (`Passes.short`): units that are below it give fewer, once the clocks have passed
     the sample rate more often than there were units on the way at the start.

  Main statement: the rates that are refused, and for all others by their remainder whether the units are
  the ratio rounded up (`setRates_rounding`).  From 7 clocks to 4 samples they are not, and 7 clocks are 3
  samples (`setRates_short`).
-/
import Famicom.Proofs.Resampler.Horizon
import Famicom.Proofs.Resampler.Rounding

namespace Famicom

namespace Resampler

/-! ## Runs of clocks -/

/-- So many clocks pass in frames, and so many samples are read. -/
inductive Passes (r : Resampler) : Nat → Nat → Resampler → Prop where
  | start : Passes r 0 0 r
  | put {clocks out : Nat} {q p : Resampler} {s : Step} (h : Passes r clocks out q)
      (hput : q.put s = .ok p) : Passes r clocks out p
  | frame {clocks out n : Nat} {q p : Resampler} (h : Passes r clocks out q) (hin : q.InTime n)
      (hend : q.endFrame (.ofNat n) = .ok p) : Passes r (clocks + n) out p
  | read {clocks out : Nat} {q p : Resampler} {samples : Array Int} (h : Passes r clocks out q)
      (count : Nat) (hread : q.read count = (samples, p)) : Passes r clocks (out + samples.size) p

/-- The account of a run. -/
structure Ledger (r : Resampler) (clocks out : Nat) (q : Resampler) : Prop where
  factor : q.factor = r.factor
  position : out * 2 ^ 52 + q.tape.position = r.tape.position + clocks * r.factor.toNat
  offset : q.offset = r.offset ∨ q.offset.toNat < 2 ^ 52

variable {r q p : Resampler} {clocks out : Nat}

theorem gauge_put {s : Step} (h : q.put s = .ok p) : p.gauge = q.gauge := by
  obtain ⟨n, delta, fast⟩ := s
  by_cases hreach : q.Reaches (.ofNat n)
  · cases fast with
    | false =>
      cases h.symm.trans (dif_pos hreach)
      rfl
    | true =>
      cases h.symm.trans (dif_pos hreach)
      rfl
  · cases fast with
    | false => cases h.symm.trans (dif_neg hreach)
    | true => cases h.symm.trans (dif_neg hreach)

theorem Passes.ledger (h : r.Passes clocks out q) : r.Ledger clocks out q := by
  induction h with
  | start => exact ⟨rfl, by rw [Nat.zero_mul, Nat.zero_mul, Nat.zero_add, Nat.add_zero], .inl rfl⟩
  | put h hput ih =>
    obtain ⟨-, hf, ho, ha⟩ := Gauge.mk.inj (gauge_put hput)
    obtain ⟨hfactor, hposition, hoffset⟩ := ih
    refine ⟨hf.trans hfactor, ?_, by rwa [ho]⟩
    rw [position_tape, ha, ho]
    exact hposition
  | frame h hin hend ih =>
    obtain ⟨hfactor, hposition, -⟩ := ih
    obtain ⟨q', hq', -, hf, ho, htape⟩ := endFrame_of_le hin (le_of_endFrame hin hend)
    cases hend.symm.trans hq'
    refine ⟨hf.trans hfactor, ?_, .inr ho⟩
    have hpass := congrArg Tape.position htape
    rw [hfactor] at hpass
    rw [hpass, Nat.add_mul]
    exact (Nat.add_assoc _ _ _).symm.trans ((congrArg (· + _) hposition).trans (Nat.add_assoc _ _ _))
  | @read clocks out q p samples h count hread ih =>
    obtain ⟨hsize, hgauge⟩ := q.read_gauge count
    rw [hread] at hsize hgauge
    obtain ⟨-, hf, ho, ha⟩ := Gauge.mk.inj hgauge
    have htaken : (out + samples.size) * 2 ^ 52 + p.tape.position = out * 2 ^ 52 + q.tape.position := by
      rw [position_tape, position_tape, ha, ho, hsize]
      omega
    exact ⟨hf.trans ih.factor, htaken.trans ih.position, ho ▸ ih.offset⟩

/-! ## What the rounding comes to -/

variable {clockRate sampleRate : Nat}

/-- Units that are not below the exact ratio never give fewer samples than it. -/
theorem Passes.not_short (h : r.Passes clocks out q)
    (hle : 2 ^ 52 * sampleRate ≤ clockRate * r.factor.toNat) :
    r.available + clocks * sampleRate / clockRate ≤ out + q.available := by
  obtain ⟨-, hposition, hoffset⟩ := h.ledger
  rw [position_tape, position_tape] at hposition
  have hexact : clocks * sampleRate / clockRate * 2 ^ 52 ≤ clocks * r.factor.toNat := by
    rcases Nat.eq_zero_or_pos clockRate with rfl | hc
    · rw [Nat.div_zero, Nat.zero_mul]
      exact Nat.zero_le _
    · refine Nat.le_of_mul_le_mul_left ?_ hc
      calc clockRate * (clocks * sampleRate / clockRate * 2 ^ 52)
          = clockRate * (clocks * sampleRate / clockRate) * 2 ^ 52 := (Nat.mul_assoc _ _ _).symm
        _ ≤ clocks * sampleRate * 2 ^ 52 := Nat.mul_le_mul_right _ (Nat.mul_div_le _ _)
        _ = clocks * (2 ^ 52 * sampleRate) := by ring
        _ ≤ clocks * (clockRate * r.factor.toNat) := Nat.mul_le_mul_left _ hle
        _ = clockRate * (clocks * r.factor.toNat) := by ring
  rcases hoffset with ho | ho
  · rw [ho] at hposition
    omega
  · omega

/-- Units that are below the exact ratio give fewer in the end. -/
theorem Passes.short {n : Nat} (h : r.Passes (clockRate * n) out q)
    (hlt : clockRate * r.factor.toNat < 2 ^ 52 * sampleRate) (hn : r.offset.toNat < n) :
    out + q.available < r.available + n * sampleRate := by
  obtain ⟨-, hposition, -⟩ := h.ledger
  rw [position_tape, position_tape] at hposition
  have hexact : n * (clockRate * r.factor.toNat + 1) ≤ n * (2 ^ 52 * sampleRate) :=
    Nat.mul_le_mul_left n hlt
  have hunits : n * (2 ^ 52 * sampleRate) = 2 ^ 52 * (n * sampleRate) := by ring
  have hclocks : n * (clockRate * r.factor.toNat + 1) = clockRate * n * r.factor.toNat + n := by ring
  omega

/-- What the units of a clock are to the exact ratio of two rates. -/
structure Rounds (clockRate sampleRate units : Nat) : Prop where
  /-- With fewer samples than clocks they are rounded up unless the fraction of a unit is at most half of
      the last significant bit. -/
  below : ∀ k, clockRate ≤ sampleRate * 2 ^ (k + 1) → sampleRate * 2 ^ (k + 1) < 2 * clockRate →
    (RoundedUp clockRate sampleRate units ↔
      2 ^ 52 * sampleRate % clockRate = 0 ∨
        clockRate < 2 ^ (k + 2) * (2 ^ 52 * sampleRate % clockRate))
  /-- With as many samples or more the units are those of the nearest 53 bits. -/
  above : ∀ k, clockRate * 2 ^ k ≤ sampleRate → sampleRate < 2 * (clockRate * 2 ^ k) →
    (RoundedUp clockRate sampleRate units ↔
      2 ^ 52 * sampleRate % (clockRate * 2 ^ k) = 0 ∨
        clockRate * 2 ^ k < 2 ^ 52 * sampleRate % (clockRate * 2 ^ k) + clockRate ∧
          (clockRate * 2 ^ k < 2 * (2 ^ 52 * sampleRate % (clockRate * 2 ^ k)) ∨
            2 * (2 ^ 52 * sampleRate % (clockRate * 2 ^ k)) = clockRate * 2 ^ k ∧
              2 ^ 52 * sampleRate / (clockRate * 2 ^ k) % 2 = 1))

theorem rounds_roundedUnits (clockRate sampleRate : Nat) :
    Rounds clockRate sampleRate (roundedUnits clockRate sampleRate) :=
  ⟨fun _ hlo hhi => roundedUp_below hlo hhi, fun _ hlo hhi => roundedUp_above hlo hhi⟩

/-! ## Setting the rates -/

theorem toNat_pos {x : UInt32} (h : x ≠ 0) : 0 < x.toNat :=
  Nat.pos_of_ne_zero fun h0 => h (UInt32.toNat_inj.mp h0)

/-- Rates that are not refused set the units of a clock, and nothing else. -/
theorem setRates_cases (r : Resampler) (clockRate sampleRate : UInt32) :
    (clockRate = 0 ∨ sampleRate = 0) ∧
      r.setRates clockRate sampleRate = .error (.zeroRate clockRate sampleRate) ∨
    (clockRate ≠ 0 ∧ sampleRate ≠ 0) ∧ 4096 * clockRate.toNat ≤ sampleRate.toNat ∧
      r.setRates clockRate sampleRate = .error .ratioTooLarge ∨
    (clockRate ≠ 0 ∧ sampleRate ≠ 0) ∧ sampleRate.toNat < 4096 * clockRate.toNat ∧
      roundedUnits clockRate.toNat sampleRate.toNat < 2 ^ 64 ∧
      r.setRates clockRate sampleRate =
        .ok { r with factor := .ofNat (roundedUnits clockRate.toNat sampleRate.toNat) } := by
  by_cases hzero : clockRate = 0 ∨ sampleRate = 0
  · exact .inl ⟨hzero, if_pos hzero⟩
  · have hrates : clockRate ≠ 0 ∧ sampleRate ≠ 0 := not_or.mp hzero
    have hnone := unitsPerClock?_eq_none_iff clockRate.toNat_lt (toNat_pos hrates.1) (toNat_pos hrates.2)
    have hunits := unitsPerClock?_eq clockRate.toNat sampleRate.toNat
    rw [setRates, if_neg hzero]
    split at hunits
    · next hfits =>
      rw [hunits] at hnone ⊢
      refine .inr (.inr ⟨hrates, ?_, hfits, rfl⟩)
      exact Nat.lt_of_not_le fun hle => Option.some_ne_none _ (hnone.mpr hle)
    · rw [hunits] at hnone ⊢
      exact .inr (.inl ⟨hrates, hnone.mp rfl, rfl⟩)

theorem setRates_eq_error_iff (r : Resampler) (clockRate sampleRate : UInt32) (e : ResampleError) :
    r.setRates clockRate sampleRate = .error e ↔
      (clockRate = 0 ∨ sampleRate = 0) ∧ e = .zeroRate clockRate sampleRate ∨
      (clockRate ≠ 0 ∧ sampleRate ≠ 0) ∧ 4096 * clockRate.toNat ≤ sampleRate.toNat ∧
        e = .ratioTooLarge := by
  rcases r.setRates_cases clockRate sampleRate with
    ⟨hzero, hq⟩ | ⟨hrates, hratio, hq⟩ | ⟨hrates, hratio, -, hq⟩
  · have hrates : ¬ (clockRate ≠ 0 ∧ sampleRate ≠ 0) := fun h => not_or.mpr h hzero
    rw [hq, Except.error.injEq]
    refine ⟨fun h => .inl ⟨hzero, h.symm⟩, ?_⟩
    rintro (⟨-, rfl⟩ | ⟨h, -⟩)
    · rfl
    · exact absurd h hrates
  · rw [hq, Except.error.injEq]
    refine ⟨fun h => .inr ⟨hrates, hratio, h.symm⟩, ?_⟩
    rintro (⟨hzero, -⟩ | ⟨-, -, rfl⟩)
    · exact absurd hzero (not_or.mpr hrates)
    · rfl
  · rw [hq]
    refine ⟨(nomatch ·), ?_⟩
    rintro (⟨hzero, -⟩ | ⟨-, hlarge, -⟩)
    · exact absurd hzero (not_or.mpr hrates)
    · omega

theorem factor_of_setRates {clockRate sampleRate : UInt32} (h : r.setRates clockRate sampleRate = .ok q) :
    (clockRate ≠ 0 ∧ sampleRate ≠ 0) ∧ q = { r with factor := q.factor } ∧
      q.factor.toNat = roundedUnits clockRate.toNat sampleRate.toNat := by
  rcases r.setRates_cases clockRate sampleRate with ⟨-, hq⟩ | ⟨-, -, hq⟩ | ⟨hrates, -, hfits, hq⟩
  · cases h.symm.trans hq
  · cases h.symm.trans hq
  · cases h.symm.trans hq
    exact ⟨hrates, rfl, UInt64.toNat_ofNat_of_lt' hfits⟩

/-- What setting the rates does: it refuses a rate of zero, and 4096 samples or more to a clock.  All
    other rates set the units of a clock and nothing else, and whether those are the exact ratio rounded
    up is told by the remainder.  If they are, no run of clocks gives fewer samples than the exact ratio;
    if they are below it, every run that is long enough does. -/
theorem setRates_rounding (r : Resampler) (clockRate sampleRate : UInt32) :
    (∀ e, r.setRates clockRate sampleRate = .error e ↔
      (clockRate = 0 ∨ sampleRate = 0) ∧ e = .zeroRate clockRate sampleRate ∨
      (clockRate ≠ 0 ∧ sampleRate ≠ 0) ∧ 4096 * clockRate.toNat ≤ sampleRate.toNat ∧
        e = .ratioTooLarge) ∧
    ∀ q, r.setRates clockRate sampleRate = .ok q →
      q = { r with factor := q.factor } ∧
      Rounds clockRate.toNat sampleRate.toNat q.factor.toNat ∧
      ∀ clocks out p, q.Passes clocks out p →
        (RoundedUp clockRate.toNat sampleRate.toNat q.factor.toNat →
          q.available + clocks * sampleRate.toNat / clockRate.toNat ≤ out + p.available) ∧
        (clockRate.toNat * q.factor.toNat < 2 ^ 52 * sampleRate.toNat →
          ∀ n, clocks = clockRate.toNat * n → q.offset.toNat < n →
            out + p.available < q.available + n * sampleRate.toNat) := by
  refine ⟨r.setRates_eq_error_iff clockRate sampleRate, fun q hq => ?_⟩
  obtain ⟨-, hrest, hfactor⟩ := factor_of_setRates hq
  refine ⟨hrest, ?_, fun clocks out p hpasses => ⟨fun h => hpasses.not_short h.le, ?_⟩⟩
  · rw [hfactor]
    exact rounds_roundedUnits _ _
  · rintro hlt n rfl hn
    exact hpasses.short hlt hn

/-- From 7 clocks to 4 samples the units are below the exact ratio: at the start of a sample, 7 clocks
    make 3 whole samples. -/
theorem setRates_short :
    ∃ fresh wide r q p, new 8 = .ok fresh ∧ fresh.setRates 1 2 = .ok wide ∧
      wide.clear.endFrame 0 = .ok r ∧ r.setRates 7 4 = .ok q ∧ q.endFrame 7 = .ok p ∧
      q.Passes 7 0 p ∧ p.available = q.available + 3 ∧ ¬ RoundedUp 7 4 q.factor.toNat := by
  let fresh : Resampler := ⟨8, 0x100000000, 0x80000000, 0, by decide, 0, .replicate _ 0⟩
  let wide : Resampler := { fresh with factor := .ofNat (2 ^ 53) }
  have hwide : fresh.setRates 1 2 = .ok wide := setRates_of_units (by decide) (by decide +kernel)
  -- half of so large a unit is a whole sample, which a frame of no clocks makes
  have hclear : wide.clear.InTime 0 := ⟨by decide, by decide +kernel⟩
  obtain ⟨r, hr, hcapacity, -, ho, htape⟩ := endFrame_of_le hclear (by decide +kernel)
  have hstart : r.tape.position = 2 ^ 52 := by
    rw [htape]
    decide +kernel
  let q : Resampler := { r with factor := .ofNat 2573485501354569 }
  have hq : r.setRates 7 4 = .ok q := setRates_of_units (by decide) (by decide +kernel)
  have hin : q.InTime 7 := by
    refine ⟨by decide, ?_⟩
    show 7 * 2573485501354569 + r.offset.toNat < 2 ^ 64
    omega
  have hsamples : q.sampleAt 7 = 4 := by
    show (r.tape.position + 7 * 2573485501354569) / 2 ^ 52 = 4
    rw [hstart]
    decide
  obtain ⟨p, hp, -⟩ := endFrame_of_le hin (by rw [hsamples, show q.capacity = 8 from hcapacity]; decide)
  refine ⟨fresh, wide, r, q, p, rfl, hwide, hr, hq, hp, .frame .start hin hp, ?_, fun h => ?_⟩
  · have hone : r.available = 1 := by
      rw [position_tape] at hstart
      omega
    rw [available_of_endFrame hp, hin.samplesIn, hsamples]
    exact congrArg (· + 3) hone.symm
  · have hle : 2 ^ 52 * 4 ≤ 7 * 2573485501354569 := h.le
    exact absurd hle (by decide)

end Resampler

end Famicom
