/-
  The reel: the tape of a resampler, timed in whole samples.

  A resampler's own tape counts time from a clock's units, and what a moment is on it is told by exact
  arithmetic, which the words of the resampler follow only up to a horizon.  Here the words themselves
  say where a moment is: so many samples past those that wait, and so many units.  Then every step, every
  end of a frame and every reading does to the reel what it does to a tape, in whatever way time wraps
  around (`addStep_reel`, `endFrame_reel`, `read_reel`).

  A reading moves up the slots up to eighteen past the samples that wait.  That is all of the reel if no
  step lies more than two samples past them (`Tape.Quiet`), and a frame keeps it so whose steps lie at
  most two samples past its end (`Tape.Quiet.frame`).
-/
import Famicom.Proofs.Resampler.Framing

namespace Famicom

namespace Resampler

/-! ## Quiet tapes -/

namespace Tape

/-- No step lies more than two samples past those that can be read. -/
def Quiet (t : Tape) : Prop := ∀ j, t.available + extraSlots ≤ j → t.slots j = 0

theorem quiet_drop {t : Tape} {n : Nat} (hn : n ≤ t.available) : (t.drop n).Quiet ↔ t.Quiet := by
  unfold Quiet
  rw [available_drop]
  constructor
  · intro h j hj
    rw [← Nat.sub_add_cancel (show n ≤ j by omega)]
    exact h (j - n) (by omega)
  · intro h j hj
    exact h (j + n) (by omega)

/-- A frame may be put on a tape before samples are taken off or after, and leaves those as they are. -/
theorem frame_drop {t : Tape} {n : Nat} (hn : n ≤ t.available) (factor : Nat) (steps : List Step)
    (clocks : Nat) :
    n ≤ ((t.addAll factor steps).pass factor clocks).available ∧
      ((t.drop n).addAll factor steps).pass factor clocks =
        ((t.addAll factor steps).pass factor clocks).drop n ∧
      ((t.addAll factor steps).pass factor clocks).heard n = t.heard n := by
  have hn' : n ≤ (t.addAll factor steps).available := by
    rw [available, position_addAll]
    exact hn
  refine ⟨?_, ?_, ?_⟩
  · exact Nat.le_trans hn' (Nat.div_le_div_right (Nat.le_add_right _ _))
  · rw [drop_addAll hn, drop_pass clocks hn']
  · exact heard_addAll hn steps

/-- A frame with no step more than two samples past its end leaves none further on. -/
theorem Quiet.frame {t : Tape} (h : t.Quiet) {factor clocks : Nat} {steps : List Step}
    (hsteps : ∀ s ∈ steps, (t.position + s.clocks * factor) / 2 ^ 52 ≤
      (t.position + clocks * factor) / 2 ^ 52 + 2) :
    ((t.addAll factor steps).pass factor clocks).Quiet := by
  have havailable : ((t.addAll factor steps).pass factor clocks).available =
      (t.position + clocks * factor) / 2 ^ 52 := by
    show ((t.addAll factor steps).position + clocks * factor) / 2 ^ 52 = _
    rw [position_addAll]
  intro j hj
  rw [havailable] at hj
  have hbefore : t.position / 2 ^ 52 ≤ (t.position + clocks * factor) / 2 ^ 52 :=
    Nat.div_le_div_right (Nat.le_add_right _ _)
  show (t.addAll factor steps).slots j = 0
  rw [slots_addAll fun s hs => ?_]
  · exact h j (Nat.le_trans (Nat.add_le_add_right hbefore _) hj)
  · have := hsteps s hs
    unfold extraSlots at hj
    omega

end Tape

/-! ## The reel -/

/-- The resampler at the start of a sample, with a unit of time for a clock. -/
def still (r : Resampler) : Resampler := { r with factor := 1, offset := 0 }

/-- What a resampler holds, timed from the start of a sample. -/
def reel (r : Resampler) : Tape := r.still.tape

variable {r q : Resampler} {clocks : UInt32} {delta : Int32}

theorem toNat_factor_still (r : Resampler) : r.still.factor.toNat = 1 := UInt64.toNat_one

theorem toNat_offset_still (r : Resampler) : r.still.offset.toNat = 0 := UInt64.toNat_zero

theorem position_reel (r : Resampler) : r.reel.position = r.available * 2 ^ 52 := by
  have havailable : r.still.available = r.available := rfl
  rw [reel, position_tape, havailable, toNat_offset_still, Nat.add_zero]

theorem available_reel (r : Resampler) : r.reel.available = r.available := by
  rw [Tape.available, position_reel]
  exact Nat.mul_div_cancel _ (by decide)

theorem available_of_reel {t : Tape} {n : Nat} (h : r.reel = t.drop n) :
    r.available = t.available - n := by
  rw [← available_reel, h, Tape.available_drop]

theorem quiet_reel : r.reel.Quiet ↔ r.Quiet r.available := by
  unfold Tape.Quiet
  rw [available_reel]
  rfl

theorem timeAt_congr (hf : q.factor = r.factor) (ho : q.offset = r.offset) : q.timeAt = r.timeAt := by
  unfold timeAt
  rw [hf, ho]

/-- So many units on are as many samples as there are whole ones in them. -/
theorem sample_reel (r : Resampler) (clocks : UInt32) :
    (r.reel.position + (r.timeAt clocks).toNat * 1) / 2 ^ 52 = r.available + r.samplesIn clocks := by
  rw [position_reel, samplesIn_eq]
  omega

/-- A step that is taken lands on the reel. -/
theorem addStep_reel (h : r.addStep clocks delta = .ok q) :
    q.gauge = r.gauge ∧ q.reel = r.reel.add 1 ⟨(r.timeAt clocks).toNat, delta, false⟩ := by
  by_cases hreaches : r.Reaches clocks
  · cases h.symm.trans (dif_pos hreaches)
    let s : Step := ⟨(r.timeAt clocks).toNat, delta, false⟩
    have hposition : r.reel.position + s.clocks * r.still.factor.toNat =
        r.available * 2 ^ 52 + (r.timeAt clocks).toNat := by
      rw [position_reel, toNat_factor_still, Nat.mul_one]
    have hstart : r.slotAt (r.fixedTime clocks) =
        s.start (r.reel.position + s.clocks * r.still.factor.toNat) := by
      rw [toNat_factor_still, Step.start, sample_reel, slotAt_eq, if_neg Bool.false_ne_true]
      rfl
    have htaps : stepTaps (r.fixedTime clocks) delta =
        s.taps (r.reel.position + s.clocks * r.still.factor.toNat) := by
      rw [hposition, Step.taps, if_neg Bool.false_ne_true]
      refine stepTaps_congr ?_ delta
      rw [toNat_fixedTime, UInt32.toNat_ofNat']
      omega
    refine ⟨rfl, ?_⟩
    rw [← r.toNat_factor_still]
    exact tape_addTaps (r := r.still) (s := s) _ hstart htaps
  · cases h.symm.trans (addStep_of_not_reaches hreaches delta)

/-- The end of a frame lets whole samples pass. -/
theorem endFrame_reel (h : r.endFrame clocks = .ok q) :
    q.factor = r.factor ∧ q.offset = r.timeAt clocks &&& 0xFFFFFFFFFFFFF ∧
      q.reel = r.reel.pass 1 (r.samplesIn clocks * 2 ^ 52) := by
  by_cases hholds : r.Holds clocks
  · cases h.symm.trans (dif_pos hholds)
    refine ⟨rfl, rfl, ?_⟩
    have hposition : (r.available + r.samplesIn clocks) * 2 ^ 52 + r.still.offset.toNat =
        r.reel.position + r.samplesIn clocks * 2 ^ 52 * 1 := by
      rw [position_reel, toNat_offset_still]
      omega
    exact congrArg (fun position => { r.reel with position }) hposition
  · cases h.symm.trans (endFrame_of_not_holds hholds)

/-- What is read comes off the reel. -/
theorem read_samples (r : Resampler) (count : Nat) :
    (r.read count).1.toList = r.reel.heard (min count r.available) := by
  unfold read
  dsimp only
  split
  · next h0 =>
    rw [h0]
    rfl
  · exact (heard_eq (r := r.still) (Nat.min_le_right count r.available)).1

/-- The rest stays on it, if no step lies further on than a reading reaches. -/
theorem read_reel (h : r.Quiet r.available) (count : Nat) :
    (r.read count).2.reel = r.reel.drop (min count r.available) := by
  have hstill : r.still.Settled := ⟨r.toNat_offset_still ▸ by decide, h⟩
  have hn : min count r.available ≤ r.still.available := Nat.min_le_right ..
  obtain ⟨-, hlevel⟩ := heard_eq hn
  unfold read
  dsimp only
  split
  · next h0 =>
    rw [h0]
    exact Tape.drop_zero.symm
  · exact (hstill.drop hn hlevel).1

/-- Rates are set whatever the resampler holds. -/
theorem setRates_congr {clockRate sampleRate : UInt32} (h : r.setRates clockRate sampleRate = .ok q)
    (p : Resampler) : p.setRates clockRate sampleRate = .ok { p with factor := q.factor } ∧
      q = { r with factor := q.factor } := by
  unfold setRates at *
  split at h
  · cases h
  · next hrates =>
    rw [if_neg hrates]
    split at h
    · cases h
      exact ⟨rfl, rfl⟩
    · cases h

end Resampler

end Famicom
