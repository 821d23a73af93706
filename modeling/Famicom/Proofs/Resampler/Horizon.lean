/-
  The horizon: how far on a moment may lie before the format of time wraps around.

  Time is the low 64 bits of a product, in units of 2^-52 samples, so it begins again every 4096 samples.
  A moment nearer than that is where exact arithmetic puts it; one further off is taken for the moment
  some rounds of 4096 samples before it (`laps`).

  1. **Wrapping** (`samplesIn_add_laps`, `slotAt_add_laps`): what exact arithmetic says is what the words
     say and the rounds that are lost.
  2. **Refusals** (`closesExactly_of_refused`, `landsExactly_of_refused`): the words never say too much,
     so what they refuse exact arithmetic refuses.
  3. **What is taken** is right before the horizon (`closesExactly_of_inTime`, `landsExactly_of_inTime`).
     Past it too few samples are added, and a step lands where it should not: its middle tap is never
     zero (`middleTap_ne_zero`), and is seen at least 4089 samples before the step begins.

  Main statement: an operation is exact iff the moment lies before the horizon or is refused
  (`exact_iff_horizon`).  A refusal is an error value, so the resampler of its caller is as it was.
-/
import Mathlib.Data.List.GetD
import Famicom.Proofs.Resampler.Framing

namespace Famicom

namespace Resampler

/-- The end of a frame does what exact arithmetic says: the frame is refused iff its samples do not fit,
    and else they are added and the rest of the time is kept. -/
structure ClosesExactly (r : Resampler) (clocks : UInt32) : Prop where
  refused : r.capacity < r.sampleAt clocks.toNat → r.endFrame clocks = .error .overflow
  adds : r.sampleAt clocks.toNat ≤ r.capacity → ∃ q, r.endFrame clocks = .ok q ∧
    q.available = r.sampleAt clocks.toNat ∧ q.tape = r.tape.pass r.factor.toNat clocks.toNat

/-- A step does what exact arithmetic says: it is refused iff it lies more than two samples past the
    capacity, and else is added to the samples at its time, and to no others. -/
structure LandsExactly (r : Resampler) (s : Step) : Prop where
  refused : r.capacity + 2 < r.sampleAt s.clocks → r.put s = .error .overflow
  lands : r.sampleAt s.clocks ≤ r.capacity + 2 → ∃ q, r.put s = .ok q ∧
    q.gauge = r.gauge ∧ q.tape = r.tape.add r.factor.toNat s

/-- How often the format of time wraps around on the way to a moment. -/
def laps (r : Resampler) (clocks : UInt32) : Nat :=
  (clocks.toNat * r.factor.toNat + r.offset.toNat) / 2 ^ 64

variable {r q : Resampler} {clocks : UInt32} {delta : Int32} {fast : Bool}

/-! ## Wrapping -/

/-- The sum that says where a time falls, in the word it is kept in. -/
theorem toNat_timeAt (r : Resampler) (clocks : UInt32) :
    (r.timeAt clocks).toNat = (clocks.toNat * r.factor.toNat + r.offset.toNat) % 2 ^ 64 := by
  rw [timeAt, UInt64.toNat_add, UInt64.toNat_mul, UInt32.toNat_toUInt64, Nat.mod_add_mod]

/-- The samples up to a time are those made, but for the laps that the word has gone round. -/
theorem samplesIn_add_laps (r : Resampler) (clocks : UInt32) :
    r.available + r.samplesIn clocks + 4096 * r.laps clocks = r.sampleAt clocks.toNat := by
  rw [samplesIn_eq, toNat_timeAt, laps, sampleAt, position_tape]
  omega

/-- So is the place of a step. -/
theorem slotAt_add_laps (r : Resampler) (clocks : UInt32) :
    r.slotAt (r.fixedTime clocks) + 4096 * r.laps clocks = r.sampleAt clocks.toNat := by
  rw [slotAt_eq, samplesIn_add_laps]

/-- The horizon is 4096 samples off. -/
theorem laps_eq_zero_iff : r.laps clocks = 0 ↔ r.sampleAt clocks.toNat < r.available + 4096 := by
  rw [laps, sampleAt, position_tape]
  omega

/-- A time is in time if the word does not go round. -/
theorem inTime_iff : r.InTime clocks.toNat ↔ r.laps clocks = 0 := by
  constructor
  · intro h
    exact Nat.div_eq_of_lt h.units_lt
  · intro h
    exact ⟨clocks.toNat_lt, Nat.lt_of_div_eq_zero (by decide) h⟩

/-! ## Refusals -/

/-- A frame is refused if what the word shows does not fit. -/
theorem endFrame_eq_error_iff : r.endFrame clocks = .error .overflow ↔ ¬ r.Holds clocks := by
  constructor
  · intro h hholds
    obtain ⟨q, hq, -⟩ := endFrame_of_holds hholds
    cases h.symm.trans hq
  · exact endFrame_of_not_holds

theorem put_of_not_reaches (h : ¬ r.Reaches clocks) (delta : Int32) (fast : Bool) :
    r.put ⟨clocks.toNat, delta, fast⟩ = .error .overflow := by
  rw [put, UInt32.ofNat_toNat]
  cases fast with
  | false => exact dif_neg h
  | true => exact dif_neg h

/-- What the words refuse does not fit. -/
theorem closesExactly_of_refused (h : ¬ r.Holds clocks) : r.ClosesExactly clocks := by
  have hwraps := r.samplesIn_add_laps clocks
  refine ⟨fun _ => endFrame_of_not_holds h, fun hle => absurd ?_ h⟩
  show r.available + r.samplesIn clocks ≤ r.capacity
  omega

/-- A step that is refused lands nowhere else. -/
theorem landsExactly_of_refused (h : ¬ r.Reaches clocks) (delta : Int32) (fast : Bool) :
    r.LandsExactly ⟨clocks.toNat, delta, fast⟩ := by
  have hwraps := r.slotAt_add_laps clocks
  refine ⟨fun _ => put_of_not_reaches h delta fast, fun hle => absurd ?_ h⟩
  have hle : r.sampleAt clocks.toNat ≤ r.capacity + 2 := hle
  show r.slotAt (r.fixedTime clocks) ≤ r.capacity + 2
  omega

/-! ## What is taken -/

/-- A frame in time is closed as it should be. -/
theorem closesExactly_of_inTime (h : r.InTime clocks.toNat) : r.ClosesExactly clocks := by
  have hholds := h.holds_iff
  rw [UInt32.ofNat_toNat] at hholds
  refine ⟨fun hlt => endFrame_of_not_holds fun hn => ?_, fun hle => ?_⟩
  · exact absurd (hholds.mp hn) (by omega)
  · obtain ⟨q, hq, -, -, hoffset, htape⟩ := endFrame_of_le h hle
    rw [UInt32.ofNat_toNat] at hq
    have hposition : q.available * 2 ^ 52 + q.offset.toNat =
        r.tape.position + clocks.toNat * r.factor.toNat := congrArg Tape.position htape
    refine ⟨q, hq, ?_, htape⟩
    rw [sampleAt, ← hposition]
    omega

/-- A step in time lands where it should. -/
theorem landsExactly_of_inTime (h : r.InTime clocks.toNat) (delta : Int32) (fast : Bool) :
    r.LandsExactly ⟨clocks.toNat, delta, fast⟩ := by
  have hreaches := h.reaches_iff
  rw [UInt32.ofNat_toNat] at hreaches
  refine ⟨fun hlt => put_of_not_reaches (fun hn => ?_) delta fast, fun hle => put_of_le h hle⟩
  have hlt : r.capacity + 2 < r.sampleAt clocks.toNat := hlt
  exact absurd (hreaches.mp hn) (by omega)

/-- A frame whose samples fit, by the words, gets what the words say. -/
theorem available_of_endFrame (h : r.endFrame clocks = .ok q) :
    q.available = r.available + r.samplesIn clocks := by
  by_cases hholds : r.Holds clocks
  · cases h.symm.trans (dif_pos hholds)
    rfl
  · cases h.symm.trans (endFrame_of_not_holds hholds)

/-- A frame that is taken is exact only if no round is lost. -/
theorem laps_of_closesExactly (h : r.ClosesExactly clocks) (hholds : r.Holds clocks) :
    r.laps clocks = 0 := by
  have hwraps := r.samplesIn_add_laps clocks
  obtain ⟨q, hq, -⟩ := endFrame_of_holds hholds
  by_cases hlt : r.capacity < r.sampleAt clocks.toNat
  · cases hq.symm.trans (h.refused hlt)
  · obtain ⟨q', hq', havailable, -⟩ := h.adds (by omega)
    cases hq.symm.trans hq'
    rw [available_of_endFrame hq] at havailable
    omega

/-! ## Steps past the horizon -/

/-- The tap of a step of one, seven slots on from where the step begins. -/
def middleTap (fixed : UInt32) (fast : Bool) : Int32 :=
  if fast then (fastTaps fixed 1).getD 0 0 else (stepTaps fixed 1).getD 7 0

theorem toNat_weight_lt (x : UInt32) : (x &&& 0x7FFF).toNat < 2 ^ 15 := by
  rw [UInt32.toNat_and]
  exact Nat.and_lt_two_pow _ (by decide)

theorem toInt32_shiftRight_fifteen {x : UInt32} (hx : x.toNat < 2 ^ 15) :
    x.toInt32 >>> (15 : Int32) = 0 := by
  have hmsb : x.toBitVec.msb = false := by
    rw [BitVec.msb_eq_false_iff_two_mul_lt]
    show 2 * x.toNat < 2 ^ 32
    omega
  apply Int32.toBitVec_inj.mp
  rw [Int32.toBitVec_shiftRight]
  show x.toBitVec.sshiftRight 15 = 0#32
  rw [BitVec.sshiftRight_eq_of_msb_false hmsb]
  apply BitVec.eq_of_toNat_eq
  rw [BitVec.toNat_ushiftRight, Nat.shiftRight_eq_div_pow]
  exact Nat.div_eq_of_lt hx

theorem getD_kernelTaps_seven_ne_zero :
    ∀ phase : Fin 33, (kernelTaps phase.val phase.is_le).getD 7 0 ≠ 0 := by decide

theorem getD_fastTaps_zero_ne_zero (fixed : UInt32) : (fastTaps fixed 1).getD 0 0 ≠ 0 := by
  have hlt := toNat_weight_lt (fixed >>> (5 : UInt32))
  show 1 * 0x8000 - 1 * ((fixed >>> (5 : UInt32)) &&& 0x7FFF).toInt32 ≠ 0
  generalize (fixed >>> (5 : UInt32)) &&& 0x7FFF = x at hlt
  intro h
  have hx : x.toInt32 = 0x8000 := by grind
  have hnat : x.toNat = 0x8000 := congrArg (·.toBitVec.toNat) hx
  omega

/-- A step of one has the taps of its position, without a share of the next: what is below a unit is
    lost. -/
theorem getD_stepTaps_seven_ne_zero (fixed : UInt32) : (stepTaps fixed 1).getD 7 0 ≠ 0 := by
  have hphase : phaseAt fixed < 32 := Nat.mod_lt _ (by decide)
  have htap := getD_kernelTaps_seven_ne_zero ⟨phaseAt fixed, by omega⟩
  have hlater := toInt32_shiftRight_fifteen (toNat_weight_lt fixed)
  unfold stepTaps
  simp only [Int32.one_mul, hlater, Int32.mul_zero, Int32.add_zero, Int32.sub_zero, Int32.mul_one]
  rw [List.getD_eq_getElem _ _ (by simp [length_kernelTaps]), List.getElem_zipWith,
    ← List.getD_eq_getElem _ 0]
  exact htap

/-- The middle tap of a unit step is never zero, so a step that lands elsewhere shows. -/
theorem middleTap_ne_zero (fixed : UInt32) (fast : Bool) : middleTap fixed fast ≠ 0 := by
  cases fast with
  | false => exact getD_stepTaps_seven_ne_zero fixed
  | true => exact getD_fastTaps_zero_ne_zero fixed

/-- A step of one that is taken is seen in its middle slot. -/
theorem exists_put_middle (h : r.Reaches clocks) (fast : Bool) :
    ∃ q, r.put ⟨clocks.toNat, 1, fast⟩ = .ok q ∧
      q.slot (r.slotAt (r.fixedTime clocks) + 7) =
        r.slot (r.slotAt (r.fixedTime clocks) + 7) + middleTap (r.fixedTime clocks) fast := by
  rw [put, UInt32.ofNat_toNat]
  cases fast with
  | false =>
    refine ⟨_, dif_pos h, ?_⟩
    rw [slot_addTaps, if_neg (by omega), Nat.add_sub_cancel_left]
    rfl
  | true =>
    refine ⟨_, dif_pos h, ?_⟩
    rw [slot_addTaps, if_neg (by omega), Nat.sub_self]
    rfl

/-- Steps that are taken land exactly only if no round is lost: what a step of one adds to its middle
    slot is not there in exact arithmetic, where the step begins later. -/
theorem laps_of_landsExactly (h : r.LandsExactly ⟨clocks.toNat, 1, fast⟩) (hreaches : r.Reaches clocks) :
    r.laps clocks = 0 := by
  have hwraps := r.slotAt_add_laps clocks
  obtain ⟨q, hq, hslot⟩ := exists_put_middle hreaches fast
  by_contra hlaps
  by_cases hlt : r.capacity + 2 < r.sampleAt clocks.toNat
  · cases hq.symm.trans (h.refused hlt)
  · obtain ⟨q', hq', -, htape⟩ := h.lands (by show r.sampleAt clocks.toNat ≤ _; omega)
    cases hq.symm.trans hq'
    have hbefore : r.slotAt (r.fixedTime clocks) + 7 <
        (r.tape.position + clocks.toNat * r.factor.toNat) / 2 ^ 52 := by
      show _ < r.sampleAt clocks.toNat
      omega
    have hexact : q.slot (r.slotAt (r.fixedTime clocks) + 7) =
        r.slot (r.slotAt (r.fixedTime clocks) + 7) + 0 := by
      rw [← Step.share_of_lt ⟨clocks.toNat, 1, fast⟩ hbefore]
      exact congrFun (congrArg Tape.slots htape) _
    have htap : middleTap (r.fixedTime clocks) fast = 0 := by grind
    exact middleTap_ne_zero _ _ htap

/-! ## The horizon -/

/-- The end of a frame is exact iff it lies less than 4096 samples off, or is refused; and so are steps
    of either kind.  Past the horizon what is taken is cut short, or lands too early, without a word. -/
theorem exact_iff_horizon (r : Resampler) (clocks : UInt32) :
    (r.ClosesExactly clocks ↔
      r.sampleAt clocks.toNat < r.available + 4096 ∨ r.endFrame clocks = .error .overflow) ∧
    ∀ fast, ((∀ delta, r.LandsExactly ⟨clocks.toNat, delta, fast⟩) ↔
      r.sampleAt clocks.toNat < r.available + 4096 ∨
        ∀ delta, r.put ⟨clocks.toNat, delta, fast⟩ = .error .overflow) := by
  rw [← laps_eq_zero_iff]
  refine ⟨⟨fun h => ?_, ?_⟩, fun fast => ⟨fun h => ?_, ?_⟩⟩
  · by_cases hholds : r.Holds clocks
    · exact .inl (laps_of_closesExactly h hholds)
    · exact .inr (endFrame_of_not_holds hholds)
  · rintro (hlaps | hrefused)
    · exact closesExactly_of_inTime (inTime_iff.mpr hlaps)
    · exact closesExactly_of_refused (endFrame_eq_error_iff.mp hrefused)
  · by_cases hreaches : r.Reaches clocks
    · exact .inl (laps_of_landsExactly (h 1) hreaches)
    · exact .inr fun delta => put_of_not_reaches hreaches delta fast
  · rintro (hlaps | hrefused) delta
    · exact landsExactly_of_inTime (inTime_iff.mpr hlaps) delta fast
    · refine landsExactly_of_refused (fun hreaches => ?_) delta fast
      obtain ⟨q, hq, -⟩ := exists_put_middle hreaches fast
      cases hq.symm.trans (hrefused 1)

theorem setRates_of_units {clockRate sampleRate : UInt32} {units : Nat}
    (hrates : ¬ (clockRate = 0 ∨ sampleRate = 0))
    (hunits : unitsPerClock? clockRate.toNat sampleRate.toNat = some units) :
    r.setRates clockRate sampleRate = .ok { r with factor := .ofNat units } := by
  rw [setRates, if_neg hrates, hunits]

/-- From the processor's rate to 96000 samples a second, 80000 clocks are 4291 samples.  A resampler for
    2048 takes the frame and has 195. -/
theorem exists_frame_cut_short :
    ∃ fresh r q, new 2048 = .ok fresh ∧ fresh.setRates 1789773 96000 = .ok r ∧
      r.endFrame 80000 = .ok q ∧ q.available = 195 ∧ r.sampleAt 80000 = 4291 ∧
      ¬ r.ClosesExactly 80000 := by
  let fresh : Resampler := ⟨2048, 0x100000000, 0x80000000, 0, by decide, 0, .replicate _ 0⟩
  have hunits : unitsPerClock? (1789773 : UInt32).toNat (96000 : UInt32).toNat =
      some 241564468917326 := by decide +kernel
  have hholds : Holds { fresh with factor := .ofNat 241564468917326 } 80000 := by
    show 0 + _ ≤ 2048
    decide +kernel
  obtain ⟨q, hq, -⟩ := endFrame_of_holds hholds
  refine ⟨fresh, _, q, rfl, setRates_of_units (by decide) hunits, hq, ?_, by decide +kernel, fun h => ?_⟩
  · rw [available_of_endFrame hq]
    decide +kernel
  · cases hq.symm.trans (h.refused (by decide +kernel))

end Resampler

end Famicom
