/-
  Reset: how much of the past a mixer forgets, and how a reset mixer differs from a new one.

  A reset drops levels, changes and samples and sets the clock anew, so of the state before it only the
  region and the settings count.  It also sets the phase, the part of the first sample that has gone by,
  to half a clock.  A new mixer takes its phase before the clock of its rates is set, and so has half a
  clock of the highest ratio, 2^31 units.

  1. **The state after a reset** (`reset_eq_ok`): that of a silent mixer, whose phase is half a clock.
  2. **Rounds** (`Drained.round`, `rounds`): to play one clock and take the samples, over and over,
     shows how many samples end in each clock, which is all that is seen of the phase.
  3. **Phases told apart**: half a clock and 2^31 units do not have as many samples behind them at all
     times (`Resampler.exists_carry_half`), so the rounds come out differently at some time.

  `Alike` says that no calls tell two mixers apart.  Main statement: a reset mixer is the new one but for
  the phase, and below the rate of the processor the two are never alike (`reset_not_alike_new`).
-/
import Famicom.Proofs.Mixer.Reachable
import Famicom.Proofs.Resampler.Clock

namespace Famicom

namespace Resampler

/-- Reading all that waits leaves an empty resampler that counts on as before. -/
theorem read_all (r : Resampler) {count : Nat} (h : r.available ≤ count) :
    ∃ samples r', r.read count = (samples, r') ∧ samples.size = r.available ∧
      r'.gauge = ⟨r.capacity, r.factor, r.offset, 0⟩ := by
  obtain ⟨hsize, hgauge⟩ := r.read_gauge count
  rw [Nat.min_eq_right h] at hsize hgauge
  rw [Nat.sub_self] at hgauge
  exact ⟨_, _, rfl, hsize, hgauge⟩

/-- What one clock does to the phase, and how many samples end in it. -/
theorem endFrame_one {r : Resampler} (h0 : r.available = 0) (hc : 0 < r.capacity)
    (hf : r.factor.toNat < 2 ^ 52) (ho : r.offset.toNat < 2 ^ 52) :
    ∃ r', r.endFrame 1 = .ok r' ∧ r'.capacity = r.capacity ∧ r'.factor = r.factor ∧
      r'.available = (r.factor.toNat + r.offset.toNat) / 2 ^ 52 ∧
      r'.offset.toNat = (r.factor.toNat + r.offset.toNat) % 2 ^ 52 := by
  have htime : (r.timeAt 1).toNat = r.factor.toNat + r.offset.toNat := by
    have : ((1 : UInt32).toUInt64).toNat = 1 := rfl
    unfold timeAt
    rw [UInt64.toNat_add, UInt64.toNat_mul, this]
    omega
  have hn : r.samplesIn 1 = (r.factor.toNat + r.offset.toNat) / 2 ^ 52 := by
    rw [samplesIn_eq, htime]
  have hfits : r.Holds 1 := by
    unfold Holds
    rw [h0, hn]
    omega
  refine ⟨_, dif_pos hfits, rfl, rfl, ?_, ?_⟩
  · show r.available + r.samplesIn 1 = _
    rw [h0, hn, Nat.zero_add]
  · show (r.timeAt 1 &&& 0xFFFFFFFFFFFFF).toNat = _
    rw [UInt64.toNat_and, htime]
    exact Nat.and_two_pow_sub_one_eq_mod _ 52

end Resampler

namespace Mixer

/-! ## Telling mixers apart -/

/-- What can be asked of a mixer. -/
inductive Call where
  | addDelta (channel : Channel) (cycle : Nat) (amount : Int16)
  | endFrame (time : Nat)
  | playFrame (time : Nat)
  | takeSamples
  | setRegion (region : Region)
  | reset

/-- What is seen of a mixer after a call. -/
structure Answer where
  result : Except ResampleError Unit
  /-- The samples handed out. -/
  samples : Array Int
  volume : Int16
  /-- Samples that wait in the resampler. -/
  waiting : Nat
  /-- Finished samples that have not been handed out. -/
  finished : Nat

/-- A call's result, the samples it hands out and what becomes of the mixer. -/
def perform (m : Mixer) : Call → Except ResampleError Unit × Array Int × Mixer
  | .addDelta channel cycle amount => (.ok (), #[], m.addDelta channel cycle amount)
  | .endFrame time => ((m.endFrame time).1, #[], (m.endFrame time).2)
  | .playFrame time => ((m.playFrame time).1, #[], (m.playFrame time).2)
  | .takeSamples => (.ok (), m.takeSamples.1, m.takeSamples.2)
  | .setRegion region => ((m.setRegion region).1, #[], (m.setRegion region).2)
  | .reset => (m.reset.1, #[], m.reset.2)

/-- The answers to calls, one after the other. -/
def answers (m : Mixer) : List Call → List Answer
  | [] => []
  | c :: rest =>
    let (result, samples, m) := m.perform c
    ⟨result, samples, m.outputVolume, m.pendingSamples, m.output.size⟩ :: answers m rest

/-- No calls tell the two apart. -/
def Alike (m q : Mixer) : Prop := ∀ calls, m.answers calls = q.answers calls

variable {m q : Mixer} {units offset : Nat}

/-- Mixers that are alike hand out the same samples at a call and are alike after it. -/
theorem Alike.perform (h : Alike m q) (c : Call) :
    (m.perform c).2.1 = (q.perform c).2.1 ∧ Alike (m.perform c).2.2 (q.perform c).2.2 := by
  constructor
  · have h1 := h [c]
    exact (Answer.mk.inj (List.cons.inj h1).1).2.1
  · intro calls
    exact (List.cons.inj (h (c :: calls))).2

/-! ## Rounds of one clock -/

/-- Nothing is noted, nothing waits, and the clock has so many units at so much of a phase. -/
structure Drained (m : Mixer) (units offset : Nat) : Prop where
  pending : m.pending = #[]
  output : m.output = #[]
  room : m.settings.bufferSamples.toNat ≠ 0
  capacity : m.resampler.capacity ≠ 0
  available : m.resampler.available = 0
  factor : m.resampler.factor.toNat = units
  offset : m.resampler.offset.toNat = offset

/-- Without changes only the resampler takes part in the end of a frame. -/
theorem endFrame_of_pending_eq (h : m.pending = #[]) {r : Resampler} {time : Nat}
    (hr : m.resampler.endFrame (.ofNat time) = .ok r) :
    m.endFrame time = (.ok (), { m with resampler := r }) := by
  have hnil : LevelChange.inOrder m.pending.toList = [] := by
    rw [h]
    simp [LevelChange.inOrder, LevelChange.merge]
  unfold endFrame
  rw [hnil]
  dsimp only [applyChanges]
  rw [hr, h]

/-- Playing one clock and taking the samples gives as many as end in it, and goes on with the rest of
    the phase. -/
theorem Drained.round (h : Drained m units offset) (hu : units < 2 ^ 52) (ho : offset < 2 ^ 52) :
    (m.playFrame 1).2.takeSamples.1.size = (units + offset) / 2 ^ 52 ∧
      Drained (m.playFrame 1).2.takeSamples.2 units ((units + offset) % 2 ^ 52) := by
  obtain ⟨r, hr, hcap, hfac, hav, hoff⟩ := Resampler.endFrame_one h.available
    (Nat.pos_of_ne_zero h.capacity) (h.factor ▸ hu) (h.offset ▸ ho)
  rw [h.factor, h.offset] at hav hoff
  have hroom : r.available ≤ m.settings.bufferSamples.toNat - m.output.size := by
    have := h.room
    rw [h.output, hav]
    simp only [Array.size_empty]
    omega
  obtain ⟨samples, r', hread, hsize, hgauge⟩ := r.read_all hroom
  obtain ⟨hc, hf, ho', ha⟩ := Resampler.Gauge.mk.inj hgauge
  have hplay : m.playFrame 1 =
      (.ok (), { m with resampler := r', output := m.output ++ samples }) := by
    unfold playFrame
    rw [endFrame_of_pending_eq h.pending hr]
    dsimp only
    rw [hread]
  rw [hplay]
  refine ⟨?_, ⟨h.pending, rfl, h.room, ?_, ha, ?_, ?_⟩⟩
  · show (m.output ++ samples).size = _
    rw [h.output, Array.empty_append, hsize, hav]
  · show r'.capacity ≠ 0
    rw [hc, hcap]
    exact h.capacity
  · show r'.factor.toNat = units
    rw [hf, hfac]
    exact h.factor
  · show r'.offset.toNat = _
    rw [ho']
    exact hoff

/-- Mixers that are alike have as many samples behind them after any number of clocks. -/
theorem rounds {a b : Nat} (h : Alike m q) (hm : Drained m units a) (hq : Drained q units b)
    (hu : units < 2 ^ 52) (ha : a < 2 ^ 52) (hb : b < 2 ^ 52) (n : Nat) :
    (n * units + a) / 2 ^ 52 = (n * units + b) / 2 ^ 52 ∧
      ∃ m' q', Alike m' q' ∧ Drained m' units ((n * units + a) % 2 ^ 52) ∧
        Drained q' units ((n * units + b) % 2 ^ 52) := by
  induction n with
  | zero =>
    simp only [Nat.zero_mul, Nat.zero_add, Nat.div_eq_of_lt ha, Nat.div_eq_of_lt hb,
      Nat.mod_eq_of_lt ha, Nat.mod_eq_of_lt hb]
    exact ⟨trivial, m, q, h, hm, hq⟩
  | succ n ih =>
    obtain ⟨hcount, m', q', halike, hm', hq'⟩ := ih
    obtain ⟨hsm, hdm⟩ := hm'.round hu (Nat.mod_lt _ (by decide))
    obtain ⟨hsq, hdq⟩ := hq'.round hu (Nat.mod_lt _ (by decide))
    obtain ⟨-, hplayed⟩ := halike.perform (.playFrame 1)
    obtain ⟨hsamples, htaken⟩ := hplayed.perform .takeSamples
    have hsize := congrArg Array.size hsamples
    have hsplit : ∀ o, (n + 1) * units + o = units + (n * units + o) := by
      intro o
      rw [Nat.succ_mul]
      omega
    rw [hsplit, hsplit]
    refine ⟨?_, _, _, htaken, ?_, ?_⟩
    · have : (units + (n * units + a) % 2 ^ 52) / 2 ^ 52 = (units + (n * units + b) % 2 ^ 52) / 2 ^ 52 :=
        hsm.symm.trans (hsize.trans hsq)
      omega
    · rw [← Nat.add_mod_mod]
      exact hdm
    · rw [← Nat.add_mod_mod]
      exact hdq

/-! ## The state after a reset -/

/-- The same mixer at another phase. -/
def withPhase (m : Mixer) (offset : UInt64) : Mixer :=
  { m with resampler := { m.resampler with offset } }

/-- The mixer without levels, changes and samples. -/
def cleared (m : Mixer) : Mixer :=
  { m with output := #[], lastOutput := 0, resampler := m.resampler.clear, pending := #[],
           levels := {} }

theorem reset_eq_retune (m : Mixer) : m.reset = m.cleared.retune := rfl

/-- A reset forgets all but the region and the settings, and begins at half a clock. -/
theorem reset_eq_ok (h : m.setup.Tuned) (hr : m.reset = (.ok (), q)) :
    ∃ units, Resampler.unitsPerClock? m.region.cpuRate.toNat m.settings.sampleRate.toNat =
      some units ∧ q = silent m.region m.settings units (.ofNat units / 2) := by
  rw [reset_eq_retune] at hr
  rcases m.cleared.retune_spec h.sampleRate_ne_zero with ⟨units, hu, hok⟩ | ⟨-, herr⟩
  · obtain ⟨region, settings, pending, levels, lastOutput,
      ⟨capacity, factor, offset, available, hav, level, slots⟩, output⟩ := m
    obtain rfl : capacity = settings.bufferSamples.toNat := h.capacity
    obtain rfl : factor = .ofNat units := h.factor units hu
    refine ⟨units, hu, ?_⟩
    rw [hok] at hr
    cases hr
    rfl
  · rw [herr] at hr
    cases hr

theorem reset_silent {region : Region} {settings : MixerSettings} (hs : settings.sampleRate ≠ 0)
    (hu : Resampler.unitsPerClock? region.cpuRate.toNat settings.sampleRate.toNat = some units)
    (phase : UInt64) : (silent region settings units phase).reset =
      (.ok (), silent region settings units (.ofNat units / 2)) := by
  rw [reset_eq_retune]
  rcases (silent region settings units phase).cleared.retune_spec hs with
    ⟨units', hu', hok⟩ | ⟨hnone, -⟩
  · cases hu.symm.trans hu'
    exact hok
  · cases hu.symm.trans hnone

theorem drained_silent {region : Region} {settings : MixerSettings} {phase : UInt64}
    (hb : settings.bufferSamples.toNat ≠ 0) (hu : units < 2 ^ 52) :
    Drained (silent region settings units phase) units phase.toNat := by
  refine ⟨rfl, rfl, hb, hb, rfl, ?_, rfl⟩
  show (UInt64.ofNat units).toNat = units
  rw [UInt64.toNat_ofNat']
  omega

/-- A mixer reset at rates below that of the processor is the new mixer but for the phase, and calls can
    tell the two apart. -/
theorem reset_not_alike_new (h : Reachable m) (hs : m.settings.sampleRate < m.region.cpuRate)
    (hr : m.reset = (.ok (), q)) :
    ∃ fresh, Mixer.new m.region m.settings = .ok fresh ∧
      q = fresh.withPhase (fresh.resampler.factor / 2) ∧ ¬ q.Alike fresh := by
  have ht := h.tuned
  have hb : m.settings.bufferSamples.toNat ≠ 0 := fun h0 =>
    ht.capacity_ne_zero (ht.capacity.trans h0)
  have hs0 : 0 < m.settings.sampleRate.toNat :=
    Nat.pos_of_ne_zero fun h0 => ht.sampleRate_ne_zero (UInt32.toNat_inj.mp h0)
  obtain ⟨units, hu, rfl⟩ := reset_eq_ok ht hr
  have hlt : units < 2 ^ 52 :=
    Resampler.unitsPerClock?_lt_timeUnit hs (by cases m.region <;> decide) hu
  refine ⟨silent m.region m.settings units 0x80000000,
    new_eq_ok_iff.mpr ⟨hb, ht.room, ht.sampleRate_ne_zero, units, hu, rfl⟩, rfl, fun halike => ?_⟩
  have hhalf : (UInt64.ofNat units / 2).toNat = units / 2 := by
    rw [UInt64.toNat_div, UInt64.toNat_ofNat']
    show units % 2 ^ 64 / 2 = units / 2
    omega
  have hq : Drained (silent m.region m.settings units (.ofNat units / 2)) units (units / 2) :=
    hhalf ▸ drained_silent hb hlt
  have hfresh : Drained (silent m.region m.settings units 0x80000000) units (2 ^ 31) :=
    drained_silent hb hlt
  obtain ⟨n, hn⟩ := Resampler.exists_carry_half m.region hs0 hs hu
  exact hn (rounds halike hq hfresh hlt (by omega) (by decide) n).1.symm

/-- The silent mixer of the usual settings. -/
def usual : Mixer := silent .ntsc {} 241564468917326 0x80000000

theorem units_usual : Resampler.unitsPerClock? Region.ntsc.cpuRate.toNat
    ({} : MixerSettings).sampleRate.toNat = some 241564468917326 := by decide +kernel

theorem new_usual : Mixer.new .ntsc {} = .ok usual :=
  new_eq_ok_iff.mpr ⟨by decide, by decide, by decide, 241564468917326, units_usual, rfl⟩

theorem reset_usual : usual.reset =
    (.ok (), silent .ntsc {} 241564468917326 (.ofNat 241564468917326 / 2)) :=
  reset_silent (by decide) units_usual _

theorem reset_not_alike_new_usual :
    ∃ q fresh, usual.reset = (.ok (), q) ∧ Mixer.new .ntsc {} = .ok fresh ∧
      q = fresh.withPhase (fresh.resampler.factor / 2) ∧ ¬ q.Alike fresh := by
  obtain ⟨fresh, h⟩ := reset_not_alike_new (.new new_usual) (by decide) reset_usual
  exact ⟨_, fresh, reset_usual, h⟩

/-- After a reset with the usual settings two samples end in 37 clocks, and one in a new mixer. -/
theorem reset_usual_ne_new :
    ∃ m q fresh, Reachable m ∧ m.reset = (.ok (), q) ∧ Mixer.new m.region m.settings = .ok fresh ∧
      (q.endFrame 37).2.pendingSamples = 2 ∧ (fresh.endFrame 37).2.pendingSamples = 1 ∧
      ¬ q.Alike fresh := by
  have hq : ((silent .ntsc {} 241564468917326 (.ofNat 241564468917326 / 2)).endFrame
      37).2.pendingSamples = 2 := by decide +kernel
  have hfresh : (usual.endFrame 37).2.pendingSamples = 1 := by decide +kernel
  refine ⟨usual, _, usual, .new new_usual, reset_usual, new_usual, hq, hfresh, fun h => ?_⟩
  have hwaiting := (Answer.mk.inj (List.cons.inj (h [.endFrame 37])).1).2.2.2.1
  exact absurd (hq.symm.trans (hwaiting.trans hfresh)) (by decide)

end Mixer

end Famicom
