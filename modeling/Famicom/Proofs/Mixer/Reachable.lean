/-
  The states a mixer can be in, and how its resampler counts time in them.

  Whether the resampler takes a step or the end of a frame depends on four numbers, its `Gauge`; levels
  and samples play no part.  So each operation is told by what it does to the gauge: a step leaves it
  alone (`addStep_of_reaches`), the end of a frame lets more samples wait (`endFrame_of_holds`), and
  what does not fit is refused (`addStep_of_not_reaches`, `endFrame_of_not_holds`).

  What the end of a frame comes to is said once, by cases (`endFrame_cases`, `playFrame_cases`).

  Of the mixer, the region, the settings, and the capacity and the clock of the resampler are its
  `Setup`; only a change of region and a reset touch it, and both set the clock of the region in effect
  if there is one.  `Reachable` collects what is done to a mixer.  Main statement: in every state the
  resampler has the capacity that the settings ask for, and the clock of the region wherever the region
  has one (`Reachable.tuned`).  It has none where the ratio of the rates is too large, and then a change
  of region is refused with the old clock still running.
-/
import Mathlib.Algebra.Group.Nat.Defs
import Famicom.Mixer

namespace Famicom

namespace Resampler

/-- How a resampler counts time, and how much room it has. -/
structure Gauge where
  capacity : Nat
  factor : UInt64
  offset : UInt64
  available : Nat

/-- The gauge of a resampler. -/
def gauge (r : Resampler) : Gauge := ⟨r.capacity, r.factor, r.offset, r.available⟩

/-- The slots of a step at this time exist. -/
def Reaches (r : Resampler) (clocks : UInt32) : Prop :=
  r.slotAt (r.fixedTime clocks) ≤ r.capacity + 2

/-- The samples of a frame of this length. -/
def samplesIn (r : Resampler) (clocks : UInt32) : Nat := (r.timeAt clocks >>> (52 : UInt64)).toNat

/-- The samples of a frame of this length fit beside those that wait. -/
def Holds (r : Resampler) (clocks : UInt32) : Prop :=
  r.available + r.samplesIn clocks ≤ r.capacity

variable {r q : Resampler} {clocks : UInt32}

theorem reaches_congr (h : q.gauge = r.gauge) : q.Reaches clocks ↔ r.Reaches clocks := by
  obtain ⟨hc, hf, ho, ha⟩ := Gauge.mk.inj h
  unfold Reaches slotAt fixedTime timeAt
  rw [hc, hf, ho, ha]

theorem holds_congr (h : q.gauge = r.gauge) : q.Holds clocks ↔ r.Holds clocks := by
  obtain ⟨hc, hf, ho, ha⟩ := Gauge.mk.inj h
  unfold Holds samplesIn timeAt
  rw [hc, hf, ho, ha]

/-- A time's upper half are its samples above twenty bits of fraction. -/
theorem toNat_fixedTime (r : Resampler) (clocks : UInt32) :
    (r.fixedTime clocks).toNat = (r.timeAt clocks).toNat / 2 ^ 32 := by
  have htime := (r.timeAt clocks).toNat_lt
  have hshift : (r.timeAt clocks >>> (32 : UInt64)).toNat = (r.timeAt clocks).toNat / 2 ^ 32 := by
    rw [UInt64.toNat_shiftRight, Nat.shiftRight_eq_div_pow]
    rfl
  rw [fixedTime, UInt64.toNat_toUInt32, hshift]
  omega

theorem samplesIn_eq (r : Resampler) (clocks : UInt32) :
    r.samplesIn clocks = (r.timeAt clocks).toNat / 2 ^ 52 := by
  rw [samplesIn, UInt64.toNat_shiftRight, Nat.shiftRight_eq_div_pow]
  rfl

/-- A step begins as many slots past the samples that wait as a frame up to it has samples. -/
theorem slotAt_eq (r : Resampler) (clocks : UInt32) :
    r.slotAt (r.fixedTime clocks) = r.available + r.samplesIn clocks := by
  have hshift : (r.fixedTime clocks >>> (20 : UInt32)).toNat =
      (r.timeAt clocks).toNat / 2 ^ 32 / 2 ^ 20 := by
    rw [UInt32.toNat_shiftRight, toNat_fixedTime, Nat.shiftRight_eq_div_pow]
    rfl
  rw [slotAt, hshift, samplesIn_eq]
  omega

theorem addStep_of_reaches (h : r.Reaches clocks) (delta : Int32) :
    ∃ r', r.addStep clocks delta = .ok r' ∧ r'.gauge = r.gauge :=
  ⟨_, dif_pos h, rfl⟩

theorem addStep_of_not_reaches (h : ¬ r.Reaches clocks) (delta : Int32) :
    r.addStep clocks delta = .error .overflow := dif_neg h

theorem endFrame_of_holds (h : r.Holds clocks) :
    ∃ r', r.endFrame clocks = .ok r' ∧ r'.capacity = r.capacity ∧ r'.factor = r.factor :=
  ⟨_, dif_pos h, rfl, rfl⟩

theorem endFrame_of_not_holds (h : ¬ r.Holds clocks) : r.endFrame clocks = .error .overflow :=
  dif_neg h

/-- So what became of a frame tells whether it fitted. -/
theorem holds_of_endFrame (h : r.endFrame clocks = .ok q) :
    r.Holds clocks ∧ q.capacity = r.capacity ∧ q.factor = r.factor := by
  by_cases hholds : r.Holds clocks
  · obtain ⟨q', hq, hclock⟩ := endFrame_of_holds hholds
    cases h.symm.trans hq
    exact ⟨hholds, hclock⟩
  · cases h.symm.trans (endFrame_of_not_holds hholds)

theorem not_holds_of_endFrame {e : ResampleError} (h : r.endFrame clocks = .error e) :
    ¬ r.Holds clocks ∧ e = .overflow := by
  by_cases hholds : r.Holds clocks
  · obtain ⟨q, hq, -⟩ := endFrame_of_holds hholds
    cases h.symm.trans hq
  · cases h.symm.trans (endFrame_of_not_holds hholds)
    exact ⟨hholds, rfl⟩

/-- A walk that puts one sample out for every slot puts out as many as there are slots. -/
theorem size_foldl {step : Array Int × Int32 → Int32 → Array Int × Int32}
    (h : ∀ s slot, (step s slot).1.size = s.1.size + 1) (slots : List Int32) (s : Array Int × Int32) :
    (slots.foldl step s).1.size = s.1.size + slots.length := by
  induction slots generalizing s with
  | nil => rfl
  | cons slot slots ih =>
    rw [List.foldl_cons, ih, h, List.length_cons]
    omega

theorem size_sumUp (level : Int32) (slots : Array Int32) : (sumUp level slots).1.size = slots.size := by
  unfold sumUp
  rw [← Array.foldl_toList, size_foldl, Array.length_toList]
  · exact Nat.zero_add _
  · rintro ⟨out, level⟩ slot
    exact Array.size_push _

/-- A reading takes what waits, as far as it is asked for, and the resampler counts on as before. -/
theorem read_gauge (r : Resampler) (count : Nat) :
    (r.read count).1.size = min count r.available ∧
      (r.read count).2.gauge =
        ⟨r.capacity, r.factor, r.offset, r.available - min count r.available⟩ := by
  have hle := r.available_le
  unfold read
  dsimp only
  split
  · next h0 =>
    rw [h0]
    exact ⟨rfl, rfl⟩
  · refine ⟨?_, rfl⟩
    rw [size_sumUp, Array.size_extract, Vector.size_toArray]
    omega

theorem read_clock (r : Resampler) (count : Nat) :
    (r.read count).2.capacity = r.capacity ∧ (r.read count).2.factor = r.factor := by
  obtain ⟨hc, hf, -, -⟩ := Gauge.mk.inj (r.read_gauge count).2
  exact ⟨hc, hf⟩

end Resampler

namespace Mixer

/-- The moment of a change has slots to go to. -/
def Reaches (m : Mixer) (cycle : Nat) : Prop := m.resampler.Reaches (.ofNat cycle)

/-- What the steps of a level leave alone. -/
structure Keeps (m q : Mixer) : Prop where
  region : q.region = m.region
  settings : q.settings = m.settings
  gauge : q.resampler.gauge = m.resampler.gauge

/-- What is only set together with the clock of a region. -/
structure Setup where
  region : Region
  settings : MixerSettings
  capacity : Nat
  factor : UInt64

/-- The setup of a mixer. -/
def setup (m : Mixer) : Setup := ⟨m.region, m.settings, m.resampler.capacity, m.resampler.factor⟩

/-- There can be as many slots as the settings ask for. -/
def HasRoom (settings : MixerSettings) : Prop :=
  settings.bufferSamples.toNat + Resampler.extraSlots ≤ Resampler.maxSlots

instance (settings : MixerSettings) : Decidable (HasRoom settings) := Nat.decLe _ _

/-- There is the room that the settings ask for, and the clock is that of the region, if the region has
    one for their rate. -/
structure Setup.Tuned (s : Setup) : Prop where
  capacity : s.capacity = s.settings.bufferSamples.toNat
  capacity_ne_zero : s.capacity ≠ 0
  room : HasRoom s.settings
  sampleRate_ne_zero : s.settings.sampleRate ≠ 0
  factor : ∀ units, Resampler.unitsPerClock? s.region.cpuRate.toNat s.settings.sampleRate.toNat =
    some units → s.factor = .ofNat units

variable {m q p : Mixer}

theorem Keeps.trans (h : Keeps m q) (h' : Keeps q p) : Keeps m p :=
  ⟨h'.region.trans h.region, h'.settings.trans h.settings, h'.gauge.trans h.gauge⟩

theorem Keeps.setup_eq (h : Keeps m q) : q.setup = m.setup := by
  obtain ⟨hr, hs, hg⟩ := h
  obtain ⟨hc, hf, -, -⟩ := Resampler.Gauge.mk.inj hg
  unfold setup
  rw [hr, hs, hc, hf]

/-! ## One moment, and the moments of a frame -/

/-- A moment is carried out if its slots exist; else only the levels have changed. -/
theorem applyChange_spec (m : Mixer) (c : LevelChange) :
    Keeps m (m.applyChange c).2 ∧
      ((m.Reaches c.cycle ∧ (m.applyChange c).1 = .ok ()) ∨
        (¬ m.Reaches c.cycle ∧ (m.applyChange c).1 = .error .overflow)) := by
  unfold applyChange
  dsimp only
  split
  · next r hr =>
    by_cases h : m.Reaches c.cycle
    · obtain ⟨r', hr', hg⟩ := Resampler.addStep_of_reaches h _
      cases hr.symm.trans hr'
      exact ⟨⟨rfl, rfl, hg⟩, .inl ⟨h, rfl⟩⟩
    · cases hr.symm.trans (Resampler.addStep_of_not_reaches h _)
  · next e he =>
    by_cases h : m.Reaches c.cycle
    · obtain ⟨r', hr', -⟩ := Resampler.addStep_of_reaches h _
      cases he.symm.trans hr'
    · cases he.symm.trans (Resampler.addStep_of_not_reaches h _)
      exact ⟨⟨rfl, rfl, rfl⟩, .inr ⟨h, rfl⟩⟩

theorem applyChanges_keeps (m : Mixer) (past changes : List LevelChange) :
    Keeps m (m.applyChanges past changes).2 := by
  induction changes generalizing m past with
  | nil => exact ⟨rfl, rfl, rfl⟩
  | cons c rest ih =>
    have hc := (m.applyChange_spec c).1
    unfold applyChanges
    dsimp only
    split
    · next q hq =>
      rw [hq] at hc
      exact hc.trans (ih q _)
    · next e q hq =>
      rw [hq] at hc
      exact ⟨hc.region, hc.settings, hc.gauge⟩

/-- A frame stops at a moment, or with all moments carried out it is ended or refused at its end. -/
theorem endFrame_cases (m : Mixer) (time : Nat) :
    (∃ e q, m.applyChanges [] (LevelChange.inOrder m.pending.toList) = (.error e, q) ∧
      m.endFrame time = (.error e, q)) ∨
    ∃ q, m.applyChanges [] (LevelChange.inOrder m.pending.toList) = (.ok (), q) ∧
      ((∃ resampler, q.resampler.endFrame (.ofNat time) = .ok resampler ∧
          m.endFrame time = (.ok (), { q with resampler })) ∨
        ∃ e, q.resampler.endFrame (.ofNat time) = .error e ∧ m.endFrame time = (.error e, q)) := by
  unfold endFrame
  rcases hq : m.applyChanges [] (LevelChange.inOrder m.pending.toList) with ⟨e | ⟨⟩, q⟩
  · exact .inl ⟨e, q, rfl, rfl⟩
  · refine .inr ⟨q, rfl, ?_⟩
    dsimp only
    cases q.resampler.endFrame (.ofNat time) with
    | ok resampler => exact .inl ⟨resampler, rfl, rfl⟩
    | error e => exact .inr ⟨e, rfl, rfl⟩

/-- A frame that is ended has carried out all moments. -/
theorem endFrame_ok_iff {time : Nat} : m.endFrame time = (.ok (), q) ↔ ∃ p resampler,
    m.applyChanges [] (LevelChange.inOrder m.pending.toList) = (.ok (), p) ∧
      p.resampler.endFrame (.ofNat time) = .ok resampler ∧ q = { p with resampler } := by
  rcases m.endFrame_cases time with ⟨e, p, hp, he⟩ | ⟨p, hp, ⟨resampler, hr, he⟩ | ⟨e, hr, he⟩⟩
  · rw [he, hp]
    exact ⟨fun h => (by cases h), fun ⟨_, _, h, _⟩ => (by cases h)⟩
  · rw [he, hp]
    constructor
    · intro h
      cases h
      exact ⟨p, resampler, rfl, hr, rfl⟩
    · rintro ⟨p, resampler', hp, hr', rfl⟩
      cases hp
      cases hr.symm.trans hr'
      rfl
  · rw [he, hp]
    refine ⟨fun h => (by cases h), ?_⟩
    rintro ⟨p, resampler', hp, hr', -⟩
    cases hp
    cases hr.symm.trans hr'

/-- A frame is played by ending it and reading samples. -/
theorem playFrame_cases (m : Mixer) (time : Nat) :
    (∃ e q, m.endFrame time = (.error e, q) ∧ m.playFrame time = (.error e, q)) ∨
    ∃ q, m.endFrame time = (.ok (), q) ∧ m.playFrame time = (.ok (), { q with
      resampler := (q.resampler.read (q.settings.bufferSamples.toNat - q.output.size)).2
      output := q.output ++ (q.resampler.read (q.settings.bufferSamples.toNat - q.output.size)).1 }) := by
  unfold playFrame
  rcases hq : m.endFrame time with ⟨e | ⟨⟩, q⟩
  · exact .inl ⟨e, q, rfl, rfl⟩
  · exact .inr ⟨q, rfl, rfl⟩

/-! ## The setup over the operations -/

theorem setup_addDelta (m : Mixer) (channel : Channel) (cycle : Nat) (amount : Int16) :
    (m.addDelta channel cycle amount).setup = m.setup := by
  unfold addDelta
  split
  · rfl
  · rfl

theorem setup_endFrame (m : Mixer) (time : Nat) : (m.endFrame time).2.setup = m.setup := by
  have hk := m.applyChanges_keeps [] (LevelChange.inOrder m.pending.toList)
  rcases m.endFrame_cases time with ⟨e, q, hq, he⟩ | ⟨q, hq, ⟨r, hr, he⟩ | ⟨e, -, he⟩⟩
  · rw [hq] at hk
    rw [he]
    exact hk.setup_eq
  · rw [hq] at hk
    obtain ⟨-, hc, hf⟩ := Resampler.holds_of_endFrame hr
    rw [he, ← hk.setup_eq]
    show Setup.mk _ _ _ _ = Setup.mk _ _ _ _
    rw [hc, hf]
  · rw [hq] at hk
    rw [he]
    exact hk.setup_eq

theorem setup_playFrame (m : Mixer) (time : Nat) : (m.playFrame time).2.setup = m.setup := by
  have hs := m.setup_endFrame time
  rcases m.playFrame_cases time with ⟨e, q, hq, hp⟩ | ⟨q, hq, hp⟩
  · rw [hq] at hs
    rw [hp]
    exact hs
  · rw [hq] at hs
    obtain ⟨hc, hf⟩ := q.resampler.read_clock (q.settings.bufferSamples.toNat - q.output.size)
    rw [hp, ← hs]
    show Setup.mk _ _ _ _ = Setup.mk _ _ _ _
    rw [hc, hf]

/-- Setting the clock gives the clock of the region, or leaves everything as it was. -/
theorem retune_spec (m : Mixer) (hs : m.settings.sampleRate ≠ 0) :
    (∃ units, Resampler.unitsPerClock? m.region.cpuRate.toNat m.settings.sampleRate.toNat =
        some units ∧
      m.retune = (.ok (), { m with resampler := { m.resampler with factor := .ofNat units } })) ∨
    (Resampler.unitsPerClock? m.region.cpuRate.toNat m.settings.sampleRate.toNat = none ∧
      m.retune = (.error .ratioTooLarge, m)) := by
  have hcpu : m.region.cpuRate ≠ 0 := by cases m.region <;> decide
  unfold retune Resampler.setRates
  rw [if_neg (not_or.mpr ⟨hcpu, hs⟩)]
  cases Resampler.unitsPerClock? m.region.cpuRate.toNat m.settings.sampleRate.toNat with
  | none => exact .inr ⟨rfl, rfl⟩
  | some units => exact .inl ⟨units, rfl, rfl⟩

/-- Setting the clock tunes a mixer whose setup is right but for the clock. -/
theorem tuned_retune (hc : m.resampler.capacity = m.settings.bufferSamples.toNat)
    (h0 : m.resampler.capacity ≠ 0) (hspace : HasRoom m.settings) (hs : m.settings.sampleRate ≠ 0) :
    m.retune.2.setup.Tuned := by
  rcases m.retune_spec hs with ⟨units, hu, hr⟩ | ⟨hu, hr⟩
  · rw [hr]
    refine ⟨hc, h0, hspace, hs, fun units' hu' => ?_⟩
    cases hu.symm.trans hu'
    rfl
  · rw [hr]
    refine ⟨hc, h0, hspace, hs, fun units' hu' => ?_⟩
    cases hu.symm.trans hu'

/-- What can become of a mixer. -/
inductive Reachable : Mixer → Prop where
  | new {region : Region} {settings : MixerSettings} {m : Mixer} :
      Mixer.new region settings = .ok m → Reachable m
  | addDelta {m : Mixer} (channel : Channel) (cycle : Nat) (amount : Int16) :
      Reachable m → Reachable (m.addDelta channel cycle amount)
  | endFrame {m : Mixer} (time : Nat) : Reachable m → Reachable (m.endFrame time).2
  | playFrame {m : Mixer} (time : Nat) : Reachable m → Reachable (m.playFrame time).2
  | takeSamples {m : Mixer} : Reachable m → Reachable m.takeSamples.2
  | setRegion {m : Mixer} (region : Region) : Reachable m → Reachable (m.setRegion region).2
  | reset {m : Mixer} : Reachable m → Reachable m.reset.2

/-- A silent mixer whose clock has so many units, with so much of the first sample gone by. -/
def silent (region : Region) (settings : MixerSettings) (units : Nat) (offset : UInt64) : Mixer where
  region := region
  settings := settings
  pending := #[]
  levels := {}
  lastOutput := 0
  resampler :=
    { capacity := settings.bufferSamples.toNat, factor := .ofNat units, offset, available := 0,
      available_le := Nat.zero_le _, level := 0, slots := .replicate _ 0 }
  output := #[]

/-- A mixer is built where there is room, and can be, and the rates have a clock.  The first sample is
    then half gone by in units of the highest ratio, whatever the clock is. -/
theorem new_eq_ok_iff {region : Region} {settings : MixerSettings} :
    Mixer.new region settings = .ok m ↔
      settings.bufferSamples.toNat ≠ 0 ∧ HasRoom settings ∧ settings.sampleRate ≠ 0 ∧
        ∃ units, Resampler.unitsPerClock? region.cpuRate.toNat settings.sampleRate.toNat =
          some units ∧ m = silent region settings units 0x80000000 := by
  have hcpu : region.cpuRate ≠ 0 := by cases region <;> decide
  unfold Mixer.new Resampler.new Resampler.setRates
  by_cases hb : settings.bufferSamples.toNat = 0
  · simp [hb, bind, Except.bind]
  by_cases hspace : HasRoom settings
  case neg =>
    have hlarge : ¬ settings.bufferSamples.toNat + Resampler.extraSlots ≤ Resampler.maxSlots := hspace
    simp [hb, hlarge, hspace, bind, Except.bind]
  have hroom : settings.bufferSamples.toNat + Resampler.extraSlots ≤ Resampler.maxSlots := hspace
  by_cases hs : settings.sampleRate = 0
  · simp [hb, hroom, hs, bind, Except.bind]
  simp only [bind, Except.bind, if_neg hb, if_pos hroom, if_neg (not_or.mpr ⟨hcpu, hs⟩)]
  cases Resampler.unitsPerClock? region.cpuRate.toNat settings.sampleRate.toNat with
  | none => simp
  | some units =>
    constructor
    · intro h
      cases h
      exact ⟨hb, hspace, hs, units, rfl, rfl⟩
    · rintro ⟨-, -, -, _, hu, rfl⟩
      cases hu
      rfl

/-- In every state of a mixer the resampler is set up as the settings and the region ask. -/
theorem Reachable.tuned (h : Reachable m) : m.setup.Tuned := by
  induction h with
  | new hm =>
    obtain ⟨hb, hspace, hs, units, hu, rfl⟩ := new_eq_ok_iff.mp hm
    refine ⟨rfl, hb, hspace, hs, fun units' hu' => ?_⟩
    cases hu.symm.trans hu'
    rfl
  | @addDelta m channel cycle amount _ ih => rwa [setup_addDelta]
  | @endFrame m time _ ih => rwa [setup_endFrame]
  | @playFrame m time _ ih => rwa [setup_playFrame]
  | takeSamples _ ih => exact ih
  | setRegion region _ ih => exact tuned_retune ih.capacity ih.capacity_ne_zero ih.room ih.sampleRate_ne_zero
  | reset _ ih => exact tuned_retune ih.capacity ih.capacity_ne_zero ih.room ih.sampleRate_ne_zero

end Mixer

end Famicom
