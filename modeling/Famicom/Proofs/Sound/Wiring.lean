/-
  What a sound unit is built as, and how a reset gives the unit at power-on back.

  A few fields are not the state of a run: which channel a pulse channel is and how its sweep negates,
  the region that each circuit takes its table from, and what the mixer is set up for.  They are the
  `Wiring` of the unit.  A reset keeps them and makes all else new, so what it gives is the new unit of
  that wiring.

  1. **Parts**: no register, no clock and no run of a channel rewires it (`Pulse.identity_run`,
     `Dmc.region_run` and their kin).
  2. **The unit**: nor does anything done to the unit, one lemma for each, but for a change of region.
     That is never refused, since the processor's rate has a clock for every number of samples, and it
     takes the wiring of one region to that of the other (`setRegion_regular`).
  3. **Reset** (`reset_regular`): from the wiring of a region it cannot be refused, and gives the new
     unit of the region but for the mixer.
-/
import Famicom.Proofs.Resampler.Clock
import Famicom.Proofs.Sound.CatchUp

namespace Famicom

/-! ## Channels and the frame counter -/

namespace Pulse

/-- Which channel it is, and how its sweep negates. -/
def identity (p : Pulse) : Channel × Bool := (p.voice.channel, p.sweep.onesComplement)

theorem identity_updateAt (p : Pulse) (cycle : Nat) (m : Mixer) :
    (p.updateAt cycle m).1.identity = p.identity := by
  have hv : (p.updateAt cycle m).1.voice = { p.voice with level := p.level } := Voice.set_eq _ _ _ m
  unfold identity
  rw [hv]
  rfl

/-- A pulse channel that runs stays the one it is. -/
theorem identity_run (p : Pulse) (target : Nat) (m : Mixer) :
    (p.run target m).1.identity = p.identity := by
  refine Timer.drive_inv (P := fun s : Pulse × Mixer => s.1.identity = p.identity) ?_ target p.timer rfl
  intro cycle s h
  exact (identity_updateAt _ cycle s.2).trans h

theorem identity_clockSweep (p : Pulse) : p.clockSweep.identity = p.identity := by
  unfold clockSweep
  split
  · next h => exact congrArg (fun r => (p.voice.channel, Sweep.onesComplement r.2)) h.symm
  · next h => exact congrArg (fun r => (p.voice.channel, Sweep.onesComplement r.2)) h.symm

/-- So does one whose registers are written. -/
theorem identity_write (p : Pulse) (register : UInt16) (data : UInt8) (m : Mixer) :
    (p.write register data m).1.identity = p.identity := by
  unfold write
  split
  · exact identity_updateAt _ _ m
  · exact identity_updateAt _ _ m
  · exact identity_updateAt _ _ m
  · exact identity_updateAt _ _ m

/-- A reset channel is a new one of the same identity. -/
theorem reset_eq_of_identity {p q : Pulse} (h : p.identity = q.identity) (hq : q.reset = q) :
    p.reset = q := by
  obtain ⟨hc, hs⟩ := Prod.mk.inj h
  rw [← hq]
  unfold reset Sweep.reset
  rw [hc, hs]

end Pulse

/-- Running does not change the region of the noise channel. -/
theorem Noise.region_run (n : Noise) (target : Nat) (m : Mixer) :
    (n.run target m).1.region = n.region := by
  refine Timer.drive_inv (P := fun s : Noise × Mixer => s.1.region = n.region) ?_ target n.timer rfl
  intro cycle s h
  exact h

theorem Noise.region_write (n : Noise) (register : UInt16) (data : UInt8) (m : Mixer) :
    (n.write register data m).1.region = n.region := by
  unfold Noise.write
  split
  · rfl
  · rfl
  · rfl
  · rfl

namespace Dmc

theorem region_expire (cycle : Nat) (s : Dmc × Mixer) : (expire cycle s).1.region = s.1.region := by
  have hbit := s.1.kept_playBit.region
  unfold expire
  dsimp only
  split
  · exact (kept_nextByte _).region.trans hbit
  · exact hbit

/-- Nor that of the delta modulation channel. -/
theorem region_run (d : Dmc) (target : Nat) (m : Mixer) : (d.run target m).1.region = d.region := by
  refine Timer.drive_inv (P := fun s : Dmc × Mixer => s.1.region = d.region) ?_ target d.timer rfl
  intro cycle s h
  exact (region_expire cycle s).trans h

theorem region_write (d : Dmc) (register : UInt16) (data : UInt8) (m : Mixer) :
    (d.write register data m).1.region = d.region := by
  unfold write
  split
  · rfl
  · rfl
  · rfl
  · rfl

end Dmc

namespace FrameCounter

theorem region_settle (event : Option FrameEvent) (f : FrameCounter) :
    (f.settle event).2.region = f.region := by
  unfold settle
  split
  · rfl
  · split
    · rfl
    · dsimp only
      split
      · rfl
      · rfl

theorem region_goOn (f : FrameCounter) (cycles : Nat) : (f.goOn cycles).2.region = f.region := by
  unfold goOn
  split
  · rfl
  · rfl

theorem region_run (f : FrameCounter) (cycles : Nat) : (f.run cycles).2.region = f.region :=
  (region_settle _ _).trans (f.region_goOn cycles)

/-- A loop of runs keeps the region of the frame counter. -/
theorem region_drive {σ : Type} (act : Nat → Option FrameEvent → σ → σ) (cycles : Nat)
    (f : FrameCounter) (s : σ) : (f.drive act cycles s).1.region = f.region := by
  induction cycles, f, s using FrameCounter.drive.induct act with
  | case1 f s =>
    rw [drive, dif_pos rfl]
  | case2 cycles f s hc r ih =>
    rw [drive, dif_neg hc]
    exact ih.trans (f.region_run cycles)

end FrameCounter

/-! ## The mixer -/

open Mixer (Notes)

/-- A pulse channel's registers do no more to the mixer than to note changes of level. -/
theorem Pulse.notes_write (p : Pulse) (register : UInt16) (data : UInt8) (m : Mixer) :
    Notes m (p.write register data m).2 := by
  unfold Pulse.write
  split
  · exact Voice.notes_set _ _ _ m
  · exact Voice.notes_set _ _ _ m
  · exact Voice.notes_set _ _ _ m
  · exact Voice.notes_set _ _ _ m

/-- So do those of the triangle channel. -/
theorem Triangle.notes_write (t : Triangle) (register : UInt16) (data : UInt8) (m : Mixer) :
    Notes m (t.write register data m).2 := by
  unfold Triangle.write
  split
  · exact .refl m
  · exact .refl m
  · exact .refl m
  · exact .refl m

/-- And those of the noise channel. -/
theorem Noise.notes_write (n : Noise) (register : UInt16) (data : UInt8) (m : Mixer) :
    Notes m (n.write register data m).2 := by
  unfold Noise.write
  split
  · exact .refl m
  · exact .refl m
  · exact .refl m
  · exact .refl m

/-- And those of the delta modulation channel. -/
theorem Dmc.notes_write (d : Dmc) (register : UInt16) (data : UInt8) (m : Mixer) :
    Notes m (d.write register data m).2 := by
  unfold Dmc.write
  split
  · exact .refl m
  · exact Voice.notes_set _ _ _ m
  · exact .refl m
  · exact .refl m

namespace Mixer

variable {m q : Mixer}

/-- Noting changes leaves the mixer's region and settings alone. -/
theorem Notes.purpose (h : Notes m q) : q.region = m.region ∧ q.settings = m.settings := by
  obtain ⟨_, rfl⟩ := h
  exact ⟨rfl, rfl⟩

/-- Playing a frame leaves them alone, whether it succeeds or not. -/
theorem purpose_playFrame (m : Mixer) (time : Nat) :
    (m.playFrame time).2.region = m.region ∧ (m.playFrame time).2.settings = m.settings := by
  have hs := m.setup_playFrame time
  exact ⟨congrArg Setup.region hs, congrArg Setup.settings hs⟩

theorem purpose_retune (m : Mixer) :
    m.retune.2.region = m.region ∧ m.retune.2.settings = m.settings := by
  unfold retune
  split
  · exact ⟨rfl, rfl⟩
  · exact ⟨rfl, rfl⟩

/-- The clock of a region can be set for every number of samples. -/
theorem retune_eq_ok (m : Mixer) (hs : m.settings.sampleRate ≠ 0) :
    ∃ resampler, m.retune = (.ok (), { m with resampler }) := by
  obtain ⟨units, hu⟩ := Resampler.exists_unitsPerClock_cpu m.region m.settings.sampleRate
  rcases m.retune_spec hs with ⟨_, -, hr⟩ | ⟨hnone, -⟩
  · exact ⟨_, hr⟩
  · cases hu.symm.trans hnone

/-- A mixer that makes samples can be switched to any region. -/
theorem setRegion_eq_ok (m : Mixer) (region : Region) (hs : m.settings.sampleRate ≠ 0) :
    ∃ resampler, m.setRegion region = (.ok (), { m with region, resampler }) :=
  retune_eq_ok { m with region } hs

/-- And it can be reset. -/
theorem reset_eq_ok_of_rate (m : Mixer) (hs : m.settings.sampleRate ≠ 0) :
    ∃ q, m.reset = (.ok (), q) ∧ q.region = m.region ∧ q.settings = m.settings := by
  obtain ⟨resampler, hr⟩ := retune_eq_ok
    { m with
      output := #[], lastOutput := 0, resampler := m.resampler.clear, pending := #[], levels := {} } hs
  exact ⟨_, hr, rfl, rfl⟩

end Mixer

/-! ## The unit -/

namespace Sound

/-- What a sound unit is built as. -/
structure Wiring where
  region : Region
  pulse1 : Channel × Bool
  pulse2 : Channel × Bool
  noise : Region
  dmc : Region
  frameCounter : Region
  mixer : Region
  settings : MixerSettings

/-- The wiring of a unit. -/
def wiring (s : Sound) : Wiring where
  region := s.region
  pulse1 := s.pulse1.identity
  pulse2 := s.pulse2.identity
  noise := s.noise.region
  dmc := s.dmc.region
  frameCounter := s.frameCounter.region
  mixer := s.mixer.region
  settings := s.mixer.settings

/-- The wiring of a new unit. -/
def Wiring.regular (region : Region) (settings : MixerSettings) : Wiring where
  region := region
  pulse1 := (.pulse1, true)
  pulse2 := (.pulse2, false)
  noise := region
  dmc := region
  frameCounter := region
  mixer := region
  settings := settings

variable {s q : Sound}

/-- Parts of the same wiring make units of the same wiring. -/
theorem wiring_congr (hr : q.region = s.region) (h₁ : q.pulse1.identity = s.pulse1.identity)
    (h₂ : q.pulse2.identity = s.pulse2.identity) (hn : q.noise.region = s.noise.region)
    (hd : q.dmc.region = s.dmc.region) (hf : q.frameCounter.region = s.frameCounter.region)
    (hm : q.mixer.region = s.mixer.region ∧ q.mixer.settings = s.mixer.settings) :
    q.wiring = s.wiring := by
  unfold wiring
  rw [hr, h₁, h₂, hn, hd, hf, hm.1, hm.2]

/-- Whatever the frame counter announces, everything stays where it is wired. -/
theorem wiring_clock (event : Option FrameEvent) (s : Sound) : (s.clock event).wiring = s.wiring := by
  rcases event with _ | _ | _
  · rfl
  · rfl
  · exact wiring_congr rfl (Pulse.identity_clockSweep _) (Pulse.identity_clockSweep _) rfl rfl rfl
      ⟨rfl, rfl⟩

/-- Running the channels keeps the wiring. -/
theorem wiring_runChannels (s : Sound) : s.runChannels.wiring = s.wiring := by
  obtain ⟨-, -, -, hn⟩ := s.runChannels_spec
  exact wiring_congr rfl (Pulse.identity_run _ _ _) (Pulse.identity_run _ _ _)
    (Noise.region_run _ _ _) (Dmc.region_run _ _ _) rfl hn.purpose

theorem wiring_advance (cycles : Nat) (event : Option FrameEvent) (s : Sound) :
    (advance cycles event s).wiring = s.wiring :=
  (wiring_runChannels _).trans (wiring_clock event { s with previous := s.previous + cycles })

/-- Catching up keeps the wiring. -/
theorem wiring_catchUp (s : Sound) : s.catchUp.wiring = s.wiring := by
  have hs : (s.frameCounter.drive advance (s.current - s.previous) s).2.wiring = s.wiring := by
    refine FrameCounter.drive_inv (P := fun _ (q : Sound) => q.wiring = s.wiring) ?_ _
      s.frameCounter rfl
    intro _ taken event q _ h
    exact (wiring_advance taken event q).trans h
  have hf := s.frameCounter.region_drive advance (s.current - s.previous) s
  rw [catchUp_eq, ← hs]
  refine wiring_congr rfl rfl rfl rfl rfl ?_ ⟨rfl, rfl⟩
  exact hf.trans (congrArg Wiring.frameCounter hs).symm

/-- So does the end of a frame. -/
theorem wiring_endFrame (s : Sound) : s.endFrame.2.wiring = s.wiring := by
  have hm := s.catchUp.mixer.purpose_playFrame s.catchUp.current
  rw [← wiring_catchUp s]
  unfold endFrame
  dsimp only
  split
  · next mixer h =>
    rw [h] at hm
    exact wiring_congr rfl rfl rfl rfl rfl rfl hm
  · next e mixer h =>
    rw [h] at hm
    exact wiring_congr rfl rfl rfl rfl rfl rfl hm

theorem wiring_process (s : Sound) : s.process.2.wiring = s.wiring := by
  unfold process
  dsimp only
  split
  · exact wiring_endFrame { s with current := s.current + 1 }
  · refine (wiring_catchUp _).trans ?_
    exact wiring_congr rfl rfl rfl rfl s.dmc.kept_tickStartDelay.region rfl ⟨rfl, rfl⟩

theorem wiring_takeDmcRequest (s : Sound) : s.takeDmcRequest.2.wiring = s.wiring :=
  wiring_congr rfl rfl rfl rfl s.dmc.kept_takeRequest.region rfl ⟨rfl, rfl⟩

theorem wiring_fillDmc (s : Sound) (value : UInt8) : (s.fillDmc value).wiring = s.wiring :=
  wiring_congr rfl rfl rfl rfl (s.dmc.kept_fill value).region rfl ⟨rfl, rfl⟩

theorem wiring_takeSamples (s : Sound) : s.takeSamples.2.wiring = s.wiring := rfl

theorem wiring_read (s : Sound) (addr : UInt16) : (s.read addr).2.wiring = s.wiring := by
  rw [← wiring_catchUp s]
  unfold read
  dsimp only
  split
  · rfl
  · rfl

/-- No register is wired elsewhere by writing it. -/
theorem wiring_writeRegister (s : Sound) (addr : UInt16) (data : UInt8) :
    (s.writeRegister addr data).wiring = s.wiring := by
  unfold writeRegister
  dsimp only
  split
  · exact wiring_congr rfl (Pulse.identity_write _ _ _ _) rfl rfl rfl rfl
      (Pulse.notes_write _ _ _ _).purpose
  · exact wiring_congr rfl rfl (Pulse.identity_write _ _ _ _) rfl rfl rfl
      (Pulse.notes_write _ _ _ _).purpose
  · exact wiring_congr rfl rfl rfl rfl rfl rfl (Triangle.notes_write _ _ _ _).purpose
  · exact wiring_congr rfl rfl rfl (Noise.region_write _ _ _ _) rfl rfl
      (Noise.notes_write _ _ _ _).purpose
  · exact wiring_congr rfl rfl rfl rfl (Dmc.region_write _ _ _ _) rfl
      (Dmc.notes_write _ _ _ _).purpose
  · split
    · exact wiring_congr rfl rfl rfl rfl (Dmc.kept_setEnabled _ _).region rfl ⟨rfl, rfl⟩
    · split
      · rfl
      · rfl

theorem wiring_write (s : Sound) (addr : UInt16) (data : UInt8) :
    (s.write addr data).wiring = s.wiring :=
  (wiring_writeRegister s.catchUp addr data).trans (wiring_catchUp s)

/-! ## Power-on, another region, and reset -/

variable {region : Region} {settings : MixerSettings}

/-- A new unit is built of the mixer and of parts that are new. -/
theorem new_eq_ok (h : Sound.new region settings = .ok s) :
    s.wiring = .regular region settings ∧
      s = { region, pulse1 := .first, pulse2 := .second, triangle := {}, noise := .new region,
            dmc := .new region, frameCounter := .new region, mixer := s.mixer, current := 0,
            previous := 0 } := by
  unfold Sound.new at h
  cases hm : Mixer.new region settings with
  | error e =>
    rw [hm] at h
    cases h
  | ok m =>
    rw [hm] at h
    cases h
    obtain ⟨-, -, -, units, -, rfl⟩ := Mixer.new_eq_ok_iff.mp hm
    exact ⟨rfl, rfl⟩

/-- A unit has all the slots that its settings ask for. -/
theorem hasRoom_of_new (h : Sound.new region settings = .ok s) : Mixer.HasRoom settings := by
  unfold Sound.new at h
  cases hm : Mixer.new region settings with
  | error e =>
    rw [hm] at h
    cases h
  | ok m => exact (Mixer.new_eq_ok_iff.mp hm).2.1

/-- The settings for which there is a unit do not depend on the region. -/
theorem exists_new (hb : settings.bufferSamples ≠ 0) (hspace : Mixer.HasRoom settings)
    (hs : settings.sampleRate ≠ 0) (region : Region) : ∃ s, Sound.new region settings = .ok s := by
  obtain ⟨units, hu⟩ := Resampler.exists_unitsPerClock_cpu region settings.sampleRate
  have hroom : settings.bufferSamples.toNat ≠ 0 := fun e => hb (UInt64.toNat_inj.mp e)
  have hm : Mixer.new region settings = .ok (.silent region settings units 0x80000000) :=
    Mixer.new_eq_ok_iff.mpr ⟨hroom, hspace, hs, units, hu, rfl⟩
  unfold Sound.new
  rw [hm]
  exact ⟨_, rfl⟩

/-- A change of region is never refused, and rewires the unit for the region it changes to. -/
theorem setRegion_regular (h : s.wiring = .regular region settings) (hs : settings.sampleRate ≠ 0)
    (other : Region) :
    (s.setRegion other).1 = .ok () ∧ (s.setRegion other).2.wiring = .regular other settings := by
  have hset : s.mixer.settings = settings := congrArg Wiring.settings h
  obtain ⟨resampler, hm⟩ := s.mixer.setRegion_eq_ok other (by rw [hset]; exact hs)
  unfold setRegion
  dsimp only
  rw [hm]
  refine ⟨rfl, ?_⟩
  -- all circuits but the frame counter follow before the unit catches up, and it does after
  have hc := wiring_catchUp { s with
    region := other, mixer := { s.mixer with region := other, resampler }
    dmc := s.dmc.setRegion other, noise := s.noise.setRegion other }
  have hfirst : s.pulse1.identity = (.pulse1, true) := congrArg Wiring.pulse1 h
  have hsecond : s.pulse2.identity = (.pulse2, false) := congrArg Wiring.pulse2 h
  unfold Wiring.regular
  rw [← hset, ← hfirst, ← hsecond]
  exact congrArg (fun w : Wiring => { w with frameCounter := other }) hc

/-- A unit that is wired as a region's can be reset, and is then the new one but for the mixer. -/
theorem reset_regular (h : s.wiring = .regular region settings) (hs : settings.sampleRate ≠ 0)
    (hq : Sound.new region settings = .ok q) :
    ∃ mixer, s.reset = (.ok (), { q with mixer }) ∧ mixer.region = region ∧
      mixer.settings = settings := by
  have hset : s.mixer.settings = settings := congrArg Wiring.settings h
  have hfirst : s.pulse1.reset = .first :=
    Pulse.reset_eq_of_identity (congrArg Wiring.pulse1 h) rfl
  have hsecond : s.pulse2.reset = .second :=
    Pulse.reset_eq_of_identity (congrArg Wiring.pulse2 h) rfl
  have hregion : s.region = region := congrArg Wiring.region h
  have hnoise : s.noise.reset = .new region := congrArg Noise.new (congrArg Wiring.noise h)
  have hdmc : s.dmc.reset = .new region := congrArg Dmc.new (congrArg Wiring.dmc h)
  have hcounter : s.frameCounter.reset = .new region :=
    congrArg FrameCounter.new (congrArg Wiring.frameCounter h)
  obtain ⟨mixer, hm, hr, hms⟩ := s.mixer.reset_eq_ok_of_rate (by rw [hset]; exact hs)
  refine ⟨mixer, ?_, hr.trans (congrArg Wiring.mixer h), hms.trans hset⟩
  rw [(new_eq_ok hq).2]
  unfold reset
  rw [hm, hfirst, hsecond, hregion, hnoise, hdmc, hcounter]
  rfl

end Sound

end Famicom
