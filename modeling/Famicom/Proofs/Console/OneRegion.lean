/-
  One region for the whole console.

  The clock, the picture unit, the sound unit with three of its circuits, the mixer and the settings each
  keep the name of a region and look their numbers up by it.  Only the clock of the resampler is not
  looked up: it is worked out when the mixer is set to a region.  A change of region sets one part after
  the other and takes nothing back, so that it is all or nothing needs both that the parts agree at all
  times and that none of them refuses.

  1. **The mixer** (`Setup.InTune`): where there are samples at all, the clock of the resampler is that
     of the mixer's region.  To set it is never refused (`Resampler.setRates_cpu`).
  2. **The sound unit** (`Served.inTune`): it is in tune after a reset as when it was built, and of all
     acts only a change of region touches the clock.
  3. **The console** (`Reachable.agrees`): by `Aligned` the parts name one region, and what they look up
     by it are the numbers of that region.

  Main statement: at all times the console agrees on one region, and a change of region either changes
  it everywhere or, where the pause before it fails, nowhere (`setRegion_all_or_nothing`).
-/
import Famicom.Proofs.Console.SampleFetch

namespace Famicom

/-! ## The mixer -/

/-- To set the clock of a region is refused for no number of samples but zero. -/
theorem Resampler.setRates_cpu (r : Resampler) (region : Region) {sampleRate : UInt32}
    (hs : sampleRate ≠ 0) :
    ∃ units, unitsPerClock? region.cpuRate.toNat sampleRate.toNat = some units ∧
      r.setRates region.cpuRate sampleRate = .ok { r with factor := .ofNat units } := by
  obtain ⟨units, hu⟩ := exists_unitsPerClock_cpu region sampleRate
  have hcpu : region.cpuRate ≠ 0 := by cases region <;> decide
  refine ⟨units, hu, ?_⟩
  unfold setRates
  rw [if_neg (not_or.mpr ⟨hcpu, hs⟩), hu]

namespace Mixer

variable {m q : Mixer}

/-- If there are samples at all, the clock is that of the region. -/
def Setup.InTune (s : Setup) : Prop :=
  s.settings.sampleRate ≠ 0 →
    ∃ units, Resampler.unitsPerClock? s.region.cpuRate.toNat s.settings.sampleRate.toNat = some units ∧
      s.factor = .ofNat units

/-- Noting changes leaves the mixer set up as it is. -/
theorem Notes.setup (h : Notes m q) : q.setup = m.setup := by
  obtain ⟨_, rfl⟩ := h
  rfl

/-- A mixer that was told to set the clock is in tune. -/
theorem inTune_retune (m : Mixer) : m.retune.2.setup.InTune := by
  intro hs
  rw [show m.retune.2.setup.settings = m.settings from m.purpose_retune.2] at hs ⊢
  rw [show m.retune.2.setup.region = m.region from m.purpose_retune.1]
  obtain ⟨units, hu, hr⟩ := m.resampler.setRates_cpu m.region hs
  refine ⟨units, hu, ?_⟩
  unfold retune
  rw [hr]
  rfl

/-- A mixer that could be built is in tune. -/
theorem inTune_new {region : Region} {settings : MixerSettings} (h : Mixer.new region settings = .ok m) :
    m.setup.InTune := by
  obtain ⟨-, -, -, units, hu, rfl⟩ := new_eq_ok_iff.mp h
  exact fun _ => ⟨units, hu, rfl⟩

end Mixer

/-! ## The sound unit -/

namespace Sound

variable {s : Sound}

/-- Catching up leaves the mixer set up as it is. -/
theorem setup_catchUp (s : Sound) : s.catchUp.mixer.setup = s.mixer.setup := by
  rcases Nat.lt_or_ge s.previous s.current with h | h
  · obtain ⟨-, -, -, hn⟩ := catchUp_spec h
    exact hn.setup
  · rw [catchUp_self h]

/-- So does the end of a frame, played or refused. -/
theorem setup_endFrame (s : Sound) : s.endFrame.2.mixer.setup = s.mixer.setup := by
  have hplay := s.catchUp.mixer.setup_playFrame s.catchUp.current
  rw [← setup_catchUp s, ← hplay]
  unfold endFrame
  dsimp only
  split
  · next mixer h => rw [h]
  · next e mixer h => rw [h]

theorem setup_process (s : Sound) : s.process.2.mixer.setup = s.mixer.setup := by
  unfold process
  dsimp only
  split
  · exact setup_endFrame _
  · exact setup_catchUp _

theorem setup_read (s : Sound) (addr : UInt16) : (s.read addr).2.mixer.setup = s.mixer.setup := by
  rw [← setup_catchUp s]
  unfold read
  dsimp only
  split
  · rfl
  · rfl

theorem setup_writeRegister (s : Sound) (addr : UInt16) (data : UInt8) :
    (s.writeRegister addr data).mixer.setup = s.mixer.setup := by
  unfold writeRegister
  dsimp only
  split
  · exact (Pulse.notes_write _ _ _ _).setup
  · exact (Pulse.notes_write _ _ _ _).setup
  · exact (Triangle.notes_write _ _ _ _).setup
  · exact (Noise.notes_write _ _ _ _).setup
  · exact (Dmc.notes_write _ _ _ _).setup
  · split
    · rfl
    · split
      · rfl
      · rfl

/-- So does a register. -/
theorem setup_write (s : Sound) (addr : UInt16) (data : UInt8) :
    (s.write addr data).mixer.setup = s.mixer.setup :=
  (setup_writeRegister s.catchUp addr data).trans (setup_catchUp s)

theorem setup_serve (s : Sound) (value : UInt8) : (s.serve value).mixer.setup = s.mixer.setup := by
  unfold serve takeDmcRequest
  dsimp only
  split
  · next h =>
    obtain ⟨-, rfl⟩ := Prod.mk.inj h
    rfl
  · next h =>
    obtain ⟨-, rfl⟩ := Prod.mk.inj h
    rfl

/-- Switching the region leaves the mixer in tune, whether it is taken or not. -/
theorem inTune_setRegion (s : Sound) (region : Region) :
    (s.setRegion region).2.mixer.setup.InTune := by
  have hset : (s.mixer.setRegion region).2.setup.InTune :=
    Mixer.inTune_retune { s.mixer with region }
  unfold setRegion
  dsimp only
  split
  · next e mixer h =>
    rw [h] at hset
    exact hset
  · next mixer h =>
    rw [h] at hset
    exact (setup_catchUp { s with
      region, mixer, dmc := s.dmc.setRegion region, noise := s.noise.setRegion region }) ▸ hset

theorem Begun.inTune (h : Begun s) : s.mixer.setup.InTune := by
  cases h with
  | @new region settings _ hs =>
    unfold Sound.new at hs
    cases hm : Mixer.new region settings with
    | error e =>
      rw [hm] at hs
      cases hs
    | ok m =>
      rw [hm] at hs
      cases hs
      exact Mixer.inTune_new hm
  | reset s => exact Mixer.inTune_retune _

/-- A unit that is served stays in tune. -/
theorem Served.inTune (h : s.Served) : s.mixer.setup.InTune := by
  induction h with
  | begun hs => exact hs.inTune
  | @perform s _ act ih =>
    cases act with
    | process => exact s.setup_process ▸ ih
    | endFrame => exact s.setup_endFrame ▸ ih
    | read addr => exact s.setup_read addr ▸ ih
    | write addr data => exact s.setup_write addr data ▸ ih
    | takeSamples => exact ih
    | setRegion region => exact s.inTune_setRegion region
    | serve value => exact s.setup_serve value ▸ ih

end Sound

/-! ## The console -/

namespace Console

variable {γ : Type} {settings : Settings} {region : Region} {c : Console γ}

/-- Every part of a console names this region. -/
structure Named (region : Region) (c : Console γ) : Prop where
  clock : c.clock.region = region
  settings : c.settings.region = region
  picture : c.machine.board.picture.region = region
  sound : c.machine.board.sound.region = region
  noise : c.machine.board.sound.noise.region = region
  dmc : c.machine.board.sound.dmc.region = region
  frameCounter : c.machine.board.sound.frameCounter.region = region
  mixer : c.machine.board.sound.mixer.region = region

/-- Every part of a console names this region and goes by its numbers. -/
structure Agrees (region : Region) (c : Console γ) : Prop extends Named region c where
  /-- How far the clock goes for a picture, to the next processor cycle and to the next dot. -/
  dividers : c.clock.cyclesFor .frame = region.frameCycles ∧
    c.clock.cyclesFor .cpuCycle = region.cpuDivider - c.clock.cpuPhase ∧
    c.clock.cyclesFor .dot = region.dotDivider - c.clock.dotPhase
  /-- The step that the frame counter waits for. -/
  steps : c.machine.board.sound.frameCounter.dueCycle =
    (c.machine.board.sound.frameCounter.mode.steps region)[c.machine.board.sound.frameCounter.step]
  /-- The rates that the noise and the delta modulation channel take next. -/
  rates : ∀ data,
    (c.machine.board.sound.noise.writePeriod data).timer.period = Noise.periodOf region data ∧
    (c.machine.board.sound.dmc.writeControl data).timer.period = Dmc.periodOf region data
  /-- The clock of the resampler. -/
  resampler : ∃ units, Resampler.unitsPerClock? region.cpuRate.toNat
      c.settings.audio.sampleRate.toNat = some units ∧
    c.machine.board.sound.mixer.resampler.factor = .ofNat units

/-- What parts look up by the name of a region are the numbers of that region. -/
theorem Named.agrees (h : Named region c)
    (hr : ∃ units, Resampler.unitsPerClock? region.cpuRate.toNat
        c.settings.audio.sampleRate.toNat = some units ∧
      c.machine.board.sound.mixer.resampler.factor = .ofNat units) : Agrees region c where
  toNamed := h
  dividers := by
    unfold Clock.cyclesFor
    rw [h.clock]
    exact ⟨rfl, rfl, rfl⟩
  steps := by
    unfold FrameCounter.dueCycle
    rw [h.frameCounter]
  rates := by
    intro data
    unfold Noise.writePeriod Dmc.writeControl
    rw [h.noise, h.dmc]
    exact ⟨rfl, rfl⟩
  resampler := hr

/-- In an aligned console every unit names the console's region. -/
theorem Aligned.named (h : Aligned settings c) : Named c.region c where
  clock := rfl
  settings := congrArg Settings.region h.purpose
  picture := congrArg Prod.fst h.wiring
  sound := congrArg (·.2.region) h.wiring
  noise := congrArg (·.2.noise) h.wiring
  dmc := congrArg (·.2.dmc) h.wiring
  frameCounter := congrArg (·.2.frameCounter) h.wiring
  mixer := congrArg (·.2.mixer) h.wiring

variable [Cartridge γ]

/-- Whatever becomes of a console, its parts agree on one region. -/
theorem Reachable.agrees (h : Reachable settings c) : Agrees c.region c := by
  obtain ⟨hcheck, ha⟩ := h.aligned
  obtain ⟨hrate, -⟩ := (Settings.check_eq_ok_iff settings).mp hcheck
  have hset : c.machine.board.sound.mixer.setup.settings = settings.audio :=
    congrArg (·.2.settings) ha.wiring
  have hregion : c.machine.board.sound.mixer.setup.region = c.region := ha.named.mixer
  have htune := h.driven.served.inTune
  rw [Mixer.Setup.InTune, hset, hregion] at htune
  refine ha.named.agrees ?_
  rw [ha.purpose]
  exact htune hrate

/-- The sound unit of a console is never refused another region. -/
theorem Reachable.sound_setRegion (h : Reachable settings c) (region : Region) :
    (c.machine.board.sound.setRegion region).1 = .ok () := by
  obtain ⟨hcheck, ha⟩ := h.aligned
  obtain ⟨hrate, -⟩ := (Settings.check_eq_ok_iff settings).mp hcheck
  exact (Sound.setRegion_regular (congrArg Prod.snd ha.wiring) hrate region).1

/-- A run of the clock does not switch the region. -/
theorem run_region (c : Console γ) (pace : Pace) : (c.run pace).2.region = c.region :=
  (Clock.run_inv (P := fun _ : Machine γ => True) (fun _ _ => trivial) (fun _ _ => trivial) pace c.clock
    trivial).1

theorem settleWithin_region (c : Console γ) (n : Nat) : (settleWithin n c).2.region = c.region := by
  induction n generalizing c with
  | zero => rfl
  | succ n ih =>
    have hstep := c.run_region .cpuCycle
    unfold settleWithin
    split
    · rfl
    · split
      · next c' hc =>
        rw [show c.run .cpuCycle = _ from hc] at hstep
        exact (ih c').trans hstep
      · exact hstep

/-- Nor does a pause. -/
theorem pause_region (c : Console γ) : c.pause.2.region = c.region := by
  have hsettle := c.settleWithin_region settleBound
  unfold pause
  split
  · next c' hc =>
    rw [show settleWithin settleBound c = _ from hc] at hsettle
    exact hsettle
  · exact hsettle

/-- So a change of region comes about exactly if the pause before it does, and leaves what the pause
    has left otherwise. -/
theorem Reachable.setRegion_cases (h : Reachable settings c) (region : Region) :
    (c.pause.1 = .ok () ∧ (c.setRegion region).1 = .ok () ∧ (c.setRegion region).2.region = region) ∨
      ∃ e, c.pause.1 = .error e ∧ c.setRegion region = c.pause := by
  have hsound := h.pause.sound_setRegion region
  cases hp : c.pause with
  | mk result paused =>
    rw [hp] at hsound
    cases result with
    | error e =>
      refine .inr ⟨e, rfl, ?_⟩
      unfold Console.setRegion
      rw [hp]
    | ok u =>
      refine .inl ⟨rfl, ?_, setRegion_region hp region⟩
      unfold Console.setRegion Mainboard.onSound
      rw [hp]
      dsimp only at hsound ⊢
      rw [hsound]

/-- At all times the parts of a console agree on one region: clock, picture unit, sound unit, mixer and
    settings, with the numbers they take from it.  To retune the resampler is never refused, whatever the
    settings a console could be built with.  So a change of region comes about exactly if the pause
    before it does; then all parts agree on the new region, and else on the one they had. -/
theorem setRegion_all_or_nothing (h : Reachable settings c) :
    Agrees c.region c ∧
      (∀ region, (c.machine.board.sound.setRegion region).1 = .ok () ∧
        ∀ resampler : Resampler, ∃ q,
          resampler.setRates region.cpuRate settings.audio.sampleRate = .ok q) ∧
      ∀ region, (c.setRegion region).1 = c.pause.1 ∧
        ((c.setRegion region).1 = .ok () → Agrees region (c.setRegion region).2) ∧
        ∀ e, (c.setRegion region).1 = .error e → Agrees c.region (c.setRegion region).2 := by
  obtain ⟨hrate, -⟩ := (Settings.check_eq_ok_iff settings).mp h.aligned.1
  refine ⟨h.agrees, ?_, ?_⟩
  · intro region
    refine ⟨h.sound_setRegion region, fun resampler => ?_⟩
    obtain ⟨_, -, hset⟩ := resampler.setRates_cpu region hrate
    exact ⟨_, hset⟩
  · intro region
    have hagrees := (h.setRegion region).agrees
    rcases h.setRegion_cases region with ⟨hpause, hok, hregion⟩ | ⟨e, hpause, hkept⟩
    · rw [hregion] at hagrees
      refine ⟨hok.trans hpause.symm, fun _ => hagrees, fun e he => ?_⟩
      cases hok.symm.trans he
    · rw [hkept] at hagrees ⊢
      rw [c.pause_region] at hagrees
      refine ⟨rfl, fun hok => ?_, fun _ _ => hagrees⟩
      cases hok.symm.trans hpause

/-- A console that is switched to PAL before its first cycle agrees on NTSC before and on PAL after. -/
theorem setRegion_all_or_nothing_first : ∃ c : Console Nrom, Reachable {} c ∧
    Agrees .ntsc c ∧ (c.setRegion .pal).1 = .ok () ∧ Agrees .pal (c.setRegion .pal).2 := by
  obtain ⟨c, hc⟩ := exists_new (show ({} : Settings).check = .ok () from rfl) (by decide) .ntsc Picture.solidBoard
  have hstart : c.machine.isSettled = true ∧ c.region = .ntsc := by
    obtain ⟨-, sound, -, rfl⟩ := new_eq_ok_iff.mp hc
    exact ⟨rfl, rfl⟩
  have hreach : Reachable {} c := .new _ hc
  obtain ⟨hagrees, -, hswitch⟩ := setRegion_all_or_nothing hreach
  obtain ⟨hpause, hdone, -⟩ := hswitch .pal
  have hok : (c.setRegion .pal).1 = .ok () := by rw [hpause, pause_eq_ok hstart.1]
  exact ⟨c, hreach, hstart.2 ▸ hagrees, hok, hdone hok⟩

end Console

end Famicom
