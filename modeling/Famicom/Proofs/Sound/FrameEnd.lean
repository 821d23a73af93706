/-
  The end of an audio frame, where the mixer refuses it: the channels begin a new frame and the unit does
  not.

  To end a frame the unit catches up, sends the channels back to cycle zero, lets the mixer play the
  frame, and only then goes back to cycle zero itself.  A refusal comes in between.

  1. **Between calls** (`Reachable.settled`): the unit is up to date, and at the start of a frame the
     channels stand at zero.  One case for each thing that is done to the unit; registers do not move the
     timers (`writeRegister_spec`).
  2. **A refused frame** (`endFrame_refused`): the unit is up to date at the cycle it had come to, and the
     channels stand at zero.
  3. **The next cycle** (`channelsAt_nextCycle`): it brings every channel to where the unit counts, which
     is the whole of the frame for channels that stand at zero.

  Main statement: a refusal leaves the channels in step with the unit iff the frame has not begun, and
  then it touches nothing but the mixer (`refused_inStep_iff`).  A cycle of `process` is refused only
  later, so it never does (`process_refused_replays`).
-/
import Famicom.Proofs.Mixer.Overflow
import Famicom.Proofs.Sound.CatchUp

namespace Famicom

open Mixer (Notes)

/-- A timer at zero stays there at the end of a frame. -/
theorem Timer.endFrame_self {t : Timer} (h : t.previous = 0) : t.endFrame = t := by
  obtain ⟨previous, counter, period⟩ := t
  cases h
  rfl

/-! ## Registers -/

/-- A register that is written does not move the timer of a pulse channel. -/
theorem Pulse.previous_write (p : Pulse) (register : UInt16) (data : UInt8) (m : Mixer) :
    (p.write register data m).1.timer.previous = p.timer.previous := by
  unfold Pulse.write
  split
  · rfl
  · rfl
  · rfl
  · rfl

theorem Triangle.previous_write (t : Triangle) (register : UInt16) (data : UInt8) (m : Mixer) :
    (t.write register data m).1.timer.previous = t.timer.previous := by
  unfold Triangle.write
  split
  · rfl
  · rfl
  · rfl
  · rfl

theorem Noise.previous_write (n : Noise) (register : UInt16) (data : UInt8) (m : Mixer) :
    (n.write register data m).1.timer.previous = n.timer.previous := by
  unfold Noise.write
  split
  · rfl
  · rfl
  · rfl
  · rfl

theorem Dmc.previous_write (d : Dmc) (register : UInt16) (data : UInt8) (m : Mixer) :
    (d.write register data m).1.timer.previous = d.timer.previous := by
  unfold Dmc.write
  split
  · rfl
  · rfl
  · rfl
  · rfl

namespace Sound

variable {s s' : Sound} {cycle : Nat}

/-- A register moves no timer, and not the unit. -/
theorem writeRegister_spec (s : Sound) (addr : UInt16) (data : UInt8) :
    (s.writeRegister addr data).previous = s.previous ∧
      (s.writeRegister addr data).current = s.current ∧
      ((s.writeRegister addr data).ChannelsAt cycle ↔ s.ChannelsAt cycle) := by
  rw [channelsAt_iff, channelsAt_iff]
  unfold writeRegister
  dsimp only
  split
  · refine ⟨rfl, rfl, ?_⟩
    rw [← Pulse.previous_write s.pulse1 (addr &&& 0x03) data s.mixer]
  · refine ⟨rfl, rfl, ?_⟩
    rw [← Pulse.previous_write s.pulse2 (addr &&& 0x03) data s.mixer]
  · refine ⟨rfl, rfl, ?_⟩
    rw [← Triangle.previous_write s.triangle (addr &&& 0x03) data s.mixer]
  · refine ⟨rfl, rfl, ?_⟩
    rw [← Noise.previous_write s.noise (addr &&& 0x03) data s.mixer]
  · refine ⟨rfl, rfl, ?_⟩
    rw [← Dmc.previous_write s.dmc (addr &&& 0x03) data s.mixer]
  · split
    · refine ⟨rfl, rfl, ?_⟩
      unfold writeEnable
      rw [(Dmc.kept_setEnabled _ _).timer]
      rfl
    · split
      · exact ⟨rfl, rfl, Iff.rfl⟩
      · exact ⟨rfl, rfl, Iff.rfl⟩

/-- Only one register concerns the frame counter. -/
theorem frameCounter_writeRegister (s : Sound) (addr : UInt16) (data : UInt8) :
    (s.writeRegister addr data).frameCounter = s.frameCounter ∨
      (s.writeRegister addr data).frameCounter = s.frameCounter.writeControl data := by
  unfold writeRegister
  dsimp only
  split
  · exact .inl rfl
  · exact .inl rfl
  · exact .inl rfl
  · exact .inl rfl
  · exact .inl rfl
  · split
    · exact .inl rfl
    · split
      · exact .inr rfl
      · exact .inl rfl

/-! ## The end of a frame -/

/-- Sends the channels back to cycle zero. -/
def rewound (s : Sound) : Sound :=
  { s with
    pulse1 := s.pulse1.endFrame, pulse2 := s.pulse2.endFrame, triangle := s.triangle.endFrame
    noise := s.noise.endFrame, dmc := s.dmc.endFrame }

/-- After the end of a frame all channels stand at zero. -/
theorem channelsAt_rewound (s : Sound) : s.rewound.ChannelsAt 0 :=
  channelsAt_iff.mpr ⟨rfl, rfl, rfl, rfl, rfl⟩

/-- Channels that stand at zero are not turned back. -/
theorem rewound_self (h : s.ChannelsAt 0) : s.rewound = s := by
  obtain ⟨h₁, h₂, h₃, h₄, h₅⟩ := channelsAt_iff.mp h
  unfold rewound Pulse.endFrame Triangle.endFrame Noise.endFrame Dmc.endFrame
  rw [Timer.endFrame_self h₁, Timer.endFrame_self h₂, Timer.endFrame_self h₃, Timer.endFrame_self h₄,
    Timer.endFrame_self h₅]

/-- A frame ends with everything at cycle zero; or the mixer has refused it, the unit is where it was,
    and the channels are at zero. -/
theorem endFrame_spec (s : Sound) :
    ((s.endFrame).1 = .ok () ∧ s.endFrame.2.current = 0 ∧ s.endFrame.2.previous = 0 ∧
      s.endFrame.2.ChannelsAt 0) ∨
    (∃ e mixer, s.endFrame = (.error e, { s.catchUp.rewound with mixer })) := by
  unfold endFrame
  dsimp only
  split
  · exact .inl ⟨rfl, rfl, rfl, channelsAt_rewound s.catchUp⟩
  · next e mixer _ => exact .inr ⟨e, mixer, rfl⟩

/-- The frame counter takes no part in the end of a frame. -/
theorem frameCounter_endFrame (s : Sound) : s.endFrame.2.frameCounter = s.catchUp.frameCounter := by
  unfold endFrame
  dsimp only
  split
  · rfl
  · rfl

/-- A cycle ends the frame one cycle on, or goes one cycle on within it. -/
theorem process_eq (s : Sound) :
    s.process = { s with current := s.current + 1 }.endFrame ∨
      s.process = (.ok (), { s with current := s.current + 1, dmc := s.dmc.tickStartDelay }.catchUp) := by
  unfold process
  dsimp only
  split
  · exact .inl rfl
  · exact .inr rfl

/-! ## Between calls -/

/-- What can become of the unit. -/
inductive Reachable : Sound → Prop where
  | new {region : Region} {settings : MixerSettings} {s : Sound} :
      Sound.new region settings = .ok s → Reachable s
  | process {s : Sound} : Reachable s → Reachable s.process.2
  | endFrame {s : Sound} : Reachable s → Reachable s.endFrame.2
  | read {s : Sound} (addr : UInt16) : Reachable s → Reachable (s.read addr).2
  | write {s : Sound} (addr : UInt16) (data : UInt8) : Reachable s → Reachable (s.write addr data)
  | takeDmcRequest {s : Sound} : Reachable s → Reachable s.takeDmcRequest.2
  | fillDmc {s : Sound} (value : UInt8) : Reachable s → Reachable (s.fillDmc value)
  | takeSamples {s : Sound} : Reachable s → Reachable s.takeSamples.2
  | setRegion {s : Sound} (region : Region) : Reachable s → Reachable (s.setRegion region).2
  | reset {s : Sound} : Reachable s → Reachable s.reset.2

/-- The unit is up to date, and at the start of a frame the channels have begun it. -/
structure Settled (s : Sound) : Prop where
  previous : s.previous = s.current
  start : s.current = 0 → s.ChannelsAt 0

/-- The unit is up to date. -/
theorem Settled.catchUp_eq (h : s.Settled) : s.catchUp = s := catchUp_self (Nat.le_of_eq h.previous.symm)

/-- Catching up leaves a unit settled. -/
theorem Settled.catchUp (h : s.Settled) : s.catchUp.Settled := by
  rw [h.catchUp_eq]
  exact h

/-- Only the timers and the counts of cycles matter. -/
theorem Settled.congr (h : s.Settled) (hp : s'.previous = s.previous) (hc : s'.current = s.current)
    (hat : s.ChannelsAt 0 → s'.ChannelsAt 0) : s'.Settled :=
  ⟨hp.trans (h.previous.trans hc.symm), fun h0 => hat (h.start (hc.symm.trans h0))⟩

/-- A unit that has just gone on is settled. -/
theorem settled_catchUp (h : s.previous < s.current) : s.catchUp.Settled := by
  obtain ⟨hp, hc, -, -⟩ := catchUp_spec h
  refine ⟨hp.trans hc.symm, fun h0 => ?_⟩
  omega

/-- A refused frame: the unit is up to date where it counts, and the channels stand at zero. -/
theorem settled_endFrame (h : s.previous ≤ s.current) : s.endFrame.2.Settled := by
  rcases s.endFrame_spec with ⟨-, hc, hp, hat⟩ | ⟨e, mixer, he⟩
  · exact ⟨hp.trans hc.symm, fun _ => hat⟩
  · rw [he]
    refine ⟨?_, fun _ => channelsAt_rewound s.catchUp⟩
    rcases Nat.lt_or_eq_of_le h with hlt | heq
    · obtain ⟨hp, hc, -, -⟩ := catchUp_spec hlt
      exact hp.trans hc.symm
    · show s.catchUp.previous = s.catchUp.current
      rw [catchUp_self (Nat.le_of_eq heq.symm)]
      exact heq

/-- So does a register that is written. -/
theorem Settled.write (h : s.Settled) (addr : UInt16) (data : UInt8) : (s.write addr data).Settled := by
  unfold Sound.write
  rw [h.catchUp_eq]
  obtain ⟨hp, hc, hat⟩ : _ ∧ _ ∧ ((s.writeRegister addr data).ChannelsAt 0 ↔ s.ChannelsAt 0) :=
    s.writeRegister_spec addr data
  exact h.congr hp hc hat.mpr

theorem Settled.read (h : s.Settled) (addr : UInt16) : (s.read addr).2.Settled := by
  unfold Sound.read
  rw [h.catchUp_eq]
  dsimp only
  split
  · exact h.congr rfl rfl id
  · exact h

/-- So does a cycle, whether the frame ends well or not. -/
theorem Settled.process (h : s.Settled) : s.process.2.Settled := by
  have hp := h.previous
  rcases s.process_eq with he | he
  · rw [he]
    exact settled_endFrame (show s.previous ≤ s.current + 1 by omega)
  · rw [he]
    exact settled_catchUp (show s.previous < s.current + 1 by omega)

theorem Settled.setRegion (h : s.Settled) (region : Region) : (s.setRegion region).2.Settled := by
  unfold Sound.setRegion
  dsimp only
  split
  · exact h.congr rfl rfl id
  · next mixer _ =>
    have hq : Settled { s with
        region, mixer, dmc := s.dmc.setRegion region, noise := s.noise.setRegion region } :=
      h.congr rfl rfl id
    exact hq.catchUp.congr rfl rfl id

/-- Whatever has been done to a unit, it is settled. -/
theorem Reachable.settled (h : Reachable s) : s.Settled := by
  induction h with
  | @new region settings s hs =>
    unfold Sound.new at hs
    cases hm : Mixer.new region settings with
    | error e =>
      rw [hm] at hs
      cases hs
    | ok m =>
      rw [hm] at hs
      cases hs
      exact ⟨rfl, fun _ => channelsAt_iff.mpr ⟨rfl, rfl, rfl, rfl, rfl⟩⟩
  | process _ ih => exact ih.process
  | endFrame _ ih => exact settled_endFrame (Nat.le_of_eq ih.previous)
  | read addr _ ih => exact ih.read addr
  | write addr data _ ih => exact ih.write addr data
  | @takeDmcRequest s _ ih =>
    refine ih.congr rfl rfl fun hat => ?_
    obtain ⟨h₁, h₂, h₃, h₄, h₅⟩ := channelsAt_iff.mp hat
    exact channelsAt_iff.mpr ⟨h₁, h₂, h₃, h₄, s.dmc.kept_takeRequest.timer ▸ h₅⟩
  | @fillDmc s value _ ih =>
    refine ih.congr rfl rfl fun hat => ?_
    obtain ⟨h₁, h₂, h₃, h₄, h₅⟩ := channelsAt_iff.mp hat
    exact channelsAt_iff.mpr ⟨h₁, h₂, h₃, h₄, (s.dmc.kept_fill value).timer ▸ h₅⟩
  | takeSamples _ ih => exact ih.congr rfl rfl id
  | setRegion region _ ih => exact ih.setRegion region
  | reset _ _ => exact ⟨rfl, fun _ => channelsAt_iff.mpr ⟨rfl, rfl, rfl, rfl, rfl⟩⟩

/-! ## After a refusal

  The timers are turned back before the mixer is asked.  So a refusal leaves them at zero, while the
  count of the unit stays where it was. -/

/-- A cycle or the end of a frame has failed. -/
def Refused (s s' : Sound) : Prop := ∃ e, s.process = (.error e, s') ∨ s.endFrame = (.error e, s')

/-- What the next cycle does to the channels, whether it ends the frame or not. -/
def nextCycle (s : Sound) : Sound := { s with current := s.current + 1 }.catchUp

/-- The channels stand where the unit counts, and the next cycle is one cycle for each of them. -/
structure InStep (s : Sound) : Prop where
  unit : s.previous = s.current
  channels : s.ChannelsAt s.previous
  next : s.nextCycle.ChannelsAt (s.previous + 1)

/-- The next cycle brings all channels to it. -/
theorem channelsAt_nextCycle (h : s.previous = s.current) : s.nextCycle.ChannelsAt (s.current + 1) :=
  (catchUp_spec (show s.previous < s.current + 1 by omega)).2.2.1

/-- The channels stand at one cycle only. -/
theorem ChannelsAt.unique {cycle' : Nat} (h : s.ChannelsAt cycle) (h' : s.ChannelsAt cycle') :
    cycle = cycle' :=
  (h _ List.mem_cons_self).symm.trans (h' _ List.mem_cons_self)

/-- A frame end that is refused leaves the current cycle and turns the channels back to zero. -/
theorem Settled.endFrame_refused (h : s.Settled) {e : ResampleError} (hr : s.endFrame = (.error e, s')) :
    s'.current = s.current ∧ s'.ChannelsAt 0 ∧ (s.current = 0 → ∃ mixer, s' = { s with mixer }) := by
  rcases s.endFrame_spec with ⟨hok, -⟩ | ⟨e', mixer, he⟩
  · rw [hr] at hok
    cases hok
  · cases hr.symm.trans he
    rw [h.catchUp_eq]
    refine ⟨rfl, channelsAt_rewound s, fun h0 => ⟨mixer, ?_⟩⟩
    rw [rewound_self (h.start h0)]

/-- So a refused cycle leaves the channels behind the cycle. -/
theorem Settled.process_refused (h : s.Settled) {e : ResampleError}
    (hr : s.process = (.error e, s')) : s'.current = s.current + 1 ∧ s'.ChannelsAt 0 := by
  have hp := h.previous
  rcases s.process_eq with he | he
  · rcases Sound.endFrame_spec { s with current := s.current + 1 } with ⟨hok, -⟩ | ⟨e', mixer, he'⟩
    · rw [← he, hr] at hok
      cases hok
    · cases hr.symm.trans (he.trans he')
      obtain ⟨-, hc, -, -⟩ := catchUp_spec (s := { s with current := s.current + 1 })
        (show s.previous < s.current + 1 by omega)
      exact ⟨hc, channelsAt_rewound _⟩
  · cases hr.symm.trans he

/-- A refusal sends the channels back to zero.  Only where the frame had not begun does that keep them in
    step, and then nothing but the mixer is touched; else the next cycle takes them through the whole
    frame again. -/
theorem refused_inStep_iff (h : Reachable s) (hr : Refused s s') :
    (s'.InStep ↔ s'.current = 0) ∧ s'.ChannelsAt 0 ∧ s'.nextCycle.ChannelsAt (s'.current + 1) ∧
      (s'.current = 0 → ∃ mixer, s' = { s with mixer }) := by
  have hs := h.settled
  obtain ⟨hunit, hat, hmixer⟩ : s'.previous = s'.current ∧ s'.ChannelsAt 0 ∧
      (s'.current = 0 → ∃ mixer, s' = { s with mixer }) := by
    obtain ⟨e, hr | hr⟩ := hr
    · obtain ⟨hc, hat⟩ := hs.process_refused hr
      have hreach : s'.Reachable := by
        have := h.process
        rwa [hr] at this
      exact ⟨hreach.settled.previous, hat, fun h0 => by omega⟩
    · obtain ⟨hc, hat, hmixer⟩ := hs.endFrame_refused hr
      have hreach : s'.Reachable := by
        have := h.endFrame
        rwa [hr] at this
      exact ⟨hreach.settled.previous, hat, fun h0 => hmixer (hc.symm.trans h0)⟩
  have hnext := channelsAt_nextCycle hunit
  refine ⟨⟨fun hin => ?_, fun h0 => ?_⟩, hat, hnext, hmixer⟩
  · rw [← hunit]
    exact hin.channels.unique hat
  · refine ⟨hunit, ?_, ?_⟩
    · rw [hunit, h0]
      exact hat
    · rw [hunit]
      exact hnext

/-- A cycle that is refused takes the channels back by all the cycles of the frame. -/
theorem process_refused_replays (h : Reachable s) {e : ResampleError}
    (hr : s.process = (.error e, s')) :
    s'.current = s.current + 1 ∧ s'.ChannelsAt 0 ∧ ¬ s'.InStep := by
  obtain ⟨hc, hat⟩ := h.settled.process_refused hr
  refine ⟨hc, hat, fun hin => ?_⟩
  have hunit := hin.unit
  have := hin.channels.unique hat
  omega

/-! ## A frame of 38 cycles, and room for one sample

Two samples end in 38 cycles, so the first frame is refused. -/

/-- Before the last cycle of a frame nothing is played. -/
theorem process_within (h : s.Settled)
    (hc : s.current + 1 < s.mixer.settings.cycleLength.toNat - 1) :
    s.process.2.current = s.current + 1 ∧ Notes s.mixer s.process.2.mixer := by
  have hp := h.previous
  obtain ⟨-, hcur, -, hn⟩ := catchUp_spec
    (s := { s with current := s.current + 1, dmc := s.dmc.tickStartDelay })
    (show s.previous < s.current + 1 by omega)
  have he : s.process =
      (.ok (), { s with current := s.current + 1, dmc := s.dmc.tickStartDelay }.catchUp) := by
    unfold process
    exact if_neg (Nat.not_le.mpr hc)
  rw [he]
  exact ⟨hcur, hn⟩

/-- On the last cycle a frame that the resampler does not hold is refused. -/
theorem process_overflow (h : s.Settled)
    (hc : s.mixer.settings.cycleLength.toNat - 1 ≤ s.current + 1)
    (hf : ¬ s.mixer.resampler.Holds (.ofNat (s.current + 1))) :
    s.process = (.error .overflow, s.process.2) := by
  have hp := h.previous
  obtain ⟨-, hcur, -, pending, hn⟩ := catchUp_spec (s := { s with current := s.current + 1 })
    (show s.previous < s.current + 1 by omega)
  have he : s.process = { s with current := s.current + 1 }.endFrame := by
    unfold process
    exact if_pos hc
  have hrefused : ¬ (Sound.catchUp { s with current := s.current + 1 }).mixer.Accepts
      (Sound.catchUp { s with current := s.current + 1 }).current := by
    intro ha
    have hframe := ha.frame
    rw [hn, hcur] at hframe
    exact hf hframe
  rw [he]
  unfold Sound.endFrame
  dsimp only
  rcases (Sound.catchUp { s with current := s.current + 1 }).mixer.playFrame_spec
    (Sound.catchUp { s with current := s.current + 1 }).current with ⟨ha, -⟩ | ⟨-, hr, -⟩
  · exact absurd ha hrefused
  · rcases hq : (Sound.catchUp { s with current := s.current + 1 }).mixer.playFrame
      (Sound.catchUp { s with current := s.current + 1 }).current with ⟨r, q⟩
    rw [hq] at hr
    cases hr
    rfl

/-- Frames of 38 cycles and room for one sample, at the usual rate. -/
def shortFrames : MixerSettings := { cycleLength := 39, bufferSamples := 1 }

/-- The unit with such frames, after so many cycles. -/
def shortRun : Nat → Sound
  | 0 =>
    { region := .ntsc, pulse1 := .first, pulse2 := .second, triangle := {}, noise := .new .ntsc,
      dmc := .new .ntsc, frameCounter := .new .ntsc, current := 0, previous := 0,
      mixer := .silent .ntsc shortFrames 241564468917326 0x80000000 }
  | n + 1 => (shortRun n).process.2

theorem new_shortFrames : Sound.new .ntsc shortFrames = .ok (shortRun 0) := by
  have hm : Mixer.new .ntsc shortFrames =
      .ok (.silent .ntsc shortFrames 241564468917326 0x80000000) :=
    Mixer.new_eq_ok_iff.mpr ⟨by decide, by decide, by decide, 241564468917326, by decide +kernel, rfl⟩
  unfold Sound.new
  rw [hm]
  rfl

theorem reachable_shortRun (n : Nat) : Reachable (shortRun n) := by
  induction n with
  | zero => exact .new new_shortFrames
  | succ n ih => exact ih.process

/-- The run does not play anything up to cycle 37. -/
theorem shortRun_within (n : Nat) (hn : n ≤ 37) :
    (shortRun n).current = n ∧ Notes (shortRun 0).mixer (shortRun n).mixer := by
  induction n with
  | zero => exact ⟨rfl, .refl _⟩
  | succ n ih =>
    obtain ⟨hc, pending, hm⟩ := ih (by omega)
    have hlen : (shortRun n).mixer.settings.cycleLength.toNat - 1 = 38 := by rw [hm]; rfl
    obtain ⟨hc', hn'⟩ := process_within (reachable_shortRun n).settled (by omega)
    rw [hc] at hc'
    exact ⟨hc', .trans ⟨pending, hm⟩ hn'⟩

/-- Then the frame is refused. -/
theorem shortRun_refused : (shortRun 37).process = (.error .overflow, shortRun 38) := by
  obtain ⟨hc, pending, hm⟩ := shortRun_within 37 (Nat.le_refl _)
  have hlen : (shortRun 37).mixer.settings.cycleLength.toNat - 1 = 38 := by rw [hm]; rfl
  refine process_overflow (reachable_shortRun 37).settled (by omega) ?_
  rw [hc, hm]
  show ¬ (Mixer.silent .ntsc shortFrames 241564468917326 0x80000000).resampler.Holds 38
  unfold Resampler.Holds
  decide +kernel

theorem refused_inStep_iff_shortRun :
    ((shortRun 38).InStep ↔ (shortRun 38).current = 0) ∧ (shortRun 38).ChannelsAt 0 ∧
      (shortRun 38).nextCycle.ChannelsAt ((shortRun 38).current + 1) ∧
        ((shortRun 38).current = 0 → ∃ mixer, shortRun 38 = { shortRun 37 with mixer }) :=
  refused_inStep_iff (reachable_shortRun 37) ⟨_, .inl shortRun_refused⟩

/-- A refused cycle that leaves the unit at cycle 38 and its channels at zero. -/
theorem exists_refused_not_inStep :
    ∃ s s', Reachable s ∧ s.process = (.error .overflow, s') ∧ s'.current = 38 ∧ s'.ChannelsAt 0 ∧
      ¬ s'.InStep := by
  obtain ⟨hc, hat, hstep⟩ := process_refused_replays (reachable_shortRun 37) shortRun_refused
  rw [(shortRun_within 37 (Nat.le_refl _)).1] at hc
  exact ⟨_, _, reachable_shortRun 37, shortRun_refused, hc, hat, hstep⟩

end Sound

end Famicom
