/-
  Synchrony: as long as no call fails, the unit and its five channels stand at one cycle.

  Six counts of the cycles of an audio frame are kept in six places, and are sent back to zero at the end
  of a frame, which comes from a cycle of the unit or from outside.

  1. **The invariant** (`InSync`): between calls all counts agree, the cycle is not the last of the frame
     yet, and every change that waits in the mixer is of a cycle that has come.
  2. **Accesses** (`InSync.read`, `InSync.write`): there is nothing to catch up with, so a register acts at
     the cycle it is accessed in, and nothing goes on for it.
  3. **A cycle** (`InSync.process_eq`) is one cycle of every channel, and then the end of the frame if it
     was the last.
  4. **A frame's end** (`inSync_of_close`), where the mixer takes the frame, leaves no change behind and
     all counts at zero.

  Main statement: the invariant holds in every run in which no call fails, and from it follows what the
  next call tells the mixer, and at which cycle (`Unfailing.synchrony`).
-/
import Famicom.Proofs.Mixer.Reset
import Famicom.Proofs.Sound.OneCycle
import Famicom.Proofs.Sound.Wiring

namespace Famicom

namespace Mixer

/-- A frame that is taken leaves nothing noted. -/
theorem noted_playFrame {m q : Mixer} {time : Nat} (h : m.playFrame time = (.ok (), q)) :
    q.noted = [] := by
  have hspec := m.applyChanges_spec [] (LevelChange.inOrder m.pending.toList)
  rcases m.playFrame_cases time with ⟨e, p, -, hp⟩ | ⟨p, hend, hp⟩
  · cases h.symm.trans hp
  · obtain ⟨p, resampler, hc, -, rfl⟩ := endFrame_ok_iff.mp hend
    rw [hc] at hspec
    cases h.symm.trans hp
    rcases hspec with ⟨-, -, hnoted⟩ | ⟨-, he, -⟩
    · exact hnoted
    · cases he

theorem retune_noted (m : Mixer) :
    m.retune.2.noted = m.noted ∧ m.retune.2.settings = m.settings := by
  unfold retune
  split
  · exact ⟨rfl, rfl⟩
  · exact ⟨rfl, rfl⟩

end Mixer

namespace Sound

/-- All counts of the cycles agree within the frame, and no change is noted for later. -/
structure InSync (s : Sound) : Prop where
  previous : s.previous = s.current
  channels : s.ChannelsAt s.current
  current_lt : s.current < s.mixer.settings.cycleLength.toNat - 1
  noted : ∀ cycle ∈ s.mixer.noted, cycle ≤ s.current

/-- Ends the audio frame of a unit that is up to date. -/
def close (s : Sound) : Except ResampleError Unit × Sound :=
  match s.mixer.playFrame s.current with
  | (.ok _, mixer) => (.ok (), { s.rewound with mixer, current := 0, previous := 0 })
  | (.error e, mixer) => (.error e, { s.rewound with mixer })

theorem endFrame_eq (s : Sound) : s.endFrame = s.catchUp.close := rfl

variable {s q : Sound} {settings : MixerSettings}

/-! ## Accesses -/

theorem InSync.catchUp_eq (h : s.InSync) : s.catchUp = s := catchUp_self (Nat.le_of_eq h.previous.symm)

/-- What touches the unit keeps it in step. -/
theorem InSync.touches (h : s.InSync) (ht : Touches s q) : q.InSync := by
  have hat : q.ChannelsAt s.current := channelsAt_of_stays h.channels ht.channels
  refine ⟨?_, ?_, ?_, ?_⟩
  · rw [ht.previous, ht.current, h.previous]
  · rwa [ht.current]
  · rw [ht.current, ht.mixer]
    exact h.current_lt
  · intro cycle hc
    rw [ht.mixer, Mixer.noted_note, List.mem_append] at hc
    rw [ht.current]
    rcases hc with hc | hc
    · exact h.noted cycle hc
    · obtain ⟨c, hmem, rfl⟩ := List.mem_map.mp hc
      exact Nat.le_of_eq (cycle_of_mem_changes hat hmem)

theorem InSync.read (h : s.InSync) (addr : UInt16) : Touches s (s.read addr).2 := by
  unfold Sound.read
  rw [h.catchUp_eq]
  dsimp only
  split
  · exact touches_of_standings rfl rfl rfl rfl rfl rfl
  · exact touches_of_standings rfl rfl rfl rfl rfl rfl

theorem InSync.write (h : s.InSync) (addr : UInt16) (data : UInt8) :
    Touches s (s.write addr data) := by
  have hlt := h.current_lt
  unfold Sound.write
  rw [h.catchUp_eq]
  exact touches_writeRegister h.channels (by omega) addr data

theorem touches_takeDmcRequest (s : Sound) : Touches s s.takeDmcRequest.2 :=
  touches_of_standings rfl rfl (standings_of_dmc s.dmc.kept_takeRequest.standing) rfl rfl rfl

theorem touches_fillDmc (s : Sound) (value : UInt8) : Touches s (s.fillDmc value) :=
  touches_of_standings rfl rfl (standings_of_dmc (s.dmc.kept_fill value).standing) rfl rfl rfl

/-! ## Cycles and frames -/

/-- The unit goes one cycle on, and ends the audio frame if that is the last. -/
theorem InSync.process_eq (h : s.InSync) : ∃ q, OneCycle s q ∧ s.process =
    if s.mixer.settings.cycleLength.toNat - 1 ≤ s.current + 1 then q.close else (.ok (), q) := by
  have hlt := h.current_lt
  have hp : s.previous + 1 = s.current + 1 := congrArg (· + 1) h.previous
  have hl : s.current + 1 < s.mixer.settings.cycleLength.toNat := by omega
  have hat : s.ChannelsAt s.previous := by
    rw [h.previous]
    exact h.channels
  by_cases hlast : s.mixer.settings.cycleLength.toNat - 1 ≤ s.current + 1
  · refine ⟨_, oneCycle_catchUp (s := { s with current := s.current + 1 }) hp hat hl h.previous.symm
      rfl rfl, ?_⟩
    rw [if_pos hlast]
    unfold process
    exact (if_pos hlast).trans (endFrame_eq _)
  · -- the wait of the delta modulation channel does not move it
    have hdelay : s.standings =
        Sound.standings { s with current := s.current + 1, dmc := s.dmc.tickStartDelay } :=
      (standings_of_dmc s.dmc.kept_tickStartDelay.standing).symm
    refine ⟨_, oneCycle_catchUp
      (s := { s with current := s.current + 1, dmc := s.dmc.tickStartDelay }) hp
      ((channelsAt_congr hdelay).mp hat) hl h.previous.symm hdelay rfl, ?_⟩
    rw [if_neg hlast]
    unfold process
    exact if_neg hlast

/-- The changes that are noted then are of cycles that have come. -/
theorem OneCycle.noted_le (h : OneCycle s q) (hs : s.InSync) : ∀ cycle ∈ q.mixer.noted, cycle ≤ q.current := by
  intro cycle hc
  rw [h.mixer, Mixer.noted_note, List.mem_append] at hc
  rw [h.current]
  rcases hc with hc | hc
  · exact Nat.le_succ_of_le (hs.noted cycle hc)
  · obtain ⟨c, hmem, rfl⟩ := List.mem_map.mp hc
    exact Nat.le_of_eq (cycle_of_mem_changes h.channels hmem)

/-- Within the frame a cycle keeps the counts together. -/
theorem OneCycle.inSync (h : OneCycle s q) (hs : s.InSync)
    (hlast : ¬ s.mixer.settings.cycleLength.toNat - 1 ≤ s.current + 1) : q.InSync := by
  refine ⟨h.previous.trans h.current.symm, ?_, ?_, h.noted_le hs⟩
  · rw [h.current]
    exact h.channels
  · rw [h.current, h.mixer]
    exact Nat.lt_of_not_le hlast

/-- A cycle does not fail if there are slots for the cycles up to it, and room for the samples. -/
theorem InSync.process_ok (h : s.InSync) (hreach : ∀ cycle ≤ s.current + 1, s.mixer.Reaches cycle)
    (hholds : s.mixer.resampler.Holds (.ofNat (s.current + 1))) : s.process = (.ok (), s.process.2) := by
  obtain ⟨q, hq, he⟩ := h.process_eq
  rw [he]
  split
  · have hgauge : q.mixer.resampler.gauge = s.mixer.resampler.gauge := by
      rw [hq.mixer]
      rfl
    have haccepts : q.mixer.Accepts q.current := by
      constructor
      · intro cycle hc
        have hle := hq.noted_le h cycle hc
        rw [hq.current] at hle
        exact (Resampler.reaches_congr hgauge).mpr (hreach cycle hle)
      · rw [hq.current]
        exact (Resampler.holds_congr hgauge).mpr hholds
    unfold close
    rcases q.mixer.playFrame_spec q.current with ⟨-, hok⟩ | ⟨hn, -⟩
    · split
      · rfl
      · next e mixer hm =>
        rw [hm] at hok
        cases hok
    · exact absurd haccepts hn
  · rfl

/-- The end of a frame that the mixer takes. -/
theorem inSync_of_close (h : s.close = (.ok (), q))
    (hl : 2 ≤ q.mixer.settings.cycleLength.toNat) : q.InSync := by
  unfold close at h
  split at h
  · next mixer hm =>
    cases h
    refine ⟨rfl, channelsAt_rewound s, ?_, ?_⟩
    · show 0 < mixer.settings.cycleLength.toNat - 1
      have hl : 2 ≤ mixer.settings.cycleLength.toNat := hl
      omega
    · intro cycle hc
      rw [show mixer.noted = [] from Mixer.noted_playFrame hm] at hc
      cases hc
  · cases h

theorem InSync.process (h : s.InSync) (hr : s.process = (.ok (), q))
    (hl : 2 ≤ q.mixer.settings.cycleLength.toNat) : q.InSync := by
  obtain ⟨q', hq, he⟩ := h.process_eq
  rw [he] at hr
  split at hr
  · exact inSync_of_close hr hl
  · next hlast =>
    cases hr
    exact hq.inSync h hlast

/-! ## Another region, reset and power-on -/

theorem InSync.congr (h : s.InSync) (hp : q.previous = s.previous) (hc : q.current = s.current)
    (hs : q.standings = s.standings) (hn : q.mixer.noted = s.mixer.noted)
    (hm : q.mixer.settings = s.mixer.settings) : q.InSync := by
  refine ⟨?_, ?_, ?_, ?_⟩
  · rw [hp, hc, h.previous]
  · rw [hc, channelsAt_congr hs]
    exact h.channels
  · rw [hc, hm]
    exact h.current_lt
  · rw [hc, hn]
    exact h.noted

/-- A switch that the mixer takes: the circuits follow, the unit catches up, and the frame counter follows
    last. -/
theorem exists_of_setRegion {region : Region} (hr : s.setRegion region = (.ok (), q)) :
    ∃ b : Sound, b.previous = s.previous ∧ b.current = s.current ∧ b.standings = s.standings ∧
      b.mixer.noted = s.mixer.noted ∧ b.mixer.settings = s.mixer.settings ∧
      q = { b.catchUp with frameCounter := b.catchUp.frameCounter.setRegion region } := by
  obtain ⟨hn, hm⟩ := Mixer.retune_noted { s.mixer with region }
  unfold Sound.setRegion at hr
  dsimp only at hr
  split at hr
  · cases hr
  · next mixer hset =>
    have hmixer : Mixer.retune { s.mixer with region } = (.ok (), mixer) := hset
    rw [hmixer] at hn hm
    cases hr
    exact ⟨{ s with region, mixer, dmc := s.dmc.setRegion region, noise := s.noise.setRegion region },
      rfl, rfl, rfl, hn, hm, rfl⟩

/-- A switch finds nothing to catch up with. -/
theorem InSync.setRegion (h : s.InSync) {region : Region}
    (hr : s.setRegion region = (.ok (), q)) : q.InSync := by
  obtain ⟨b, hp, hc, hs, hn, hm, rfl⟩ := exists_of_setRegion hr
  have hb : b.InSync := h.congr hp hc hs hn hm
  rw [hb.catchUp_eq]
  exact hb.congr rfl rfl rfl rfl rfl

/-- A reset forgets what was noted, and all counts. -/
theorem inSync_reset (s : Sound) (hl : 2 ≤ s.mixer.settings.cycleLength.toNat) :
    s.reset.2.InSync := by
  obtain ⟨hn, hm⟩ := Mixer.retune_noted s.mixer.cleared
  refine ⟨rfl, channelsAt_iff.mpr ⟨rfl, rfl, rfl, rfl, rfl⟩, ?_, ?_⟩
  · show 0 < s.mixer.cleared.retune.2.settings.cycleLength.toNat - 1
    rw [hm]
    show 0 < s.mixer.settings.cycleLength.toNat - 1
    omega
  · intro cycle hc
    rw [show s.reset.2.mixer.noted = [] from hn] at hc
    cases hc

theorem inSync_new {region : Region} (h : Sound.new region settings = .ok s)
    (hl : 2 ≤ settings.cycleLength.toNat) : s.InSync := by
  unfold Sound.new at h
  cases hm : Mixer.new region settings with
  | error e =>
    rw [hm] at h
    cases h
  | ok m =>
    rw [hm] at h
    cases h
    obtain ⟨-, -, -, units, -, rfl⟩ := Mixer.new_eq_ok_iff.mp hm
    refine ⟨rfl, channelsAt_iff.mpr ⟨rfl, rfl, rfl, rfl, rfl⟩, ?_, fun cycle hc => nomatch hc⟩
    show 0 < settings.cycleLength.toNat - 1
    omega

/-! ## Runs -/

/-- What can become of a unit if no call fails. -/
inductive Unfailing (settings : MixerSettings) : Sound → Prop where
  | new {region : Region} {s : Sound} : Sound.new region settings = .ok s → Unfailing settings s
  | process {s q : Sound} : Unfailing settings s → s.process = (.ok (), q) → Unfailing settings q
  | endFrame {s q : Sound} : Unfailing settings s → s.endFrame = (.ok (), q) → Unfailing settings q
  | read {s : Sound} (addr : UInt16) : Unfailing settings s → Unfailing settings (s.read addr).2
  | write {s : Sound} (addr : UInt16) (data : UInt8) :
      Unfailing settings s → Unfailing settings (s.write addr data)
  | takeDmcRequest {s : Sound} : Unfailing settings s → Unfailing settings s.takeDmcRequest.2
  | fillDmc {s : Sound} (value : UInt8) : Unfailing settings s → Unfailing settings (s.fillDmc value)
  | takeSamples {s : Sound} : Unfailing settings s → Unfailing settings s.takeSamples.2
  | setRegion {s q : Sound} {region : Region} :
      Unfailing settings s → s.setRegion region = (.ok (), q) → Unfailing settings q
  | reset {s q : Sound} : Unfailing settings s → s.reset = (.ok (), q) → Unfailing settings q

theorem settings_of_wiring (h : q.wiring = s.wiring) : q.mixer.settings = s.mixer.settings :=
  congrArg Wiring.settings h

theorem settings_setRegion {region : Region} (hr : s.setRegion region = (.ok (), q)) :
    q.mixer.settings = s.mixer.settings := by
  obtain ⟨b, -, -, -, -, hm, rfl⟩ := exists_of_setRegion hr
  exact (settings_of_wiring (wiring_catchUp b)).trans hm

/-- The settings are those that the unit was built with. -/
theorem Unfailing.settings_eq (h : Unfailing settings s) : s.mixer.settings = settings := by
  induction h with
  | new hs => exact congrArg Wiring.settings (new_eq_ok hs).1
  | @process s q _ hr ih =>
    rw [← ih, ← settings_of_wiring (wiring_process s), hr]
  | @endFrame s q _ hr ih =>
    rw [← ih, ← settings_of_wiring (wiring_endFrame s), hr]
  | read addr _ ih => exact (settings_of_wiring (wiring_read _ addr)).trans ih
  | write addr data _ ih => exact (settings_of_wiring (wiring_write _ addr data)).trans ih
  | takeDmcRequest _ ih => exact ih
  | fillDmc value _ ih => exact ih
  | takeSamples _ ih => exact ih
  | setRegion _ hr ih => exact (settings_setRegion hr).trans ih
  | @reset s q _ hr ih =>
    obtain ⟨-, hm⟩ := Mixer.retune_noted s.mixer.cleared
    rw [← ih]
    exact (congrArg (fun r => r.2.mixer.settings) hr).symm.trans hm

/-- The invariant over every run. -/
theorem Unfailing.inSync (hl : 2 ≤ settings.cycleLength.toNat) (h : Unfailing settings s) :
    s.InSync := by
  induction h with
  | new hs => exact inSync_new hs hl
  | process h hr ih => exact ih.process hr ((h.process hr).settings_eq ▸ hl)
  | endFrame h hr ih =>
    rw [endFrame_eq, ih.catchUp_eq] at hr
    have hq := h.endFrame (by rwa [endFrame_eq, ih.catchUp_eq])
    exact inSync_of_close hr (hq.settings_eq ▸ hl)
  | read addr _ ih => exact ih.touches (ih.read addr)
  | write addr data _ ih => exact ih.touches (ih.write addr data)
  | takeDmcRequest _ ih => exact ih.touches (touches_takeDmcRequest _)
  | fillDmc value _ ih => exact ih.touches (touches_fillDmc _ value)
  | takeSamples _ ih => exact ih.congr rfl rfl rfl rfl rfl
  | setRegion _ hr ih => exact ih.setRegion hr
  | @reset s q h hr _ =>
    have hq := inSync_reset s (h.settings_eq ▸ hl)
    rwa [hr] at hq

/-- In every run without a failed call, at audio frames of two cycles or more, all counts agree between
    calls, and the cycle is not the frame's last.  The next cycle is one of every channel; the mixer is
    told just what changes in it, at that cycle, which is one of the frame's; and the frame then ends if
    it was the last.  A frame that is ended in between ends as it stands.  A register that is read or
    written moves no channel and not the frame counter, and what it changes is told at the cycle that
    the unit stands at. -/
theorem Unfailing.synchrony (hl : 2 ≤ settings.cycleLength.toNat) (h : Unfailing settings s) :
    s.previous = s.current ∧ s.ChannelsAt s.current ∧ s.current < settings.cycleLength.toNat - 1 ∧
      (∀ cycle ∈ s.mixer.noted, cycle ≤ s.current) ∧
      (∃ q, OneCycle s q ∧ s.process =
        if settings.cycleLength.toNat - 1 ≤ s.current + 1 then q.close else (.ok (), q)) ∧
      s.endFrame = s.close ∧
      (∀ addr, Touches s (s.read addr).2) ∧
      ∀ addr data, s.write addr data = s.writeRegister addr data ∧ Touches s (s.write addr data) := by
  have hs := h.inSync hl
  have hset := h.settings_eq
  refine ⟨hs.previous, hs.channels, hset ▸ hs.current_lt, hs.noted, hset ▸ hs.process_eq, ?_, hs.read,
    fun addr data => ⟨?_, hs.write addr data⟩⟩
  · rw [endFrame_eq, hs.catchUp_eq]
  · unfold Sound.write
    rw [hs.catchUp_eq]

/-- Frames of 38 cycles: none of the cycles before the last can fail. -/
theorem unfailing_shortRun (n : Nat) (hn : n ≤ 37) : Unfailing shortFrames (shortRun n) := by
  induction n with
  | zero => exact .new new_shortFrames
  | succ n ih =>
    have h := ih (by omega)
    have hcurrent := (shortRun_within n (by omega)).1
    have hlength : (shortRun n).mixer.settings.cycleLength.toNat - 1 = 38 := by
      rw [h.settings_eq]
      rfl
    obtain ⟨q, -, hq⟩ := (h.inSync (by decide)).process_eq
    rw [hlength, hcurrent, if_neg (by omega)] at hq
    have hnext : shortRun (n + 1) = q := congrArg Prod.snd hq
    rw [hnext]
    exact h.process hq

/-- The unit before the last cycle of such a frame. -/
theorem Unfailing.synchrony_shortRun :
    (shortRun 37).previous = (shortRun 37).current ∧ (shortRun 37).ChannelsAt (shortRun 37).current ∧
      (shortRun 37).current < 38 ∧
      (∀ cycle ∈ (shortRun 37).mixer.noted, cycle ≤ (shortRun 37).current) ∧
      (∃ q, OneCycle (shortRun 37) q ∧ (shortRun 37).process =
        if 38 ≤ (shortRun 37).current + 1 then q.close else (.ok (), q)) ∧
      (shortRun 37).endFrame = (shortRun 37).close ∧
      (∀ addr, Touches (shortRun 37) ((shortRun 37).read addr).2) ∧
      ∀ addr data, (shortRun 37).write addr data = (shortRun 37).writeRegister addr data ∧
        Touches (shortRun 37) ((shortRun 37).write addr data) :=
  Unfailing.synchrony (show 2 ≤ shortFrames.cycleLength.toNat by decide)
    (unfailing_shortRun 37 (by decide))

end Sound

end Famicom
