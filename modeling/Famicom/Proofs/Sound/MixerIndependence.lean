/-
  The sound unit does not listen to its mixer.

  The channels tell the mixer their levels and never read anything back.  The one thing that the unit
  takes from it is the length of the audio frame.

  1. **Channels**: a channel that is run, or written to, becomes the same whatever mixer it tells
     (`run_fst`, `write_fst`; one pair for each of the four kinds).
  2. **The unit**: two units that agree but for their mixers (`Agree`) agree after they have caught up,
     by induction over the runs of the frame counter (`Agree.catchUp`), and after every access.
  3. **Calls that may be refused** (`Unrefused`): of two units that agree, one may run out of room before
     the other; where both get through, they agree again.

  Main statements: `Agree.process`, `Agree.endFrame`, `Agree.setRegion`, `Agree.reset`, `Agree.read` and
  `Agree.write`.
-/
import Famicom.Proofs.Sound.FrameEnd
import Famicom.Proofs.Sound.Wiring

namespace Famicom

/-! ## Channels -/

/-- A voice does not look at the mixer that it tells its level. -/
theorem Voice.set_fst (v : Voice) (cycle : Nat) (level : Int16) (m q : Mixer) :
    (v.set cycle level m).1 = (v.set cycle level q).1 := by
  rw [Voice.set_eq, Voice.set_eq]

/-- A state that each expiry makes the same of, whatever is told to whom, is driven to the same state. -/
theorem Timer.drive_fst {α β : Type} {expire : Nat → α × β → α × β}
    (hstep : ∀ cycle a b c, (expire cycle (a, b)).1 = (expire cycle (a, c)).1) (target : Nat) (t : Timer)
    (a : α) (b c : β) : (t.drive expire target (a, b)).1 = (t.drive expire target (a, c)).1 ∧
      (t.drive expire target (a, b)).2.1 = (t.drive expire target (a, c)).2.1 := by
  refine Timer.drive_rel (R := fun (s u : α × β) => s.1 = u.1) ?_ target t rfl
  rintro cycle ⟨a, b⟩ ⟨_, c⟩ rfl
  exact hstep cycle a b c

namespace Pulse

theorem updateAt_fst (p : Pulse) (cycle : Nat) (m q : Mixer) :
    (p.updateAt cycle m).1 = (p.updateAt cycle q).1 :=
  congrArg (fun voice => { p with voice }) (Voice.set_fst p.voice cycle p.level m q)

/-- An expiry does to a pulse channel the same with any mixer. -/
theorem expire_fst (cycle : Nat) (p : Pulse) (m q : Mixer) :
    (expire cycle (p, m)).1 = (expire cycle (p, q)).1 := updateAt_fst _ cycle m q

/-- Hence so does a whole run. -/
theorem run_fst (p : Pulse) (target : Nat) (m q : Mixer) : (p.run target m).1 = (p.run target q).1 := by
  obtain ⟨ht, hrun⟩ := Timer.drive_fst expire_fst target p.timer p m q
  unfold run
  dsimp only
  rw [ht, hrun]

/-- And so does a register. -/
theorem write_fst (p : Pulse) (register : UInt16) (data : UInt8) (m q : Mixer) :
    (p.write register data m).1 = (p.write register data q).1 := by
  unfold write
  split
  · exact updateAt_fst _ _ m q
  · exact updateAt_fst _ _ m q
  · exact updateAt_fst _ _ m q
  · exact updateAt_fst _ _ m q

end Pulse

namespace Noise

theorem expire_fst (cycle : Nat) (n : Noise) (m q : Mixer) :
    (expire cycle (n, m)).1 = (expire cycle (n, q)).1 :=
  congrArg (fun voice => { n with shift := n.nextShift, voice }) (Voice.set_fst _ _ _ m q)

/-- The noise channel runs the same way with any mixer. -/
theorem run_fst (n : Noise) (target : Nat) (m q : Mixer) : (n.run target m).1 = (n.run target q).1 := by
  obtain ⟨ht, hrun⟩ := Timer.drive_fst expire_fst target n.timer n m q
  unfold run
  dsimp only
  rw [ht, hrun]

theorem write_fst (n : Noise) (register : UInt16) (data : UInt8) (m q : Mixer) :
    (n.write register data m).1 = (n.write register data q).1 := by
  unfold write
  split
  · rfl
  · rfl
  · rfl
  · rfl

end Noise

namespace Triangle

theorem expire_fst (cycle : Nat) (t : Triangle) (m q : Mixer) :
    (expire cycle (t, m)).1 = (expire cycle (t, q)).1 := by
  unfold expire
  dsimp only
  split
  · split
    · exact congrArg (fun voice => { t with position := (t.position + 1) &&& 0x1F, voice })
        (Voice.set_fst _ _ _ m q)
    · rfl
  · rfl

/-- So does the triangle channel. -/
theorem run_fst (t : Triangle) (target : Nat) (m q : Mixer) :
    (t.run target m).1 = (t.run target q).1 := by
  obtain ⟨ht, hrun⟩ := Timer.drive_fst expire_fst target t.timer t m q
  unfold run
  dsimp only
  rw [ht, hrun]

theorem write_fst (t : Triangle) (register : UInt16) (data : UInt8) (m q : Mixer) :
    (t.write register data m).1 = (t.write register data q).1 := by
  unfold write
  split
  · rfl
  · rfl
  · rfl
  · rfl

end Triangle

namespace Dmc

theorem updateAt_fst (d : Dmc) (cycle : Nat) (m q : Mixer) :
    (d.updateAt cycle m).1 = (d.updateAt cycle q).1 :=
  congrArg (fun voice => { d with voice }) (Voice.set_fst d.voice cycle _ m q)

theorem expire_fst (cycle : Nat) (d : Dmc) (m q : Mixer) :
    (expire cycle (d, m)).1 = (expire cycle (d, q)).1 := updateAt_fst _ cycle m q

/-- And so does the delta modulation channel. -/
theorem run_fst (d : Dmc) (target : Nat) (m q : Mixer) : (d.run target m).1 = (d.run target q).1 := by
  obtain ⟨ht, hrun⟩ := Timer.drive_fst expire_fst target d.timer d m q
  unfold run
  dsimp only
  rw [ht, hrun]

theorem write_fst (d : Dmc) (register : UInt16) (data : UInt8) (m q : Mixer) :
    (d.write register data m).1 = (d.write register data q).1 := by
  unfold write
  split
  · rfl
  · exact updateAt_fst _ _ m q
  · rfl
  · rfl

end Dmc

/-! ## The unit -/

namespace Sound

/-- Two units agree on everything but their mixers, and their audio frames are of one length. -/
def Agree (s t : Sound) : Prop :=
  ∃ mixer, t = { s with mixer } ∧ mixer.settings.cycleLength = s.mixer.settings.cycleLength

variable {s t : Sound}

theorem Agree.refl (s : Sound) : Agree s s := ⟨s.mixer, rfl, rfl⟩

theorem Agree.symm (h : Agree s t) : Agree t s := by
  obtain ⟨mixer, rfl, hlen⟩ := h
  exact ⟨s.mixer, rfl, hlen.symm⟩

theorem Agree.trans {u : Sound} (h : Agree s t) (h' : Agree t u) : Agree s u := by
  obtain ⟨mixer, rfl, hlen⟩ := h
  obtain ⟨mixer', rfl, hlen'⟩ := h'
  exact ⟨mixer', rfl, hlen'.trans hlen⟩

/-- Units that agree have frames of one length. -/
theorem Agree.cycleLength (h : Agree s t) :
    t.mixer.settings.cycleLength = s.mixer.settings.cycleLength := by
  obtain ⟨mixer, rfl, hlen⟩ := h
  exact hlen

/-- Units of equal parts agree. -/
theorem agree_of_parts (hr : t.region = s.region) (h₁ : t.pulse1 = s.pulse1) (h₂ : t.pulse2 = s.pulse2)
    (ht : t.triangle = s.triangle) (hn : t.noise = s.noise) (hd : t.dmc = s.dmc)
    (hf : t.frameCounter = s.frameCounter) (hc : t.current = s.current) (hp : t.previous = s.previous)
    (hlen : t.mixer.settings.cycleLength = s.mixer.settings.cycleLength) : Agree s t := by
  refine ⟨t.mixer, ?_, hlen⟩
  rw [← hr, ← h₁, ← h₂, ← ht, ← hn, ← hd, ← hf, ← hc, ← hp]

/-- Running the channels does not change the length of a frame. -/
theorem cycleLength_runChannels (s : Sound) :
    s.runChannels.mixer.settings.cycleLength = s.mixer.settings.cycleLength := by
  obtain ⟨-, -, -, hn⟩ := s.runChannels_spec
  rw [hn.purpose.2]

/-- The channels of both units run to the same cycle. -/
theorem Agree.runChannels (h : Agree s t) : Agree s.runChannels t.runChannels := by
  obtain ⟨mixer, rfl, hlen⟩ := h
  refine agree_of_parts rfl ?_ ?_ ?_ ?_ ?_ rfl rfl rfl ?_
  · exact Pulse.run_fst _ _ _ _
  · exact Pulse.run_fst _ _ _ _
  · exact Triangle.run_fst _ _ _ _
  · exact Noise.run_fst _ _ _ _
  · exact Dmc.run_fst _ _ _ _
  · rw [cycleLength_runChannels, cycleLength_runChannels]
    exact hlen

/-- What the frame counter announces comes to both units. -/
theorem Agree.clock (h : Agree s t) (event : Option FrameEvent) : Agree (s.clock event) (t.clock event) := by
  obtain ⟨mixer, rfl, hlen⟩ := h
  rcases event with _ | _ | _
  · exact ⟨mixer, rfl, hlen⟩
  · exact ⟨mixer, rfl, hlen⟩
  · exact ⟨mixer, rfl, hlen⟩

theorem Agree.reloadLengths (h : Agree s t) : Agree s.reloadLengths t.reloadLengths := by
  obtain ⟨mixer, rfl, hlen⟩ := h
  exact ⟨mixer, rfl, hlen⟩

/-- One run of the frame counter with all it brings keeps the units in agreement. -/
theorem Agree.advance (h : Agree s t) (cycles : Nat) (event : Option FrameEvent) :
    Agree (advance cycles event s) (advance cycles event t) := by
  obtain ⟨mixer, rfl, hlen⟩ := h
  have hmoved : Agree { s with previous := s.previous + cycles }
      { s with previous := s.previous + cycles, mixer } := ⟨mixer, rfl, hlen⟩
  exact (hmoved.clock event).reloadLengths.runChannels

/-- What the frame counter does to a unit has nothing to do with its mixer, run by run. -/
theorem Agree.catchUp (h : Agree s t) : Agree s.catchUp t.catchUp := by
  obtain ⟨mixer, rfl, hlen⟩ := h
  have hstart : Agree s { s with mixer } := ⟨mixer, rfl, hlen⟩
  obtain ⟨hcounter, mixer', hend, hlen'⟩ := FrameCounter.drive_rel (R := Agree)
    (fun cycles event _ _ h => h.advance cycles event) (s.current - s.previous) s.frameCounter hstart
  rw [catchUp_eq, catchUp_eq]
  refine ⟨mixer', ?_, hlen'⟩
  rw [← hcounter, hend]

/-- A register reads as the same byte in both units. -/
theorem Agree.read (h : Agree s t) (addr : UInt16) :
    (s.read addr).1 = (t.read addr).1 ∧ Agree (s.read addr).2 (t.read addr).2 := by
  obtain ⟨mixer, hend, hlen⟩ := h.catchUp
  unfold Sound.read
  dsimp only
  rw [hend]
  split
  · exact ⟨rfl, mixer, rfl, hlen⟩
  · exact ⟨rfl, mixer, rfl, hlen⟩

theorem cycleLength_writeRegister (s : Sound) (addr : UInt16) (data : UInt8) :
    (s.writeRegister addr data).mixer.settings.cycleLength = s.mixer.settings.cycleLength :=
  congrArg (fun w => w.settings.cycleLength) (s.wiring_writeRegister addr data)

/-- A register written in both units keeps them in agreement. -/
theorem Agree.writeRegister (h : Agree s t) (addr : UInt16) (data : UInt8) :
    Agree (s.writeRegister addr data) (t.writeRegister addr data) := by
  obtain ⟨mixer, rfl, hlen⟩ := h
  have hlength : (({ s with mixer } : Sound).writeRegister addr data).mixer.settings.cycleLength =
      (s.writeRegister addr data).mixer.settings.cycleLength := by
    rw [cycleLength_writeRegister, cycleLength_writeRegister]
    exact hlen
  revert hlength
  unfold Sound.writeRegister
  dsimp only
  split
  · exact agree_of_parts rfl (Pulse.write_fst _ _ _ _ _) rfl rfl rfl rfl rfl rfl rfl
  · exact agree_of_parts rfl rfl (Pulse.write_fst _ _ _ _ _) rfl rfl rfl rfl rfl rfl
  · exact agree_of_parts rfl rfl rfl (Triangle.write_fst _ _ _ _ _) rfl rfl rfl rfl rfl
  · exact agree_of_parts rfl rfl rfl rfl (Noise.write_fst _ _ _ _ _) rfl rfl rfl rfl
  · exact agree_of_parts rfl rfl rfl rfl rfl (Dmc.write_fst _ _ _ _ _) rfl rfl rfl
  · split
    · exact agree_of_parts rfl rfl rfl rfl rfl rfl rfl rfl rfl
    · split
      · exact agree_of_parts rfl rfl rfl rfl rfl rfl rfl rfl rfl
      · exact agree_of_parts rfl rfl rfl rfl rfl rfl rfl rfl rfl

theorem Agree.write (h : Agree s t) (addr : UInt16) (data : UInt8) :
    Agree (s.write addr data) (t.write addr data) :=
  h.catchUp.writeRegister addr data

/-- The requests of the delta modulation channel are the same, and so are the answers. -/
theorem Agree.takeDmcRequest (h : Agree s t) : s.takeDmcRequest.1 = t.takeDmcRequest.1 ∧
    Agree s.takeDmcRequest.2 t.takeDmcRequest.2 := by
  obtain ⟨mixer, rfl, hlen⟩ := h
  exact ⟨rfl, mixer, rfl, hlen⟩

theorem Agree.fillDmc (h : Agree s t) (value : UInt8) : Agree (s.fillDmc value) (t.fillDmc value) := by
  obtain ⟨mixer, rfl, hlen⟩ := h
  exact ⟨mixer, rfl, hlen⟩

/-- Both units ask for an interrupt, or neither does. -/
theorem Agree.irqPending (h : Agree s t) : s.irqPending = t.irqPending := by
  obtain ⟨mixer, rfl, -⟩ := h
  rfl

/-- Taking samples is a matter of the mixer alone. -/
theorem agree_takeSamples (s : Sound) : Agree s s.takeSamples.2 := ⟨_, rfl, rfl⟩

/-! ## Calls that may be refused -/

/-- An audio frame that ends leaves nothing of itself but in the mixer. -/
theorem endFrame_of_ok (h : s.endFrame.1 = .ok ()) : ∃ mixer,
    s.endFrame.2 = { s.catchUp.rewound with mixer, current := 0, previous := 0 } ∧
      mixer.settings.cycleLength = s.mixer.settings.cycleLength := by
  have hlen : s.endFrame.2.mixer.settings.cycleLength = s.mixer.settings.cycleLength :=
    congrArg (fun w => w.settings.cycleLength) s.wiring_endFrame
  refine ⟨s.endFrame.2.mixer, ?_, hlen⟩
  unfold Sound.endFrame at h ⊢
  dsimp only at h ⊢
  split at h
  · rfl
  · cases h

/-- A frame that ends well in both units leaves them in agreement. -/
theorem Agree.endFrame (h : Agree s t) (hs : s.endFrame.1 = .ok ()) (ht : t.endFrame.1 = .ok ()) :
    Agree s.endFrame.2 t.endFrame.2 := by
  obtain ⟨mixer, hend, -⟩ := h.catchUp
  obtain ⟨ms, hs, hslen⟩ := endFrame_of_ok hs
  obtain ⟨mt, ht, htlen⟩ := endFrame_of_ok ht
  rw [hs, ht, hend]
  exact ⟨mt, rfl, htlen.trans (h.cycleLength.trans hslen.symm)⟩

/-- Whether a cycle ends the frame depends on the length of frames, and so is the same in both. -/
theorem Agree.process (h : Agree s t) (hs : s.process.1 = .ok ()) (ht : t.process.1 = .ok ()) :
    Agree s.process.2 t.process.2 := by
  obtain ⟨mixer, rfl, hlen⟩ := h
  unfold Sound.process at hs ht ⊢
  dsimp only at hs ht ⊢
  rw [hlen] at ht ⊢
  split
  · next hlast =>
    rw [if_pos hlast] at hs ht
    have hmoved : Agree { s with current := s.current + 1 } { s with current := s.current + 1, mixer } :=
      ⟨mixer, rfl, hlen⟩
    exact hmoved.endFrame hs ht
  · have hmoved : Agree { s with current := s.current + 1, dmc := s.dmc.tickStartDelay }
        { s with current := s.current + 1, dmc := s.dmc.tickStartDelay, mixer } := ⟨mixer, rfl, hlen⟩
    exact hmoved.catchUp

/-- A unit that is switched to another region is so in all parts. -/
theorem setRegion_of_ok {region : Region} (h : (s.setRegion region).1 = .ok ()) : ∃ mixer,
    mixer.settings = s.mixer.settings ∧
      (s.setRegion region).2 =
        let q := { s with
          region, mixer, dmc := s.dmc.setRegion region, noise := s.noise.setRegion region }.catchUp
        { q with frameCounter := q.frameCounter.setRegion region } := by
  obtain ⟨-, hset⟩ := Mixer.purpose_retune { s.mixer with region }
  refine ⟨(s.mixer.setRegion region).2, hset, ?_⟩
  unfold Sound.setRegion at h ⊢
  dsimp only at h ⊢
  split at h
  · cases h
  · next hm => rw [hm]

/-- So does a region that is taken by both. -/
theorem Agree.setRegion (h : Agree s t) {region : Region} (hs : (s.setRegion region).1 = .ok ())
    (ht : (t.setRegion region).1 = .ok ()) : Agree (s.setRegion region).2 (t.setRegion region).2 := by
  obtain ⟨ms, hms, hs⟩ := setRegion_of_ok hs
  obtain ⟨mt, hmt, ht⟩ := setRegion_of_ok ht
  have hlen := h.cycleLength
  obtain ⟨mixer, rfl, -⟩ := h
  have hmoved : Agree
      { s with region, mixer := ms, dmc := s.dmc.setRegion region, noise := s.noise.setRegion region }
      { s with region, mixer := mt, dmc := s.dmc.setRegion region, noise := s.noise.setRegion region } := by
    refine ⟨mt, rfl, ?_⟩
    show mt.settings.cycleLength = ms.settings.cycleLength
    rw [hms, hmt]
    exact hlen
  obtain ⟨mixer', hend, hlen'⟩ := hmoved.catchUp
  rw [hs, ht]
  refine ⟨mixer', ?_, hlen'⟩
  dsimp only at hend ⊢
  rw [hend]

/-- And a reset. -/
theorem Agree.reset (h : Agree s t) : Agree s.reset.2 t.reset.2 := by
  have hlength (q : Sound) : q.reset.2.mixer.settings = q.mixer.settings :=
    (Mixer.purpose_retune { q.mixer with
      output := #[], lastOutput := 0, resampler := q.mixer.resampler.clear, pending := #[],
      levels := {} }).2
  have hlen := h.cycleLength
  obtain ⟨mixer, rfl, -⟩ := h
  refine agree_of_parts rfl rfl rfl rfl rfl rfl rfl rfl rfl ?_
  rw [hlength, hlength]
  exact hlen

end Sound

end Famicom
