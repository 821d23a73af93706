/-
  Catching up: where the channels stand after the unit has been brought up to date.

  Three clocks count the cycles of an audio frame: the unit (`current`), what has been caught up with
  (`previous`), and each channel's timer.  To catch up, the frame counter makes runs, and after each run
  the five channels are brought up to the same cycle.

  1. **A timer** ends where it was sent, whatever expires on the way (`Timer.drive_previous`), and what
     holds of the state and is kept by each expiry holds at the end (`Timer.drive_inv`, and for two states
     at once `Timer.drive_rel`).
  2. **A channel** sent to a cycle stands there, and all that has happened to the mixer is that changes
     were noted (`Notes`); one lemma for each of the four kinds.  What else is done to the delta modulation
     channel, to play its bits or to get its bytes, leaves its timer and its voice alone (`Dmc.Kept`).
  3. **A run of the frame counter** moves the unit and all channels on by the cycles it takes
     (`advance_spec`), and by induction over the runs so does catching up (`FrameCounter.drive_inv`).

  Main statements: a unit that is behind is up to date afterwards, with every channel where it counts
  (`catchUp_spec`), and one that is not behind is left alone (`catchUp_self`).
-/
import Famicom.Sound.Basic
import Famicom.Proofs.Mixer.Reachable

namespace Famicom

/-! ## Loops -/

/-- A driven timer comes to its target. -/
theorem Timer.drive_previous {σ : Type} (expire : Nat → σ → σ) (target : Nat) (t : Timer) (s : σ) :
    (t.drive expire target s).1.previous = target := by
  induction t, s using Timer.drive.induct expire target with
  | case1 t s t' h _ ih =>
    rw [drive]
    split
    · next t'' h' =>
      cases h.symm.trans h'
      exact ih
    · next t'' h' => cases h.symm.trans h'
  | case2 t s t' h =>
    rw [drive]
    split
    · next t'' h' => cases h.symm.trans h'
    · next t'' h' =>
      cases h.symm.trans h'
      unfold advance at h
      split at h
      · cases h
      · cases h
        rfl

/-- What every expiry keeps, driving the timer keeps. -/
theorem Timer.drive_inv {σ : Type} {expire : Nat → σ → σ} {P : σ → Prop}
    (hstep : ∀ cycle s, P s → P (expire cycle s)) (target : Nat) (t : Timer) {s : σ} (h : P s) :
    P (t.drive expire target s).2 := by
  induction t, s using Timer.drive.induct expire target with
  | case1 t s t' ha _ ih =>
    rw [drive]
    split
    · next t'' h' =>
      cases ha.symm.trans h'
      exact ih (hstep _ _ h)
    · next t'' h' => cases ha.symm.trans h'
  | case2 t s t' ha =>
    rw [drive]
    split
    · next t'' h' => cases ha.symm.trans h'
    · exact h

/-- Two states that each expiry keeps alike are driven by a timer to states that are alike. -/
theorem Timer.drive_rel {σ τ : Type} {expire : Nat → σ → σ} {expire' : Nat → τ → τ}
    {R : σ → τ → Prop} (hstep : ∀ cycle s u, R s u → R (expire cycle s) (expire' cycle u))
    (target : Nat) (t : Timer) {s : σ} {u : τ} (h : R s u) :
    (t.drive expire target s).1 = (t.drive expire' target u).1 ∧
      R (t.drive expire target s).2 (t.drive expire' target u).2 := by
  induction t, s using Timer.drive.induct expire target generalizing u with
  | case1 t s t' ha _ ih =>
    rw [drive, drive]
    split
    · next t'' h' =>
      cases ha.symm.trans h'
      exact ih (hstep _ _ _ h)
    · next t'' h' => cases ha.symm.trans h'
  | case2 t s t' ha =>
    rw [drive, drive]
    split
    · next t'' h' => cases ha.symm.trans h'
    · exact ⟨rfl, h⟩

/-- What each run keeps, told with the cycles that are left, holds when none are left. -/
theorem FrameCounter.drive_inv {σ : Type} {act : Nat → Option FrameEvent → σ → σ}
    {P : Nat → σ → Prop}
    (hstep : ∀ cycles taken event s, taken ≤ cycles → P cycles s →
      P (cycles - taken) (act taken event s))
    (cycles : Nat) (f : FrameCounter) {s : σ} (h : P cycles s) : P 0 (f.drive act cycles s).2 := by
  induction cycles, f, s using FrameCounter.drive.induct act with
  | case1 f s =>
    rw [drive, dif_pos rfl]
    exact h
  | case2 cycles f s hc r ih =>
    rw [drive, dif_neg hc]
    exact ih (hstep _ _ _ _ (f.taken_le cycles) h)

/-- Two states that each run keeps alike are alike when no cycles are left. -/
theorem FrameCounter.drive_rel {σ τ : Type} {act : Nat → Option FrameEvent → σ → σ}
    {act' : Nat → Option FrameEvent → τ → τ} {R : σ → τ → Prop}
    (hstep : ∀ taken event s u, R s u → R (act taken event s) (act' taken event u))
    (cycles : Nat) (f : FrameCounter) {s : σ} {u : τ} (h : R s u) :
    (f.drive act cycles s).1 = (f.drive act' cycles u).1 ∧
      R (f.drive act cycles s).2 (f.drive act' cycles u).2 := by
  refine FrameCounter.drive.induct act
    (motive := fun cycles f s => ∀ u, R s u →
      (f.drive act cycles s).1 = (f.drive act' cycles u).1 ∧
        R (f.drive act cycles s).2 (f.drive act' cycles u).2) ?_ ?_ cycles f s u h
  · intro f s u h
    rw [drive, dif_pos rfl, drive, dif_pos rfl]
    exact ⟨rfl, h⟩
  · intro cycles f s hc r ih u h
    rw [drive.eq_def act, drive.eq_def act', dif_neg hc, dif_neg hc]
    exact ih _ (hstep _ _ _ _ h)

namespace Mixer

/-- All that has happened is that changes were noted. -/
def Notes (m q : Mixer) : Prop := ∃ pending, q = { m with pending }

variable {m q p : Mixer}

theorem Notes.refl (m : Mixer) : Notes m m := ⟨m.pending, rfl⟩

theorem Notes.trans (h : Notes m q) (h' : Notes q p) : Notes m p := by
  obtain ⟨_, rfl⟩ := h
  obtain ⟨pending, rfl⟩ := h'
  exact ⟨pending, rfl⟩

/-- To tell the mixer a change is to note it. -/
theorem notes_addDelta (m : Mixer) (channel : Channel) (cycle : Nat) (amount : Int16) :
    Notes m (m.addDelta channel cycle amount) := by
  unfold addDelta
  split
  · exact .refl m
  · exact ⟨_, rfl⟩

end Mixer

open Mixer (Notes)

/-- A voice that is set notes its change. -/
theorem Voice.notes_set (v : Voice) (cycle : Nat) (level : Int16) (m : Mixer) :
    Notes m (v.set cycle level m).2 := by
  unfold Voice.set
  split
  · exact .refl m
  · exact Mixer.notes_addDelta m _ _ _

/-- A voice that has told a level is at that level. -/
theorem Voice.set_eq (v : Voice) (cycle : Nat) (level : Int16) (m : Mixer) :
    (v.set cycle level m).1 = { v with level } := by
  unfold set
  split
  · next h => rw [h]
  · rfl

/-! ## Channels

  What a channel's run does, without looking into it: its timer comes to the target, and the mixer is
  told of changes and nothing else. -/

/-- A pulse channel that runs comes to the target and does no more to the mixer than note changes. -/
theorem Pulse.run_spec (p : Pulse) (target : Nat) (m : Mixer) :
    (p.run target m).1.timer.previous = target ∧ Notes m (p.run target m).2 := by
  constructor
  · exact Timer.drive_previous expire target p.timer (p, m)
  · refine Timer.drive_inv (P := fun s : Pulse × Mixer => Notes m s.2) ?_ target p.timer (.refl m)
    intro cycle s h
    exact h.trans (Voice.notes_set _ _ _ _)

/-- So does the noise channel. -/
theorem Noise.run_spec (n : Noise) (target : Nat) (m : Mixer) :
    (n.run target m).1.timer.previous = target ∧ Notes m (n.run target m).2 := by
  constructor
  · exact Timer.drive_previous expire target n.timer (n, m)
  · refine Timer.drive_inv (P := fun s : Noise × Mixer => Notes m s.2) ?_ target n.timer (.refl m)
    intro cycle s h
    exact h.trans (Voice.notes_set _ _ _ _)

/-- So does the delta modulation channel. -/
theorem Dmc.run_spec (d : Dmc) (target : Nat) (m : Mixer) :
    (d.run target m).1.timer.previous = target ∧ Notes m (d.run target m).2 := by
  constructor
  · exact Timer.drive_previous expire target d.timer (d, m)
  · refine Timer.drive_inv (P := fun s : Dmc × Mixer => Notes m s.2) ?_ target d.timer (.refl m)
    intro cycle s h
    exact h.trans (Voice.notes_set _ _ _ _)

/-- So does the triangle channel. -/
theorem Triangle.run_spec (t : Triangle) (target : Nat) (m : Mixer) :
    (t.run target m).1.timer.previous = target ∧ Notes m (t.run target m).2 := by
  constructor
  · exact Timer.drive_previous expire target t.timer (t, m)
  · refine Timer.drive_inv (P := fun s : Triangle × Mixer => Notes m s.2) ?_ target t.timer (.refl m)
    rintro cycle ⟨t, q⟩ h
    unfold expire
    dsimp only
    split
    · split
      · exact h.trans (Voice.notes_set _ _ _ _)
      · exact h
    · exact h

/-! ## What is asked of the delta modulation channel, and what is handed to it -/

namespace Dmc

/-- Two up or down only where that stays within seven bits. -/
theorem nextLevel_le {level : UInt8} (h : level.toNat ≤ 127) (up : Bool) :
    (nextLevel level up).toNat ≤ 127 := by
  unfold nextLevel
  split
  · split
    · next hle =>
      have hle : level.toNat ≤ 125 := UInt8.le_iff_toNat_le.mp hle
      rw [UInt8.toNat_add]
      show (level.toNat + 2) % 256 ≤ 127
      omega
    · exact h
  · split
    · next hle =>
      rw [UInt8.toNat_sub_of_le _ _ hle]
      exact Nat.le_trans (Nat.sub_le _ _) h
    · exact h

/-- Nothing has been done to the channel's region, its timer, what it has told or how long its samples are,
    and a level of seven bits is one still. -/
structure Kept (d q : Dmc) : Prop where
  region : q.region = d.region
  timer : q.timer = d.timer
  voice : q.voice = d.voice
  sampleLength : q.sampleLength = d.sampleLength
  level : d.level.toNat ≤ 127 → q.level.toNat ≤ 127

theorem Kept.refl (d : Dmc) : Kept d d := ⟨rfl, rfl, rfl, rfl, id⟩

theorem Kept.trans {d q r : Dmc} (h : Kept d q) (h' : Kept q r) : Kept d r :=
  ⟨h'.region.trans h.region, h'.timer.trans h.timer, h'.voice.trans h.voice,
    h'.sampleLength.trans h.sampleLength, fun hd => h'.level (h.level hd)⟩

theorem kept_askForByte (d : Dmc) : Kept d d.askForByte := by
  unfold askForByte
  split
  · exact ⟨rfl, rfl, rfl, rfl, id⟩
  · exact .refl d

theorem kept_playBit (d : Dmc) : Kept d d.playBit := by
  unfold playBit
  split
  · exact .refl d
  · exact ⟨rfl, rfl, rfl, rfl, fun h => nextLevel_le h _⟩

theorem kept_nextByte (d : Dmc) : Kept d d.nextByte := by
  unfold nextByte
  split
  · exact ⟨rfl, rfl, rfl, rfl, id⟩
  · next byte _ =>
    have hq : Kept d { d with silent := false, shift := byte, buffer := none } := ⟨rfl, rfl, rfl, rfl, id⟩
    exact hq.trans (kept_askForByte _)

/-- The start delay concerns neither the timer nor the level. -/
theorem kept_tickStartDelay (d : Dmc) : Kept d d.tickStartDelay := by
  unfold tickStartDelay
  split
  · exact .refl d
  · have hq : Kept d { d with startDelay := 0 } := ⟨rfl, rfl, rfl, rfl, id⟩
    exact hq.trans (kept_askForByte _)
  · exact ⟨rfl, rfl, rfl, rfl, id⟩

theorem kept_setEnabled (d : Dmc) (enabled : Bool) : Kept d (d.setEnabled enabled) := by
  unfold setEnabled
  split
  · exact ⟨rfl, rfl, rfl, rfl, id⟩
  · split
    · exact ⟨rfl, rfl, rfl, rfl, id⟩
    · exact .refl d

theorem kept_takeRequest (d : Dmc) : Kept d d.takeRequest.2 := by
  unfold takeRequest
  split
  · exact ⟨rfl, rfl, rfl, rfl, id⟩
  · exact .refl d

/-- Nor does the end of a sample. -/
theorem kept_endSample (d : Dmc) : Kept d d.endSample := by
  unfold endSample
  split
  · exact ⟨rfl, rfl, rfl, rfl, id⟩
  · split
    · exact ⟨rfl, rfl, rfl, rfl, id⟩
    · exact .refl d

/-- Nor a byte that has been read. -/
theorem kept_fill (d : Dmc) (value : UInt8) : Kept d (d.fill value) := by
  unfold fill
  split
  · exact .refl d
  · have hq : Kept d { d with
        buffer := some value, address := nextAddress d.address, bytesLeft := d.bytesLeft - 1 } :=
      ⟨rfl, rfl, rfl, rfl, id⟩
    dsimp only
    split
    · exact hq.trans (kept_endSample _)
    · exact hq

end Dmc

namespace Sound

/-- The timers of the five channels. -/
def timers (s : Sound) : List Timer :=
  [s.pulse1.timer, s.pulse2.timer, s.triangle.timer, s.noise.timer, s.dmc.timer]

/-- Every channel stands at this cycle. -/
def ChannelsAt (s : Sound) (cycle : Nat) : Prop := ∀ t ∈ s.timers, t.previous = cycle

variable {s : Sound} {cycle : Nat}

theorem channelsAt_iff : s.ChannelsAt cycle ↔ s.pulse1.timer.previous = cycle ∧
    s.pulse2.timer.previous = cycle ∧ s.triangle.timer.previous = cycle ∧
      s.noise.timer.previous = cycle ∧ s.dmc.timer.previous = cycle := by
  simp only [ChannelsAt, timers, List.forall_mem_cons, List.not_mem_nil, false_implies, implies_true,
    and_true]

/-! ## Runs -/

/-- Running the channels brings all of them to the cycle reached, and only notes changes. -/
theorem runChannels_spec (s : Sound) :
    s.runChannels.previous = s.previous ∧ s.runChannels.current = s.current ∧
      s.runChannels.ChannelsAt s.previous ∧ Notes s.mixer s.runChannels.mixer := by
  obtain ⟨h₁, n₁⟩ := s.pulse1.run_spec s.previous s.mixer
  obtain ⟨h₂, n₂⟩ := s.pulse2.run_spec s.previous (s.pulse1.run s.previous s.mixer).2
  obtain ⟨h₃, n₃⟩ := s.noise.run_spec s.previous _
  obtain ⟨h₄, n₄⟩ := s.triangle.run_spec s.previous _
  obtain ⟨h₅, n₅⟩ := s.dmc.run_spec s.previous _
  refine ⟨rfl, rfl, channelsAt_iff.mpr ⟨h₁, h₂, h₄, h₃, h₅⟩, ?_⟩
  exact n₁.trans (n₂.trans (n₃.trans (n₄.trans n₅)))

/-- What the frame counter announces moves no cycle and tells the mixer nothing. -/
theorem clock_spec (event : Option FrameEvent) (s : Sound) :
    (s.clock event).previous = s.previous ∧ (s.clock event).current = s.current ∧
      (s.clock event).mixer = s.mixer := by
  rcases event with _ | _ | _
  · exact ⟨rfl, rfl, rfl⟩
  · exact ⟨rfl, rfl, rfl⟩
  · exact ⟨rfl, rfl, rfl⟩

/-- A run moves the unit and every channel on by the cycles it takes. -/
theorem advance_spec (cycles : Nat) (event : Option FrameEvent) (s : Sound) :
    (advance cycles event s).previous = s.previous + cycles ∧
      (advance cycles event s).current = s.current ∧
      (advance cycles event s).ChannelsAt (s.previous + cycles) ∧
      Notes s.mixer (advance cycles event s).mixer := by
  obtain ⟨hp, hc, hm⟩ := clock_spec event { s with previous := s.previous + cycles }
  obtain ⟨hp', hc', hat, hn⟩ :=
    runChannels_spec ({ s with previous := s.previous + cycles }.clock event).reloadLengths
  refine ⟨hp'.trans hp, hc'.trans hc, ?_, ?_⟩
  · intro t ht
    exact (hat t ht).trans hp
  · have := hn
    rwa [show (Sound.reloadLengths _).mixer = s.mixer from hm] at this

/-- Catching up is driving the frame counter over the cycles that are left. -/
theorem catchUp_eq (s : Sound) : s.catchUp =
    { (s.frameCounter.drive advance (s.current - s.previous) s).2 with
      frameCounter := (s.frameCounter.drive advance (s.current - s.previous) s).1 } := rfl

/-- A unit that is not behind is left alone. -/
theorem catchUp_self (h : s.current ≤ s.previous) : s.catchUp = s := by
  rw [catchUp_eq, Nat.sub_eq_zero_of_le h, FrameCounter.drive, dif_pos rfl]

/-- While a unit catches up: so many cycles are left to where it counts, and the channels stand where
    it has come to. -/
structure CatchingUp (s : Sound) (left : Nat) (q : Sound) : Prop where
  previous : q.previous + left = s.current
  current : q.current = s.current
  channels : q.ChannelsAt q.previous
  mixer : Notes s.mixer q.mixer

/-- One run of the frame counter leaves so many cycles less to catch up on. -/
theorem CatchingUp.advance {left taken : Nat} {q : Sound} (h : CatchingUp s left q)
    (event : Option FrameEvent) (hle : taken ≤ left) :
    CatchingUp s (left - taken) (advance taken event q) := by
  obtain ⟨hp, hc, hat, hn⟩ := advance_spec taken event q
  have := h.previous
  exact ⟨by omega, hc.trans h.current, fun t ht => (hat t ht).trans hp.symm, h.mixer.trans hn⟩

/-- A unit that is behind is brought up to date, and every channel with it. -/
theorem catchUp_spec (h : s.previous < s.current) :
    s.catchUp.previous = s.current ∧ s.catchUp.current = s.current ∧
      s.catchUp.ChannelsAt s.current ∧ Notes s.mixer s.catchUp.mixer := by
  have hpos : s.current - s.previous ≠ 0 := by omega
  have hle := s.frameCounter.taken_le (s.current - s.previous)
  -- only after the first run do the channels stand where the unit does
  obtain ⟨hp, hc, hat, hn⟩ := advance_spec (s.frameCounter.taken (s.current - s.previous))
    (s.frameCounter.run (s.current - s.previous)).1 s
  have hfirst : CatchingUp s (s.current - s.previous - s.frameCounter.taken (s.current - s.previous))
      (Sound.advance (s.frameCounter.taken (s.current - s.previous))
        (s.frameCounter.run (s.current - s.previous)).1 s) :=
    ⟨by omega, hc, fun t ht => (hat t ht).trans hp.symm, hn⟩
  have hlast := FrameCounter.drive_inv (P := CatchingUp s)
    (fun _ _ event _ hle h => h.advance event hle) _
    (s.frameCounter.run (s.current - s.previous)).2 hfirst
  rw [catchUp_eq, FrameCounter.drive, dif_neg hpos]
  exact ⟨hlast.previous, hlast.current, fun t ht => (hlast.channels t ht).trans hlast.previous,
    hlast.mixer⟩

end Sound

end Famicom
