/-
  One cycle: what the channels do when the unit is brought one cycle on, and what a register does in
  between.

  A unit that is kept up to date catches up by one cycle at a time.  Then no expiry can be skipped or
  noted late: each timer expires in that cycle or not at all.

  1. **A channel** is described by where it stands (`Standing`): the cycle its timer has come to, the
     cycles left until it expires, and the level it has told the mixer.  Sent where it already is, it does
     nothing (`Timer.drive_self`); sent one cycle on, its timer goes on by one (`Standing.Next`).
  2. **The mixer** notes the change from the old level to the new one, if there is any, at the cycle that
     the channel then stands at (`Standing.changes`), and nothing else (`Ticks`): not even the end of the
     audio frame takes a change away, as long as the cycle is one of the frame's.  One lemma for all
     channels (`Timer.ticks_drive`) takes what is particular to each from its expiry.
  3. **The frame counter** may make several runs for one cycle, where it stands past its step.  One of
     them takes the cycle; in the others the channels stand still (`runChannels_here`).

  Main statements: one cycle of catching up is one cycle of each channel (`oneCycle_catchUp`), and a
  register moves none of them, nor the frame counter (`touches_writeRegister`).
-/
import Mathlib.Data.List.Forall2
import Famicom.Proofs.Sound.FrameEnd

namespace Famicom

/-! ## Timers -/

namespace Timer

variable {σ : Type} {expire : Nat → σ → σ} {target : Nat} {t : Timer} {s : σ}

/-- A timer that is sent where it is stays as it is. -/
theorem drive_self (h : t.previous = target) : t.drive expire target s = (t, s) := by
  have hadvance : t.advance target = (false, t) := by
    obtain ⟨previous, counter, period⟩ := t
    cases h
    unfold advance
    rw [Nat.sub_self, if_neg (Nat.not_lt_zero _)]
    rfl
  rw [drive]
  split
  · next t' h' => cases hadvance.symm.trans h'
  · next t' h' =>
    cases hadvance.symm.trans h'
    rfl

/-- Sent one cycle on, a timer expires there if no cycles are left, and else has one less left. -/
theorem drive_next (h : t.previous + 1 = target) : t.drive expire target s =
    if t.counter = 0 then
      ({ t with previous := target, counter := t.period.toNat }, expire target s)
    else ({ t with previous := target, counter := t.counter - 1 }, s) := by
  obtain ⟨previous, counter, period⟩ := t
  cases h
  have hgap : previous + 1 - previous = 1 := Nat.add_sub_cancel_left ..
  by_cases hc : counter = 0
  · cases hc
    have hadvance : (Timer.mk previous 0 period).advance (previous + 1) =
        (true, ⟨previous + 1, period.toNat, period⟩) := by
      unfold advance
      rw [if_pos (show 0 < previous + 1 - previous by omega)]
      rfl
    rw [drive, if_pos rfl]
    split
    · next t' h' =>
      cases hadvance.symm.trans h'
      exact drive_self rfl
    · next t' h' => cases hadvance.symm.trans h'
  · have hadvance : (Timer.mk previous counter period).advance (previous + 1) =
        (false, ⟨previous + 1, counter - 1, period⟩) := by
      unfold advance
      rw [if_neg (show ¬ counter < previous + 1 - previous by omega), hgap]
    rw [drive, if_neg hc]
    split
    · next t' h' => cases hadvance.symm.trans h'
    · next t' h' =>
      cases hadvance.symm.trans h'
      rfl

end Timer

/-! ## Voices -/

/-- The change from one level to another at a cycle, if they differ. -/
def Voice.changes (v v' : Voice) (cycle : Nat) : List LevelChange :=
  if v'.level = v.level then [] else [⟨cycle, .single v.channel (v'.level - v.level)⟩]

/-- A voice that stays as it is has no change to report. -/
theorem Voice.changes_self (v : Voice) (cycle : Nat) : v.changes v cycle = [] := if_pos rfl

/-- A voice has told the mixer of its new level at a cycle, if it is one, and of nothing else. -/
structure Reports (cycle : Nat) (v v' : Voice) (m m' : Mixer) : Prop where
  channel : v'.channel = v.channel
  mixer : m' = m.note (v.changes v' cycle)

variable {cycle : Nat} {v v' : Voice} {m m' : Mixer}

theorem Reports.refl (cycle : Nat) (v : Voice) (m : Mixer) : Reports cycle v v m m :=
  ⟨rfl, by rw [v.changes_self, m.note_nil]⟩

/-- No change of a cycle of the frame is dropped. -/
theorem Voice.reports_set (h : cycle < m.settings.cycleLength.toNat) (v : Voice) (level : Int16) :
    Reports cycle v (v.set cycle level m).1 m (v.set cycle level m).2 := by
  by_cases hl : level = v.level
  · have hset : v.set cycle level m = (v, m) := if_pos hl
    rw [hset]
    exact .refl cycle v m
  · have hset : v.set cycle level m = ({ v with level }, m.addDelta v.channel cycle (level - v.level)) :=
      if_neg hl
    have hne : level - v.level ≠ 0 := by grind
    rw [hset]
    refine ⟨rfl, ?_⟩
    rw [Voice.changes, if_neg hl, Mixer.addDelta, if_neg (not_or.mpr ⟨hne, Nat.not_le.mpr h⟩),
      Array.push_eq_append]
    rfl

/-! ## Where a channel stands

  A channel's standing is its voice and its timer's cycle.  What it reports is the change between two
  standings, at the later one's cycle. -/

/-- Where a channel stands. -/
structure Standing where
  /-- The cycle that its timer has come to. -/
  cycle : Nat
  /-- Cycles until the timer expires, less one. -/
  left : Nat
  voice : Voice

namespace Standing

/-- What the mixer is told on the way from one to another. -/
def changes (a b : Standing) : List LevelChange := a.voice.changes b.voice b.cycle

/-- One cycle on.  Only if the timer expires in it is there anything to be heard. -/
structure Next (a b : Standing) : Prop where
  cycle : b.cycle = a.cycle + 1
  channel : b.voice.channel = a.voice.channel
  waits : a.left ≠ 0 → b.left + 1 = a.left ∧ b.voice = a.voice

/-- At the same cycle, with as many left. -/
structure Stays (a b : Standing) : Prop where
  cycle : b.cycle = a.cycle
  left : b.left = a.left
  channel : b.voice.channel = a.voice.channel

theorem Stays.refl (a : Standing) : a.Stays a := ⟨rfl, rfl, rfl⟩

/-- Timers that stand at one cycle and all move on by as much stand at one cycle again. -/
theorem cycle_of_forall₂ {as bs : List Standing} {n : Nat}
    (h : List.Forall₂ (fun a b => b.cycle = a.cycle + n) as bs) {cycle : Nat}
    (has : ∀ a ∈ as, a.cycle = cycle) : ∀ b ∈ bs, b.cycle = cycle + n := by
  induction h with
  | nil => exact fun b hb => absurd hb List.not_mem_nil
  | cons hab _ ih =>
    rw [List.forall_mem_cons] at has ⊢
    exact ⟨hab.trans (congrArg (· + n) has.1), ih has.2⟩

@[simp] theorem changes_self (a : Standing) : a.changes a = [] := Voice.changes_self ..

/-- A channel's changes carry the cycle at which it stands. -/
theorem mem_changes {a b : Standing} {c : LevelChange} (h : c ∈ a.changes b) : c.cycle = b.cycle := by
  unfold changes Voice.changes at h
  split at h
  · cases h
  · rw [List.mem_singleton.mp h]

end Standing

/-- Where a channel with this timer and this voice stands. -/
def Timer.standing (t : Timer) (v : Voice) : Standing := ⟨t.previous, t.counter, v⟩

/-- A channel has gone one cycle on, and the mixer has been told just that. -/
structure Ticks (a b : Standing) (m m' : Mixer) : Prop where
  next : a.Next b
  mixer : m' = m.note (a.changes b)

/-- What a channel notes comes behind what has been noted before. -/
theorem Ticks.mixer_of_note {a b : Standing} {m₀ : Mixer} {cs : List LevelChange} (h : Ticks a b m m')
    (hm : m = m₀.note cs) : m' = m₀.note (cs ++ a.changes b) := by
  rw [h.mixer, hm, Mixer.note_note]

/-- What an expiry tells the mixer is all that one cycle of a channel tells it. -/
theorem Timer.ticks_drive {σ : Type} {expire : Nat → σ → σ} {target : Nat} {t : Timer} {s : σ}
    (voice : σ → Voice) (mixer : σ → Mixer) (h : t.previous + 1 = target)
    (hexpire : Reports target (voice s) (voice (expire target s)) (mixer s) (mixer (expire target s))) :
    Ticks (t.standing (voice s))
      ((t.drive expire target s).1.standing (voice (t.drive expire target s).2))
      (mixer s) (mixer (t.drive expire target s).2) := by
  rw [drive_next h]
  by_cases hc : t.counter = 0
  · rw [if_pos hc]
    exact ⟨⟨h.symm, hexpire.channel, fun hn => absurd hc hn⟩, hexpire.mixer⟩
  · rw [if_neg hc]
    refine ⟨⟨h.symm, rfl, fun _ => ⟨?_, rfl⟩⟩, ?_⟩
    · show t.counter - 1 + 1 = t.counter
      omega
    · exact (Reports.refl target (voice s) (mixer s)).mixer

/-! ## Channels -/

section Channels

variable {target : Nat} (hl : target < m.settings.cycleLength.toNat)

/-- Where the channel stands. -/
def Pulse.standing (p : Pulse) : Standing := p.timer.standing p.voice

/-- Where the channel stands. -/
def Noise.standing (n : Noise) : Standing := n.timer.standing n.voice

/-- Where the channel stands. -/
def Triangle.standing (t : Triangle) : Standing := t.timer.standing t.voice

/-- Where the channel stands. -/
def Dmc.standing (d : Dmc) : Standing := d.timer.standing d.voice

/-- A sweep changes the period, which has no part in where the channel stands. -/
theorem Pulse.standing_clockSweep (p : Pulse) : p.clockSweep.standing = p.standing := by
  unfold clockSweep
  split
  · rfl
  · rfl

/-- A pulse channel that is up to date does nothing. -/
theorem Pulse.run_self {p : Pulse} (h : p.timer.previous = target) : p.run target m = (p, m) := by
  unfold run
  rw [Timer.drive_self h]

theorem Noise.run_self {n : Noise} (h : n.timer.previous = target) : n.run target m = (n, m) := by
  unfold run
  rw [Timer.drive_self h]

theorem Triangle.run_self {t : Triangle} (h : t.timer.previous = target) :
    t.run target m = (t, m) := by
  unfold run
  rw [Timer.drive_self h]

theorem Dmc.run_self {d : Dmc} (h : d.timer.previous = target) : d.run target m = (d, m) := by
  unfold run
  rw [Timer.drive_self h]

include hl

/-- A pulse channel that runs for one cycle reports its change at that cycle. -/
theorem Pulse.ticks_run {p : Pulse} (h : p.timer.previous + 1 = target) :
    Ticks p.standing (p.run target m).1.standing m (p.run target m).2 :=
  Timer.ticks_drive (s := (p, m)) (·.1.voice) (·.2) h (Voice.reports_set hl _ _)

/-- So does the noise channel. -/
theorem Noise.ticks_run {n : Noise} (h : n.timer.previous + 1 = target) :
    Ticks n.standing (n.run target m).1.standing m (n.run target m).2 :=
  Timer.ticks_drive (s := (n, m)) (·.1.voice) (·.2) h (Voice.reports_set hl _ _)

/-- An expiry of the triangle channel reports the new level. -/
theorem Triangle.reports_expire (t : Triangle) :
    Reports target t.voice (expire target (t, m)).1.voice m (expire target (t, m)).2 := by
  unfold expire
  dsimp only
  split
  · split
    · exact Voice.reports_set hl _ _
    · exact .refl target t.voice m
  · exact .refl target t.voice m

/-- The triangle channel that runs for one cycle reports its change at that cycle. -/
theorem Triangle.ticks_run {t : Triangle} (h : t.timer.previous + 1 = target) :
    Ticks t.standing (t.run target m).1.standing m (t.run target m).2 :=
  Timer.ticks_drive (s := (t, m)) (·.1.voice) (·.2) h (t.reports_expire hl)

/-- The delta modulation channel reports its level when it has changed. -/
theorem Dmc.reports_updateAt (d : Dmc) :
    Reports target d.voice (d.updateAt target m).1.voice m (d.updateAt target m).2 :=
  Voice.reports_set hl d.voice _

/-- An expiry of it reports the new level. -/
theorem Dmc.reports_expire (d : Dmc) :
    Reports target d.voice (expire target (d, m)).1.voice m (expire target (d, m)).2 := by
  have hbit := d.kept_playBit.voice
  unfold expire
  dsimp only
  split
  · have hbyte := (Dmc.kept_nextByte { d.playBit with bitsLeft := 8 }).voice
    rw [← show _ = d.voice from hbyte.trans hbit]
    exact reports_updateAt hl _
  · rw [← hbit]
    exact reports_updateAt hl { d.playBit with bitsLeft := d.playBit.bitsLeft - 1 }

/-- Running for one cycle it reports its change at that cycle. -/
theorem Dmc.ticks_run {d : Dmc} (h : d.timer.previous + 1 = target) :
    Ticks d.standing (d.run target m).1.standing m (d.run target m).2 :=
  Timer.ticks_drive (s := (d, m)) (·.1.voice) (·.2) h (d.reports_expire hl)

end Channels

/-! ## The unit -/

namespace Sound

/-- Where the channels stand, in the order in which they are run. -/
def standings (s : Sound) : List Standing :=
  [s.pulse1.standing, s.pulse2.standing, s.noise.standing, s.triangle.standing, s.dmc.standing]

/-- What the mixer is told on the way from one state of the unit to another, channel by channel. -/
def changes (s q : Sound) : List LevelChange :=
  (s.standings.zip q.standings).flatMap fun p => p.1.changes p.2

variable {s q : Sound}

/-- All channels stand at a cycle if all their timers do. -/
theorem channelsAt_iff_standings {cycle : Nat} :
    s.ChannelsAt cycle ↔ ∀ a ∈ s.standings, a.cycle = cycle := by
  rw [channelsAt_iff]
  simp only [standings, List.forall_mem_cons, List.not_mem_nil, false_implies, implies_true, and_true]
  constructor
  · rintro ⟨h₁, h₂, h₃, h₄, h₅⟩
    exact ⟨h₁, h₂, h₄, h₃, h₅⟩
  · rintro ⟨h₁, h₂, h₄, h₃, h₅⟩
    exact ⟨h₁, h₂, h₃, h₄, h₅⟩

/-- Channels that have each gone one cycle on stand at the next. -/
theorem channelsAt_of_next {cycle : Nat} (hat : s.ChannelsAt cycle)
    (h : List.Forall₂ Standing.Next s.standings q.standings) : q.ChannelsAt (cycle + 1) :=
  channelsAt_iff_standings.mpr
    (Standing.cycle_of_forall₂ (h.imp fun _ _ => Standing.Next.cycle) (channelsAt_iff_standings.mp hat))

/-- Channels that have stayed stand where they stood. -/
theorem channelsAt_of_stays {cycle : Nat} (hat : s.ChannelsAt cycle)
    (h : List.Forall₂ Standing.Stays s.standings q.standings) : q.ChannelsAt cycle :=
  channelsAt_iff_standings.mpr
    (Standing.cycle_of_forall₂ (n := 0) (h.imp fun _ _ => Standing.Stays.cycle)
      (channelsAt_iff_standings.mp hat))

/-- All changes of the channels are of the cycle that the channels come to. -/
theorem cycle_of_mem_changes {cycle : Nat} (h : q.ChannelsAt cycle) {c : LevelChange}
    (hc : c ∈ s.changes q) : c.cycle = cycle := by
  obtain ⟨⟨a, b⟩, hab, hc⟩ := List.mem_flatMap.mp hc
  rw [Standing.mem_changes hc]
  exact channelsAt_iff_standings.mp h b (List.of_mem_zip hab).2

/-- The channels stand where the run that is to come finds them: it does nothing. -/
theorem runChannels_here (h : s.ChannelsAt s.previous) : s.runChannels = s := by
  obtain ⟨h₁, h₂, h₃, h₄, h₅⟩ := channelsAt_iff.mp h
  unfold runChannels
  dsimp only
  rw [Pulse.run_self h₁]
  dsimp only
  rw [Pulse.run_self h₂]
  dsimp only
  rw [Noise.run_self h₄]
  dsimp only
  rw [Triangle.run_self h₃]
  dsimp only
  rw [Dmc.run_self h₅]

/-- Sent one cycle on, the five channels tell the mixer one after the other. -/
theorem runChannels_next {cycle : Nat} (h : s.ChannelsAt cycle) (hp : s.previous = cycle + 1)
    (hl : s.previous < s.mixer.settings.cycleLength.toNat) :
    List.Forall₂ Standing.Next s.standings s.runChannels.standings ∧
      s.runChannels.mixer = s.mixer.note (s.changes s.runChannels) := by
  obtain ⟨h₁, h₂, h₃, h₄, h₅⟩ := channelsAt_iff.mp h
  have hnote : ∀ {m : Mixer} {cs : List LevelChange}, m = s.mixer.note cs →
      s.previous < m.settings.cycleLength.toNat := by
    rintro m cs rfl
    exact hl
  have t₁ := Pulse.ticks_run hl (p := s.pulse1) (by rw [h₁, hp])
  have m₁ := t₁.mixer
  have t₂ := Pulse.ticks_run (hnote m₁) (p := s.pulse2) (by rw [h₂, hp])
  have m₂ := t₂.mixer_of_note m₁
  have t₃ := Noise.ticks_run (hnote m₂) (n := s.noise) (by rw [h₄, hp])
  have m₃ := t₃.mixer_of_note m₂
  have t₄ := Triangle.ticks_run (hnote m₃) (t := s.triangle) (by rw [h₃, hp])
  have m₄ := t₄.mixer_of_note m₃
  have t₅ := Dmc.ticks_run (hnote m₄) (d := s.dmc) (by rw [h₅, hp])
  have m₅ := t₅.mixer_of_note m₄
  refine ⟨.cons t₁.next (.cons t₂.next (.cons t₃.next (.cons t₄.next (.cons t₅.next .nil)))), ?_⟩
  refine Eq.trans (show s.runChannels.mixer = _ from m₅) (congrArg s.mixer.note ?_)
  simp only [List.append_assoc]
  rw [← List.append_nil (Standing.changes s.dmc.standing _)]
  rfl

/-! ## The runs of one cycle

  A unit that is up to date and goes one cycle on has all its channels go one cycle on, so each reports
  at most one change and none is late. -/

/-- What the frame counter clocks moves no timer, and the mixer is not told. -/
theorem standings_clock (event : Option FrameEvent) (s : Sound) :
    (s.clock event).reloadLengths.standings = s.standings := by
  rcases event with _ | _ | _
  · rfl
  · rfl
  · have h₁ := s.pulse1.clockEnvelope.clockLength.standing_clockSweep
    have h₂ := s.pulse2.clockEnvelope.clockLength.standing_clockSweep
    exact congrArg₂ (fun a b => [a, b, s.noise.standing, s.triangle.standing, s.dmc.standing]) h₁ h₂

/-- While the unit catches up by one cycle: the cycle has not been taken and nothing has moved, or it has
    been taken and the mixer has been told. -/
inductive Stepping (s : Sound) : Nat → Sound → Prop
  | before {q : Sound} : q.previous = s.previous → q.standings = s.standings → q.mixer = s.mixer →
      Stepping s 1 q
  | after {q : Sound} : q.previous = s.previous + 1 →
      List.Forall₂ Standing.Next s.standings q.standings → q.mixer = s.mixer.note (s.changes q) →
      Stepping s 0 q

theorem channelsAt_congr (h : q.standings = s.standings) {cycle : Nat} :
    q.ChannelsAt cycle ↔ s.ChannelsAt cycle := by
  rw [channelsAt_iff_standings, channelsAt_iff_standings, h]

/-- The changes between two units depend on where their channels stand. -/
theorem changes_congr {q' : Sound} (h : q'.standings = q.standings) : s.changes q' = s.changes q := by
  unfold changes
  rw [h]

/-- What the frame counter has clocked stands as before, and is run from there. -/
theorem advance_eq (taken : Nat) (event : Option FrameEvent) (q : Sound) :
    ∃ c : Sound, advance taken event q = c.runChannels ∧ c.previous = q.previous + taken ∧
      c.standings = q.standings ∧ c.mixer = q.mixer := by
  obtain ⟨hp, -, hm⟩ := clock_spec event { q with previous := q.previous + taken }
  exact ⟨_, rfl, hp, standings_clock event { q with previous := q.previous + taken }, hm⟩

/-- A run takes the cycle or takes none. -/
theorem Stepping.advance (hat : s.ChannelsAt s.previous)
    (hl : s.previous + 1 < s.mixer.settings.cycleLength.toNat) {left taken : Nat}
    (h : Stepping s left q) (event : Option FrameEvent) (hle : taken ≤ left) :
    Stepping s (left - taken) (advance taken event q) := by
  obtain ⟨c, he, hp, hs, hm⟩ := advance_eq taken event q
  rw [he]
  cases h with
  | before hqp hqs hqm =>
    have hc := (channelsAt_congr (hs.trans hqs)).mpr hat
    rcases Nat.le_one_iff_eq_zero_or_eq_one.mp hle with rfl | rfl
    · rw [runChannels_here (show c.ChannelsAt c.previous by rwa [hp, hqp])]
      exact .before (hp.trans hqp) (hs.trans hqs) (hm.trans hqm)
    · obtain ⟨hnext, hmixer⟩ := runChannels_next hc (by rw [hp, hqp])
        (by rw [hp, hqp, hm, hqm]; exact hl)
      have hfrom : c.changes c.runChannels = s.changes c.runChannels := by
        unfold changes
        rw [hs, hqs]
      refine .after (hp.trans (congrArg (· + 1) hqp)) (by rwa [← hs.trans hqs]) ?_
      rw [hmixer, hfrom, hm, hqm]
  | after hqp hqs hqm =>
    obtain rfl := Nat.le_zero.mp hle
    have hc : c.ChannelsAt c.previous := by
      rw [hp, hqp, channelsAt_congr hs]
      exact channelsAt_of_next hat hqs
    rw [runChannels_here hc]
    exact .after (hp.trans hqp) (by rwa [hs]) (by rw [hm, hqm, changes_congr hs])

/-- The unit has gone one cycle on with all its channels, within the audio frame, and the mixer has been
    told just that. -/
structure OneCycle (s q : Sound) : Prop where
  previous : q.previous = s.current + 1
  current : q.current = s.current + 1
  below : s.current + 1 < s.mixer.settings.cycleLength.toNat
  channels : q.ChannelsAt (s.current + 1)
  next : List.Forall₂ Standing.Next s.standings q.standings
  mixer : q.mixer = s.mixer.note (s.changes q)

/-- To catch up by one cycle is one cycle of every channel. -/
theorem oneCycle_catchUp (hp : s.previous + 1 = s.current) (hat : s.ChannelsAt s.previous)
    (hl : s.current < s.mixer.settings.cycleLength.toNat) {b : Sound} (hb : b.current = s.previous)
    (hs : b.standings = s.standings) (hm : b.mixer = s.mixer) : OneCycle b s.catchUp := by
  have hpos : s.previous < s.current := by omega
  obtain ⟨hprevious, hcurrent, hchannels, -⟩ := catchUp_spec hpos
  have hstart : Stepping s (s.current - s.previous) s := by
    rw [show s.current - s.previous = 1 by omega]
    exact .before rfl rfl rfl
  have hend := FrameCounter.drive_inv (P := Stepping s)
    (fun _ _ event _ hle h => h.advance hat (hp ▸ hl) event hle) _ s.frameCounter hstart
  obtain ⟨hnext, hmixer⟩ : List.Forall₂ Standing.Next s.standings s.catchUp.standings ∧
      s.catchUp.mixer = s.mixer.note (s.changes s.catchUp) := by
    rw [catchUp_eq]
    cases hend with
    | after _ hnext hmixer => exact ⟨hnext, hmixer⟩
  have hcycle : s.current = b.current + 1 := by omega
  refine ⟨hprevious.trans hcycle, hcurrent.trans hcycle, ?_, hcycle ▸ hchannels, by rwa [hs], ?_⟩
  · rwa [← hcycle, hm]
  · unfold changes
    rwa [hs, hm]

end Sound

/-! ## Registers -/

/-- A register has been written: the channel stands as before, and if its level is another for that the
    mixer has been told. -/
structure Touched (a b : Standing) (m m' : Mixer) : Prop where
  stays : a.Stays b
  mixer : m' = m.note (a.changes b)

theorem Touched.refl (a : Standing) (m : Mixer) : Touched a a m m :=
  ⟨.refl a, by rw [a.changes_self, m.note_nil]⟩

/-- A pulse channel that is written reports its change at the cycle it stands at. -/
theorem Pulse.touched_update {p q : Pulse} (hs : q.standing = p.standing)
    (hl : p.timer.previous < m.settings.cycleLength.toNat) :
    Touched p.standing (q.update m).1.standing m (q.update m).2 := by
  have hcycle : p.timer.previous = q.timer.previous := (congrArg Standing.cycle hs).symm
  have hset := Voice.reports_set (hcycle ▸ hl) q.voice q.level
  rw [← hs]
  exact ⟨⟨rfl, rfl, hset.channel⟩, hset.mixer⟩

/-- What a register of the channel sets has no part in where it stands, but in the level it is at. -/
theorem Pulse.touched_write {p : Pulse} (hl : p.timer.previous < m.settings.cycleLength.toNat)
    (register : UInt16) (data : UInt8) :
    Touched p.standing (p.write register data m).1.standing m (p.write register data m).2 := by
  unfold write
  split
  · exact touched_update rfl hl
  · exact touched_update rfl hl
  · exact touched_update rfl hl
  · exact touched_update rfl hl

/-- So does the noise channel. -/
theorem Noise.touched_write (n : Noise) (register : UInt16) (data : UInt8) :
    Touched n.standing (n.write register data m).1.standing m (n.write register data m).2 := by
  unfold write
  split
  · exact .refl n.standing m
  · exact .refl n.standing m
  · exact .refl n.standing m
  · exact .refl n.standing m

/-- The triangle channel reports nothing when it is written. -/
theorem Triangle.touched_write (t : Triangle) (register : UInt16) (data : UInt8) :
    Touched t.standing (t.write register data m).1.standing m (t.write register data m).2 := by
  unfold write
  split
  · exact .refl t.standing m
  · exact .refl t.standing m
  · exact .refl t.standing m
  · exact .refl t.standing m

/-- The delta modulation channel reports a level that is written. -/
theorem Dmc.touched_write {d : Dmc} (hl : d.timer.previous < m.settings.cycleLength.toNat)
    (register : UInt16) (data : UInt8) :
    Touched d.standing (d.write register data m).1.standing m (d.write register data m).2 := by
  unfold write
  split
  · exact .refl d.standing m
  · have hset := Voice.reports_set hl d.voice (Int16.ofNat (data &&& 0x7F).toNat)
    exact ⟨⟨rfl, rfl, hset.channel⟩, hset.mixer⟩
  · exact .refl d.standing m
  · exact .refl d.standing m

/-- What is asked of the delta modulation channel, and what is handed to it, does not move it. -/
theorem Dmc.Kept.standing {d q : Dmc} (h : Kept d q) : q.standing = d.standing :=
  congrArg₂ Timer.standing h.timer h.voice

namespace Sound

variable {s q : Sound}

/-- No channel has gone on, nor has the frame counter, and the mixer has been told what there is to be
    heard of it. -/
structure Touches (s q : Sound) : Prop where
  previous : q.previous = s.previous
  current : q.current = s.current
  channels : List.Forall₂ Standing.Stays s.standings q.standings
  elapsed : q.frameCounter.elapsed = s.frameCounter.elapsed
  step : q.frameCounter.step = s.frameCounter.step
  mixer : q.mixer = s.mixer.note (s.changes q)

/-- A unit whose delta modulation channel has been exchanged for one that stands as it did. -/
theorem standings_of_dmc {d : Dmc} (h : d.standing = s.dmc.standing) :
    [s.pulse1.standing, s.pulse2.standing, s.noise.standing, s.triangle.standing, d.standing] =
      s.standings := by
  rw [h]
  rfl

theorem stays_self (as : List Standing) : List.Forall₂ Standing.Stays as as :=
  List.forall₂_same.mpr fun a _ => .refl a

/-- Where no channel has moved there is no change. -/
theorem changes_of_standings (h : q.standings = s.standings) : s.changes q = [] := by
  unfold changes
  rw [h]
  simp [standings]

/-- Where the channels stand as before there is nothing to tell. -/
theorem touches_of_standings (hp : q.previous = s.previous) (hc : q.current = s.current)
    (hs : q.standings = s.standings) (he : q.frameCounter.elapsed = s.frameCounter.elapsed)
    (hstep : q.frameCounter.step = s.frameCounter.step) (hm : q.mixer = s.mixer) : Touches s q := by
  refine ⟨hp, hc, ?_, he, hstep, ?_⟩
  · rw [hs]
    exact stays_self s.standings
  · rw [changes_of_standings hs, hm, Mixer.note_nil]

/-- A register is written at the cycle that the channels stand at. -/
theorem touches_writeRegister (hat : s.ChannelsAt s.current)
    (hl : s.current < s.mixer.settings.cycleLength.toNat) (addr : UInt16) (data : UInt8) :
    Touches s (s.writeRegister addr data) := by
  obtain ⟨h₁, h₂, -, -, h₅⟩ := channelsAt_iff.mp hat
  unfold writeRegister
  dsimp only
  split
  · have h := Pulse.touched_write (h₁ ▸ hl) (addr &&& 0x03) data
    refine ⟨rfl, rfl, .cons h.stays (stays_self _), rfl, rfl, ?_⟩
    rw [h.mixer]
    simp [changes, standings]
  · have h := Pulse.touched_write (h₂ ▸ hl) (addr &&& 0x03) data
    refine ⟨rfl, rfl, .cons (.refl _) (.cons h.stays (stays_self _)), rfl, rfl, ?_⟩
    rw [h.mixer]
    simp [changes, standings]
  · have h := s.triangle.touched_write (m := s.mixer) (addr &&& 0x03) data
    refine ⟨rfl, rfl, .cons (.refl _) (.cons (.refl _) (.cons (.refl _)
      (.cons h.stays (stays_self _)))), rfl, rfl, ?_⟩
    rw [h.mixer]
    simp [changes, standings]
  · have h := s.noise.touched_write (m := s.mixer) (addr &&& 0x03) data
    refine ⟨rfl, rfl, .cons (.refl _) (.cons (.refl _) (.cons h.stays (stays_self _))), rfl, rfl, ?_⟩
    rw [h.mixer]
    simp [changes, standings]
  · have h := Dmc.touched_write (h₅ ▸ hl) (addr &&& 0x03) data
    refine ⟨rfl, rfl, .cons (.refl _) (.cons (.refl _) (.cons (.refl _) (.cons (.refl _)
      (.cons h.stays .nil)))), rfl, rfl, ?_⟩
    rw [h.mixer]
    simp [changes, standings]
  · split
    · have hdmc := (Dmc.kept_setEnabled { s.dmc with irq := false } (data &&& 0x10 != 0)).standing
      exact touches_of_standings rfl rfl (standings_of_dmc hdmc) rfl rfl rfl
    · split
      · exact touches_of_standings rfl rfl rfl rfl rfl rfl
      · exact touches_of_standings rfl rfl rfl rfl rfl rfl

end Sound

end Famicom
