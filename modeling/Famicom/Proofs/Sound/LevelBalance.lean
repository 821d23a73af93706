/-
  Levels reach the mixer without loss.

  The level of a channel is kept in three places: in the channel (`output`), as changes noted in the mixer
  in the order they were told in, and in the mixer's own levels, which the end of an audio frame brings up
  to date.  Registers, the frame counter and the timers move the first, and the ends of frames the others.

  1. **Turns**: what one cycle, or one register, tells the mixer takes each channel from its old level to
     its new one, at most one change for a channel (`tracks_changes`).
  2. **The invariant** (`Balanced`): the channels are in their ranges, each has a voice of its own, and
     the account of the mixer is in order.  One step for what is told (`Balanced.told`), one for the end
     of a frame (`Balanced.close`).
  3. **Runs**: a run is free of errors if no call fails and the mixer drops nothing that it is told
     (`ErrorFree`).  Of frames of two cycles or more it never does (`Unfailing.noted`).

  Main statement: in every such run no level is lost and no word wraps (`Lossless`), up to and including
  every end of a frame, which leaves the mixer at the levels of the channels (`errorFree_lossless`).
-/
import Mathlib.Data.List.Nodup
import Famicom.Proofs.Mixer.Balance
import Famicom.Proofs.Sound.ChannelRanges
import Famicom.Proofs.Sound.Synchrony

namespace Famicom

open LevelChange (amount total Tracks)

/-! ## One change -/

namespace Voice

variable {v w : Voice} {c : Channel} {start : Int}

/-- A voice says nothing about other channels. -/
theorem tracks_changes_of_ne (hc : v.channel ≠ c) (cycle : Nat) (hs : c.Plays start) :
    Tracks c start (v.changes w cycle) ∧ total c (v.changes w cycle) = 0 := by
  unfold changes
  split
  · exact ⟨LevelChange.tracks_nil.mpr hs, rfl⟩
  · have hzero : amount c ⟨cycle, .single v.channel (w.level - v.level)⟩ = 0 := by
      unfold LevelChange.amount
      rw [Levels.get_single, if_neg (Ne.symm hc)]
      rfl
    rw [LevelChange.tracks_cons, LevelChange.tracks_nil, LevelChange.total_cons, hzero, Int.add_zero]
    exact ⟨⟨hs, hs⟩, rfl⟩

/-- Of its own channel it says how to get from the old level to the new one. -/
theorem tracks_changes_self (hc : v.channel = c) (cycle : Nat) (hv : c.Plays v.level.toInt)
    (hw : c.Plays w.level.toInt) : Tracks c v.level.toInt (v.changes w cycle) ∧
      v.level.toInt + total c (v.changes w cycle) = w.level.toInt := by
  unfold changes
  split
  · next heq =>
    refine ⟨LevelChange.tracks_nil.mpr hv, ?_⟩
    rw [LevelChange.total_nil, Int.add_zero, heq]
  · have hamount : v.level.toInt + amount c ⟨cycle, .single v.channel (w.level - v.level)⟩ =
        w.level.toInt := by
      unfold LevelChange.amount
      rw [Levels.get_single, if_pos hc.symm, hw.toInt_sub hv]
      omega
    rw [LevelChange.tracks_cons, LevelChange.tracks_nil, LevelChange.total_cons, LevelChange.total_nil,
      Int.add_zero, hamount]
    exact ⟨⟨hv, hw⟩, rfl⟩

end Voice

/-! ## Turns -/

section Turns

variable {f g : Channel → Standing} {c : Channel}

/-- Channels that take their turns say nothing about one that is not among them. -/
theorem Standing.tracks_turns_of_not_mem (hf : ∀ d, (f d).voice.channel = d) {turns : List Channel}
    (hc : c ∉ turns) {start : Int} (hs : c.Plays start) :
    Tracks c start (turns.flatMap fun d => (f d).changes (g d)) ∧
      total c (turns.flatMap fun d => (f d).changes (g d)) = 0 := by
  induction turns with
  | nil => exact ⟨LevelChange.tracks_nil.mpr hs, rfl⟩
  | cons d turns ih =>
    rw [List.mem_cons, not_or] at hc
    obtain ⟨hne, hc⟩ := hc
    obtain ⟨hfirst, hzero⟩ := Voice.tracks_changes_of_ne (w := (g d).voice)
      (show (f d).voice.channel ≠ c by rw [hf]; exact Ne.symm hne) (g d).cycle hs
    obtain ⟨hrest, hrestzero⟩ := ih hc
    rw [List.flatMap_cons]
    refine ⟨hfirst.append ?_, ?_⟩
    · rw [hzero, Int.add_zero]
      exact hrest
    · rw [LevelChange.total_append, hrestzero, Int.add_zero]
      exact hzero

/-- Each channel in its turn says how it gets from its old level to its new one. -/
theorem Standing.tracks_turns (hf : ∀ d, (f d).voice.channel = d)
    (hplays : c.Plays (f c).voice.level.toInt) (hplays' : c.Plays (g c).voice.level.toInt)
    {turns : List Channel} (hnodup : turns.Nodup) (hc : c ∈ turns) :
    Tracks c (f c).voice.level.toInt (turns.flatMap fun d => (f d).changes (g d)) ∧
      (f c).voice.level.toInt + total c (turns.flatMap fun d => (f d).changes (g d)) =
        (g c).voice.level.toInt := by
  obtain ⟨before, behind, rfl⟩ := List.append_of_mem hc
  rw [List.nodup_middle, List.nodup_cons, List.mem_append, not_or] at hnodup
  obtain ⟨⟨hbefore, hbehind⟩, -⟩ := hnodup
  -- before its turn and after it there are only others, who do not speak of it
  obtain ⟨hfirst, hfirstzero⟩ := tracks_turns_of_not_mem (g := g) hf hbefore hplays
  obtain ⟨hown, hfinal⟩ := Voice.tracks_changes_self (v := (f c).voice) (hf c) (g c).cycle hplays hplays'
  obtain ⟨hrest, hrestzero⟩ := tracks_turns_of_not_mem (g := g) hf hbehind hplays'
  rw [List.flatMap_append, List.flatMap_cons]
  refine ⟨hfirst.append ?_, ?_⟩
  · rw [hfirstzero, Int.add_zero]
    refine hown.append ?_
    rw [hfinal]
    exact hrest
  · rw [LevelChange.total_append, LevelChange.total_append, hfirstzero, hrestzero, Int.zero_add,
      Int.add_zero]
    exact hfinal

end Turns

namespace Sound

/-- Where the circuit of a channel stands. -/
def standingOf (s : Sound) : Channel → Standing
  | .pulse1 => s.pulse1.standing
  | .pulse2 => s.pulse2.standing
  | .triangle => s.triangle.standing
  | .noise => s.noise.standing
  | .dmc => s.dmc.standing

/-- The level that a channel has last told the mixer. -/
def output (s : Sound) (c : Channel) : Int16 := (s.standingOf c).voice.level

/-- The order in which the channels are run. -/
def turns : List Channel := [.pulse1, .pulse2, .noise, .triangle, .dmc]

/-- Every channel has its turn. -/
theorem mem_turns (c : Channel) : c ∈ turns := by cases c <;> decide

variable {s q : Sound} {settings : MixerSettings}

theorem standings_eq (s : Sound) : s.standings = turns.map s.standingOf := rfl

/-- The changes of a unit are those of its channels in their turns. -/
theorem changes_eq (s q : Sound) :
    s.changes q = turns.flatMap fun c => (s.standingOf c).changes (q.standingOf c) := rfl

theorem standingOf_congr (h : q.standings = s.standings) (c : Channel) :
    q.standingOf c = s.standingOf c := by
  rw [standings_eq, standings_eq, List.map_inj_left] at h
  exact h c (mem_turns c)

/-- What the channels put out depends on where they stand. -/
theorem output_congr (h : q.standings = s.standings) : q.output = s.output := by
  funext c
  unfold output
  rw [standingOf_congr h]

/-- Each channel has a voice of its own. -/
theorem Ranged.own (h : s.Ranged) (c : Channel) : (s.standingOf c).voice.channel = c := by
  cases c with
  | pulse1 => exact h.pulse1.channel
  | pulse2 => exact h.pulse2.channel
  | triangle => exact h.triangle.channel
  | noise => exact h.noise.channel
  | dmc => exact h.dmc.channel

/-- A channel in its ranges puts out a level that it can play. -/
theorem Ranged.plays (h : s.Ranged) (c : Channel) : c.Plays (s.output c).toInt := by
  cases c with
  | pulse1 => exact h.pulse1.voice
  | pulse2 => exact h.pulse2.voice
  | triangle => exact h.triangle.voice
  | noise => exact h.noise.voice
  | dmc => exact h.dmc.voice

/-- The changes from one state of the unit to another take every channel from its old level to its new
    one. -/
theorem tracks_changes (hs : s.Ranged) (hq : q.Ranged) (c : Channel) :
    Tracks c (s.output c).toInt (s.changes q) ∧
      (s.output c).toInt + total c (s.changes q) = (q.output c).toInt := by
  rw [changes_eq]
  exact Standing.tracks_turns hs.own (hs.plays c) (hq.plays c) (by decide) (mem_turns c)

/-! ## The invariant

  The account is kept for every channel by itself: what it puts out now is what the mixer has played of
  it and what it has still noted. -/

/-- Nothing is lost between the channels and the mixer. -/
structure Balanced (s : Sound) : Prop where
  ranged : s.Ranged
  accounts : s.mixer.Accounts s.output

/-- The counts of cycles agree, within the frame or at its start, and no change is noted for later. -/
structure Aligned (s : Sound) : Prop where
  previous : s.previous = s.current
  channels : s.ChannelsAt s.current
  within : s.current = 0 ∨ s.current < s.mixer.settings.cycleLength.toNat - 1
  noted : ∀ cycle ∈ s.mixer.noted, cycle ≤ s.current

/-- An aligned unit has nothing to catch up on. -/
theorem Aligned.catchUp_eq (h : s.Aligned) : s.catchUp = s := catchUp_self (Nat.le_of_eq h.previous.symm)

/-- A unit in step is aligned. -/
theorem InSync.aligned (h : s.InSync) : s.Aligned := ⟨h.previous, h.channels, .inr h.current_lt, h.noted⟩

/-- An aligned unit with frames of two cycles and more is in step. -/
theorem Aligned.inSync (h : s.Aligned) (hl : 2 ≤ s.mixer.settings.cycleLength.toNat) : s.InSync := by
  refine ⟨h.previous, h.channels, ?_, h.noted⟩
  rcases h.within with h0 | hlt
  · omega
  · exact hlt

/-- At the start of a frame with nothing noted. -/
theorem aligned_start (hp : s.previous = 0) (hc : s.current = 0) (hat : s.ChannelsAt 0)
    (hn : s.mixer.pending = #[]) : s.Aligned := by
  refine ⟨hp.trans hc.symm, hc ▸ hat, .inl hc, fun cycle hcycle => ?_⟩
  unfold Mixer.noted at hcycle
  rw [hn] at hcycle
  cases hcycle

/-- Alignment depends on the cycles, on what is noted and on the mixer's settings. -/
theorem Aligned.congr (h : s.Aligned) (hp : q.previous = s.previous) (hc : q.current = s.current)
    (hat : q.ChannelsAt s.current) (hn : q.mixer.noted = s.mixer.noted)
    (hm : q.mixer.settings = s.mixer.settings) : q.Aligned := by
  refine ⟨?_, ?_, ?_, ?_⟩
  · rw [hp, hc, h.previous]
  · rwa [hc]
  · rw [hc, hm]
    exact h.within
  · rw [hc, hn]
    exact h.noted

/-! ## What is told -/

/-- All changes on the way from one state to the other are noted: the mixer has dropped none. -/
def Noted (s q : Sound) : Prop := q.mixer = s.mixer.note (s.changes q)

/-- Changes that are told at a cycle, none before those that are noted, keep the balance. -/
theorem Balanced.told (h : s.Balanced) (hq : q.Ranged) (hm : Noted s q) {cycle : Nat}
    (hat : q.ChannelsAt cycle) (hnoted : ∀ past ∈ s.mixer.noted, past ≤ cycle) : q.Balanced := by
  refine ⟨hq, ?_⟩
  have hpending : q.mixer.pending.toList = s.mixer.pending.toList ++ s.changes q := by
    rw [hm]
    exact Array.toList_append
  have hlevels : q.mixer.levels = s.mixer.levels := by
    rw [hm]
    rfl
  have hlevel : q.mixer.Level := by
    rw [hm]
    exact h.accounts.level
  refine ⟨?_, fun c => ?_, fun c => ?_, hlevel⟩
  · -- what waits is of cycles that have come, and what is told is of one cycle
    rw [hpending]
    refine List.pairwise_append.mpr ⟨h.accounts.timely, List.pairwise_of_forall_mem_list ?_, ?_⟩
    · intro d hd e he
      exact Nat.le_of_eq ((cycle_of_mem_changes hat hd).trans (cycle_of_mem_changes hat he).symm)
    · intro d hd e he
      rw [cycle_of_mem_changes hat he]
      exact hnoted d.cycle (List.mem_map_of_mem hd)
  · rw [hpending, hlevels]
    refine (h.accounts.tracks c).append ?_
    rw [h.accounts.total]
    exact (tracks_changes h.ranged hq c).1
  · rw [hpending, hlevels, LevelChange.total_append, ← Int.add_assoc, h.accounts.total]
    exact (tracks_changes h.ranged hq c).2

/-- Where nothing is told the balance is what it was. -/
theorem Balanced.quiet (h : s.Balanced) (hq : q.Ranged) (hm : q.mixer = s.mixer)
    (ho : q.output = s.output) : q.Balanced := by
  refine ⟨hq, ?_⟩
  rw [hm, ho]
  exact h.accounts

/-- The end of a frame moves no level. -/
theorem output_rewound (s : Sound) : s.rewound.output = s.output := by
  funext c
  cases c <;> rfl

/-- Closing a frame does not change what the channels put out. -/
theorem output_close (h : s.close = (.ok (), q)) : q.output = s.output := by
  unfold Sound.close at h
  split at h
  · cases h
    exact output_rewound s
  · cases h

/-- A frame that the mixer takes leaves the mixer at the levels of the channels. -/
theorem Balanced.close (h : s.Balanced) (hc : s.close = (.ok (), q)) :
    q.Balanced ∧ q.Aligned ∧ q.mixer.pending = #[] ∧ ∀ c, q.mixer.levels.get c = q.output c := by
  unfold Sound.close at hc
  split at hc
  · next mixer hm =>
    cases hc
    obtain ⟨hpending, hlevels, haccounts⟩ := h.accounts.playFrame hm
    have ho := output_rewound s
    refine ⟨⟨{ h.ranged.rewound with }, ?_⟩, ?_, hpending, ?_⟩
    · exact ho.symm ▸ haccounts
    · exact aligned_start rfl rfl (channelsAt_rewound s) hpending
    · exact ho.symm ▸ hlevels
  · cases hc

/-! ## Cycles -/

/-- A cycle ends the frame, or it goes on with a wait of the delta modulation channel that is shorter by
    one. -/
theorem process_eq_nextCycle (s : Sound) : s.process =
    if s.mixer.settings.cycleLength.toNat - 1 ≤ s.current + 1 then s.nextCycle.close
    else (.ok (), nextCycle { s with dmc := s.dmc.tickStartDelay }) := rfl

/-- One cycle on keeps the balance, if all that is told is noted. -/
theorem Balanced.nextCycle (h : s.Balanced) (ha : s.Aligned) (hn : Noted s s.nextCycle) :
    s.nextCycle.Balanced := by
  have hmoved : Ranged { s with current := s.current + 1 } := { h.ranged with }
  exact h.told hmoved.catchUp hn (channelsAt_nextCycle ha.previous)
    fun past hpast => Nat.le_succ_of_le (ha.noted past hpast)

/-- From a unit in step the next cycle is one cycle of every channel. -/
theorem InSync.oneCycle (h : s.InSync) : OneCycle s s.nextCycle := by
  have hlt := h.current_lt
  have hl : s.current + 1 < s.mixer.settings.cycleLength.toNat := by omega
  exact oneCycle_catchUp (s := { s with current := s.current + 1 }) (congrArg (· + 1) h.previous)
    (h.previous.symm ▸ h.channels) hl h.previous.symm rfl rfl

/-- The wait of the delta modulation channel is not heard. -/
theorem Balanced.tickStartDelay (h : s.Balanced) :
    Balanced { s with dmc := s.dmc.tickStartDelay } := by
  have hs : Sound.standings { s with dmc := s.dmc.tickStartDelay } = s.standings :=
    standings_of_dmc s.dmc.kept_tickStartDelay.standing
  exact h.quiet { h.ranged with dmc := h.ranged.dmc.of_kept s.dmc.kept_tickStartDelay } rfl
    (output_congr hs)

/-! ## Runs

  Every call of a run without errors keeps the invariant, or closes a frame with it. -/

/-- What can become of a unit if no call fails and nothing that is told is dropped. -/
inductive ErrorFree (settings : MixerSettings) : Sound → Prop where
  | new {region : Region} {s : Sound} : Sound.new region settings = .ok s → ErrorFree settings s
  | process {s q : Sound} : ErrorFree settings s → s.process = (.ok (), q) →
      Noted s s.nextCycle → ErrorFree settings q
  | endFrame {s q : Sound} : ErrorFree settings s → s.endFrame = (.ok (), q) → ErrorFree settings q
  | read {s : Sound} (addr : UInt16) : ErrorFree settings s → ErrorFree settings (s.read addr).2
  | write {s : Sound} (addr : UInt16) (data : UInt8) : ErrorFree settings s →
      Noted s (s.write addr data) → ErrorFree settings (s.write addr data)
  | takeDmcRequest {s : Sound} : ErrorFree settings s → ErrorFree settings s.takeDmcRequest.2
  | fillDmc {s : Sound} (value : UInt8) : ErrorFree settings s → ErrorFree settings (s.fillDmc value)
  | takeSamples {s : Sound} : ErrorFree settings s → ErrorFree settings s.takeSamples.2
  | setRegion {s q : Sound} {region : Region} :
      ErrorFree settings s → s.setRegion region = (.ok (), q) → ErrorFree settings q
  | reset {s q : Sound} : ErrorFree settings s → s.reset = (.ok (), q) → ErrorFree settings q

theorem ErrorFree.unfailing (h : ErrorFree settings s) : Unfailing settings s := by
  induction h with
  | new hs => exact .new hs
  | process _ hr _ ih => exact ih.process hr
  | endFrame _ hr ih => exact ih.endFrame hr
  | read addr _ ih => exact ih.read addr
  | write addr data _ _ ih => exact ih.write addr data
  | takeDmcRequest _ ih => exact ih.takeDmcRequest
  | fillDmc value _ ih => exact ih.fillDmc value
  | takeSamples _ ih => exact ih.takeSamples
  | setRegion _ hr ih => exact ih.setRegion hr
  | reset _ hr ih => exact ih.reset hr

/-- Of frames of two cycles or more, every cycle that something is told at is one of the frame. -/
theorem Unfailing.noted (hl : 2 ≤ settings.cycleLength.toNat) (h : Unfailing settings s) :
    Noted s s.nextCycle ∧ ∀ addr data, Noted s (s.write addr data) :=
  ⟨(h.inSync hl).oneCycle.mixer, fun addr data => ((h.inSync hl).write addr data).mixer⟩

/-- With frames of two cycles and more, a run without an error is error free call by call. -/
theorem Unfailing.errorFree (hl : 2 ≤ settings.cycleLength.toNat) (h : Unfailing settings s) :
    ErrorFree settings s := by
  induction h with
  | new hs => exact .new hs
  | process h hr ih => exact ih.process hr (h.noted hl).1
  | endFrame _ hr ih => exact ih.endFrame hr
  | read addr _ ih => exact ih.read addr
  | write addr data h ih => exact ih.write addr data ((h.noted hl).2 addr data)
  | takeDmcRequest _ ih => exact ih.takeDmcRequest
  | fillDmc value _ ih => exact ih.fillDmc value
  | takeSamples _ ih => exact ih.takeSamples
  | setRegion _ hr ih => exact ih.setRegion hr
  | reset _ hr ih => exact ih.reset hr

/-- What a run without errors keeps. -/
structure Steady (s : Sound) : Prop where
  aligned : s.Aligned
  balanced : s.Balanced

/-- A unit that has told all that has changed, and has not gone on. -/
theorem Steady.told (h : s.Steady) (hp : q.previous = s.previous) (hc : q.current = s.current)
    (hat : q.ChannelsAt s.current) (hn : Noted s q) (hq : q.Ranged) : q.Steady := by
  refine ⟨⟨?_, hc ▸ hat, ?_, ?_⟩, h.balanced.told hq hn hat h.aligned.noted⟩
  · rw [hp, hc, h.aligned.previous]
  · rw [hc, hn]
    exact h.aligned.within
  · intro cycle hcycle
    rw [hn, Mixer.noted_note, List.mem_append] at hcycle
    rw [hc]
    rcases hcycle with hcycle | hcycle
    · exact h.aligned.noted cycle hcycle
    · obtain ⟨c, hmem, rfl⟩ := List.mem_map.mp hcycle
      exact Nat.le_of_eq (cycle_of_mem_changes hat hmem)

/-- What touches a steady unit and keeps its ranges leaves it steady. -/
theorem Steady.touches (h : s.Steady) (ht : Touches s q) (hq : q.Ranged) : q.Steady :=
  h.told ht.previous ht.current (channelsAt_of_stays h.aligned.channels ht.channels) ht.mixer hq

/-- A unit that could be built is steady. -/
theorem steady_new {region : Region} (h : Sound.new region settings = .ok s) : s.Steady := by
  have hr := ranged_new h
  unfold Sound.new at h
  cases hm : Mixer.new region settings with
  | error e =>
    rw [hm] at h
    cases h
  | ok m =>
    rw [hm] at h
    cases h
    obtain ⟨-, -, -, units, -, rfl⟩ := Mixer.new_eq_ok_iff.mp hm
    refine ⟨aligned_start rfl rfl (channelsAt_iff.mpr ⟨rfl, rfl, rfl, rfl, rfl⟩) rfl, hr, ?_⟩
    exact Mixer.accounts_of_silent rfl rfl rfl fun c => by cases c <;> rfl

/-- A cycle that goes well leaves the unit steady, with its changes noted. -/
theorem Steady.process (h : s.Steady) (hr : s.process = (.ok (), q)) (hn : Noted s s.nextCycle) :
    q.Steady := by
  rw [process_eq_nextCycle] at hr
  split at hr
  · obtain ⟨hq, ha, -⟩ := (h.balanced.nextCycle h.aligned hn).close hr
    exact ⟨ha, hq⟩
  · next hlast =>
    -- the frame goes on, so it has room for two cycles at least and takes what is told
    cases hr
    have hs : s.standings = Sound.standings { s with dmc := s.dmc.tickStartDelay } :=
      (standings_of_dmc s.dmc.kept_tickStartDelay.standing).symm
    have ha : Aligned { s with dmc := s.dmc.tickStartDelay } :=
      h.aligned.congr rfl rfl ((channelsAt_congr hs).mp h.aligned.channels) rfl rfl
    have hsync : InSync { s with dmc := s.dmc.tickStartDelay } :=
      ha.inSync (show 2 ≤ s.mixer.settings.cycleLength.toNat by omega)
    exact ⟨(hsync.oneCycle.inSync hsync hlast).aligned,
      h.balanced.tickStartDelay.nextCycle ha hsync.oneCycle.mixer⟩

/-- So does the end of a frame. -/
theorem Steady.endFrame (h : s.Steady) (hr : s.endFrame = (.ok (), q)) : q.Steady := by
  rw [endFrame_eq, h.aligned.catchUp_eq] at hr
  obtain ⟨hq, ha, -⟩ := h.balanced.close hr
  exact ⟨ha, hq⟩

theorem Steady.read (h : s.Steady) (addr : UInt16) : (s.read addr).2.Steady := by
  unfold Sound.read
  rw [h.aligned.catchUp_eq]
  dsimp only
  split
  · exact ⟨h.aligned.congr rfl rfl h.aligned.channels rfl rfl,
      h.balanced.quiet { h.balanced.ranged with } rfl rfl⟩
  · exact h

/-- And so does a register that is written. -/
theorem Steady.write (h : s.Steady) (addr : UInt16) (data : UInt8)
    (hn : Noted s (s.write addr data)) : (s.write addr data).Steady := by
  unfold Sound.write at hn ⊢
  rw [h.aligned.catchUp_eq] at hn ⊢
  obtain ⟨hp, hc, hat⟩ := s.writeRegister_spec addr data
  exact h.told hp hc (hat.mpr h.aligned.channels) hn (h.balanced.ranged.writeRegister addr data)

/-- And a region that is taken. -/
theorem Steady.setRegion (h : s.Steady) {region : Region} (hr : s.setRegion region = (.ok (), q)) :
    q.Steady := by
  unfold Sound.setRegion at hr
  dsimp only at hr
  split at hr
  · cases hr
  · next mixer hm =>
    obtain ⟨resampler, rfl⟩ : ∃ resampler, mixer = { s.mixer with region, resampler } :=
      Mixer.retune_ok hm
    -- the clock and the tables are exchanged, and then there is nothing to catch up with
    have hsteady : Steady { s with
        region, mixer := { s.mixer with region, resampler }
        dmc := s.dmc.setRegion region, noise := s.noise.setRegion region } := by
      refine ⟨h.aligned.congr rfl rfl h.aligned.channels rfl rfl, ?_, ?_⟩
      · exact
          { h.balanced.ranged with
            noise := { h.balanced.ranged.noise with }, dmc := { h.balanced.ranged.dmc with } }
      · exact { h.balanced.accounts with }
    rw [hsteady.aligned.catchUp_eq] at hr
    cases hr
    exact ⟨hsteady.aligned.congr rfl rfl hsteady.aligned.channels rfl rfl,
      hsteady.balanced.quiet { hsteady.balanced.ranged with } rfl rfl⟩

theorem Steady.reset (h : s.Steady) (hr : s.reset = (.ok (), q)) : q.Steady := by
  have hranged := h.balanced.ranged.reset
  unfold Sound.reset at hr hranged
  dsimp only at hr hranged
  cases hm : s.mixer.reset with
  | mk result mixer =>
    rw [hm] at hr hranged
    cases hr
    obtain ⟨resampler, rfl⟩ : ∃ resampler, mixer = { s.mixer.cleared with resampler } :=
      Mixer.retune_ok hm
    refine ⟨aligned_start rfl rfl (channelsAt_iff.mpr ⟨rfl, rfl, rfl, rfl, rfl⟩) rfl, hranged, ?_⟩
    exact Mixer.accounts_of_silent rfl rfl rfl fun c => by cases c <;> rfl

/-- Without an error a unit is steady throughout. -/
theorem ErrorFree.steady (h : ErrorFree settings s) : s.Steady := by
  induction h with
  | new hs => exact steady_new hs
  | process _ hr hn ih => exact ih.process hr hn
  | endFrame _ hr ih => exact ih.endFrame hr
  | read addr _ ih => exact ih.read addr
  | write addr data _ hn ih => exact ih.write addr data hn
  | @takeDmcRequest s _ ih =>
    refine ih.touches (touches_takeDmcRequest s) ?_
    exact { ih.balanced.ranged with dmc := ih.balanced.ranged.dmc.of_kept s.dmc.kept_takeRequest }
  | @fillDmc s value _ ih =>
    refine ih.touches (touches_fillDmc s value) ?_
    exact { ih.balanced.ranged with dmc := ih.balanced.ranged.dmc.of_kept (s.dmc.kept_fill value) }
  | takeSamples _ ih =>
    exact ⟨ih.aligned.congr rfl rfl ih.aligned.channels rfl rfl, { ih.balanced.ranged with },
      { ih.balanced.accounts with }⟩
  | setRegion _ hr ih => exact ih.setRegion hr
  | reset _ hr ih => exact ih.reset hr

/-! ## No loss -/

/-- What the channels compute, and what of it the mixer knows, without loss. -/
structure Lossless (s : Sound) : Prop where
  /-- Each channel has last told a level that it can be at. -/
  outputs (c : Channel) : c.Plays (s.output c).toInt
  pulse1 : s.pulse1.Exact
  pulse2 : s.pulse2.Exact
  /-- The other periods: eleven bits, or one less than an entry of a table. -/
  triangle : s.triangle.timer.period.toNat ≤ 0x7FF
  noise : ∃ (region : Region) (i : Fin 16),
    s.noise.timer.period.toNat + 1 = (Noise.periods region)[i].toNat
  dmc : ∃ (region : Region) (i : Fin 16), s.dmc.timer.period.toNat + 1 = (Dmc.periods region)[i].toNat
  /-- The mixer's level and the changes that wait come to what the channel has last told. -/
  account (c : Channel) :
    (s.mixer.levels.get c).toInt + total c s.mixer.pending.toList = (s.output c).toInt
  /-- So they did after each change, at a level that the channel can be at. -/
  tracks (c : Channel) : Tracks c (s.mixer.levels.get c).toInt s.mixer.pending.toList
  /-- The next change is exact, whatever level the channel changes to. -/
  delta (c : Channel) (level : Int16) : c.Plays level.toInt →
    (level - s.output c).toInt = level.toInt - (s.output c).toInt
  /-- What has been put together for a cycle is the exact sum of its changes so far. -/
  slots (past : List LevelChange) : past <+: s.mixer.pending.toList →
    ∀ d ∈ LevelChange.inOrder past, ∀ c, amount c d = total c (LevelChange.ofCycle d.cycle past) ∧
      -c.top ≤ amount c d ∧ amount c d ≤ c.top
  /-- Brought up to date moment by moment, the mixer's levels are exact and so is the mixed level. -/
  replay (past : List LevelChange) : past <+: LevelChange.inOrder s.mixer.pending.toList →
    (∀ c : Channel, ((s.mixer.levels.after past).get c).toInt =
        (s.mixer.levels.get c).toInt + total c past ∧
      c.Plays ((s.mixer.levels.after past).get c).toInt) ∧
    (s.mixer.levels.after past).volume.toInt =
      (s.mixer.levels.after past).pulseVolume + (s.mixer.levels.after past).othersVolume
  /-- The resampler was last brought to four times the mixed level. -/
  lastOutput : s.mixer.lastOutput = 4 * s.mixer.outputVolume.toInt ∧
    0 ≤ s.mixer.lastOutput ∧ s.mixer.lastOutput ≤ 4 * (1287 + 3712)

/-- An audio frame has ended without loss: the mixer is at the levels of the channels, and no channel's
    level has changed. -/
structure Played (s q : Sound) : Prop where
  close : s.close = (.ok (), q)
  before : s.Lossless
  after : q.Lossless
  outputs : q.output = s.output
  levels (c : Channel) : q.mixer.levels.get c = q.output c
  pending : q.mixer.pending = #[]

/-- In a balanced unit nothing that was put out is lost. -/
theorem Balanced.lossless (h : s.Balanced) : s.Lossless := by
  have htracks := h.accounts.tracks
  have htimely := h.accounts.timely
  have hplays := h.ranged.plays
  have hlevels : s.mixer.levels.Playable := fun c => (htracks c).plays_start
  refine ⟨hplays, h.ranged.pulse1.exact, h.ranged.pulse2.exact, h.ranged.triangle.timer, ?_, ?_,
    h.accounts.total, htracks, fun c level hl => hl.toInt_sub (hplays c), ?_, ?_, h.accounts.level, ?_⟩
  · obtain ⟨region, rate, hr⟩ := h.ranged.noise.timer
    rw [hr]
    exact ⟨region, Noise.periodOf_exact region rate⟩
  · obtain ⟨region, rate, hr⟩ := h.ranged.dmc.timer
    rw [hr]
    exact ⟨region, Dmc.periodOf_exact region rate⟩
  · intro past hp d hd c
    have hpast : LevelChange.Timely past := htimely.sublist hp.sublist
    have ht := (htracks c).cut hp
    rw [hpast.inOrder_eq] at hd
    exact ⟨LevelChange.moment_exact hpast ht hd, ht.merge.1.amount_le hd⟩
  · intro past hp
    rw [htimely.inOrder_eq] at hp
    have ht (c : Channel) := (htracks c).merge.1.cut hp
    have hafter (c : Channel) := Levels.after_exact (ht c)
    have hplayable : (s.mixer.levels.after past).Playable := fun c => (hafter c) ▸ (ht c).plays_finish
    exact ⟨fun c => ⟨hafter c, hplayable c⟩, hplayable.volume_exact.1⟩
  · have hlevel : s.mixer.lastOutput = 4 * s.mixer.levels.volume.toInt := h.accounts.level
    obtain ⟨-, h₀, h₁⟩ := hlevels.volume_exact
    omega

/-- When its frame is closed, all that was put out has been played. -/
theorem Balanced.played (h : s.Balanced) (hc : s.close = (.ok (), q)) : Played s q := by
  obtain ⟨hq, -, hpending, hlevels⟩ := h.close hc
  exact ⟨hc, h.lossless, hq.lossless, output_close hc, hlevels, hpending⟩

/-- In every run without errors, whatever is written to the registers, nothing is lost on the way from the
    channels to the mixer and no word wraps: between calls, in the last cycle of an audio frame before it
    is played, and after it has been.  For frames of two cycles or more, every run in which no call fails
    is without errors; shorter ones have no room for what is told in their last cycle, and then nothing
    must be told in it. -/
theorem errorFree_lossless (settings : MixerSettings) (s : Sound) :
    (2 ≤ settings.cycleLength.toNat → Unfailing settings s → ErrorFree settings s ∧
      Noted s s.nextCycle ∧ ∀ addr data, Noted s (s.write addr data)) ∧
    (ErrorFree settings s → s.Lossless ∧ (∀ q, s.endFrame = (.ok (), q) → Played s q) ∧
      ∀ q, s.process = (.ok (), q) → Noted s s.nextCycle →
        if settings.cycleLength.toNat - 1 ≤ s.current + 1 then Played s.nextCycle q
        else q.Lossless) := by
  refine ⟨fun hl h => ⟨h.errorFree hl, h.noted hl⟩, fun h => ?_⟩
  have hs := h.steady
  refine ⟨hs.balanced.lossless, fun q hq => ?_, fun q hq hn => ?_⟩
  · rw [endFrame_eq, hs.aligned.catchUp_eq] at hq
    exact hs.balanced.played hq
  · have hnext := (hs.process hq hn).balanced
    rw [process_eq_nextCycle, h.unfailing.settings_eq] at hq
    split
    · next hlast =>
      rw [if_pos hlast] at hq
      exact (hs.balanced.nextCycle hs.aligned hn).played hq
    · exact hnext.lossless

/-! The delta modulation channel is set to level 64 at the start of a frame of 38 cycles, which then ends
at once, or goes on. -/

/-- A unit that has just been told a level. -/
def loud : Sound := (shortRun 0).write 0x4011 0x40

theorem unfailing_loud : Unfailing shortFrames loud := (Unfailing.new new_shortFrames).write _ _

theorem loud_eq : loud = (shortRun 0).writeRegister 0x4011 0x40 := by
  unfold loud Sound.write
  rw [catchUp_self (Nat.le_refl 0)]

theorem endFrame_loud : loud.endFrame.1 = .ok () := by
  have haccepts : loud.mixer.Accepts 0 := by
    rw [loud_eq]
    refine ⟨fun cycle hc => ?_, by unfold Resampler.Holds; decide +kernel⟩
    obtain rfl : cycle = 0 := List.mem_singleton.mp hc
    unfold Mixer.Reaches Resampler.Reaches
    decide +kernel
  have hcurrent : loud.current = 0 := by
    rw [loud_eq]
    rfl
  rw [endFrame_eq, (unfailing_loud.inSync (by decide)).catchUp_eq]
  unfold Sound.close
  rw [hcurrent]
  rcases loud.mixer.playFrame_spec 0 with ⟨-, hok⟩ | ⟨hnot, -⟩
  · rcases hp : loud.mixer.playFrame 0 with ⟨result, mixer⟩
    rw [hp] at hok
    cases hok
    rfl
  · exact absurd haccepts hnot

theorem errorFree_lossless_loud :
    ErrorFree shortFrames loud ∧ loud.output .dmc = 64 ∧ loud.Lossless ∧ Played loud loud.endFrame.2 ∧
      loud.process.2.Lossless := by
  obtain ⟨hrun, hall⟩ := errorFree_lossless shortFrames loud
  obtain ⟨herror, hnoted, -⟩ := hrun (by decide) unfailing_loud
  obtain ⟨hlossless, hend, hprocess⟩ := hall herror
  have hcurrent : loud.current = 0 := by
    rw [loud_eq]
    rfl
  have hlast : ¬ shortFrames.cycleLength.toNat - 1 ≤ loud.current + 1 := by
    rw [hcurrent]
    decide
  have hok : loud.process = (.ok (), loud.process.2) := by
    rw [process_eq_nextCycle, unfailing_loud.settings_eq, if_neg hlast]
  have hq := hprocess _ hok hnoted
  rw [if_neg hlast] at hq
  refine ⟨herror, ?_, hlossless, hend _ (Prod.ext endFrame_loud rfl), hq⟩
  rw [loud_eq]
  rfl

end Sound

end Famicom
