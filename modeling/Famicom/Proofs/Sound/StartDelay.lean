/-
  The wait between the start of a sample and the request for its first byte.

  A write that enables the delta modulation channel, where no byte of a sample is left, starts the sample
  and lets it wait for two cycles.

  1. **A move** (`Dmc.Waiting`): only a cycle of the wait shortens it, and the last one asks for the byte.
     All other moves, but for those that enable or disable the channel, leave a waiting channel waiting,
     for the same byte.
  2. **An act** of the unit has at most one cycle of the wait among its moves, at the start: a cycle that
     does not end its audio frame (`Sound.moves_within`, `Sound.aside_moves`).
  3. **A run**: while fewer such cycles have passed (`Sound.cyclesWithin`) than the channel is to wait for,
     it waits (`Dmc.Waiting.performAll`), and with the last of them it asks (`Dmc.Waiting.performAll_ask`).

  Main statement: the request comes with the second cycle that does not end its audio frame
  (`Sound.Reachable.request_after_start`).  So it comes with the second cycle if the frame goes on after
  that, and later if one of the two ends the frame (`Sound.exists_late_request`).
-/
import Famicom.Proofs.Sound.DmcMoves
import Famicom.Proofs.Sound.Synchrony

namespace Famicom

namespace Dmc

variable {d : Dmc} {cycles : Nat} {address : UInt16}

/-! ## Moves -/

/-- The channel waits for so many cycles, and then asks for the first byte of a sample. -/
structure Waiting (d : Dmc) (cycles : Nat) (address : UInt16) : Prop where
  delay : d.startDelay = cycles
  buffer : d.buffer = none
  requested : d.requested = false
  left : 0 < d.bytesLeft
  address : d.address = address

theorem waiting_bare : d.bare.Waiting cycles address ↔ d.Waiting cycles address :=
  ⟨fun ⟨hd, hb, hr, hl, ha⟩ => ⟨hd, hb, hr, hl, ha⟩, fun ⟨hd, hb, hr, hl, ha⟩ => ⟨hd, hb, hr, hl, ha⟩⟩

/-- With no byte to begin, an expiry of the timer touches nothing of the fetching. -/
structure Idle (d q : Dmc) : Prop where
  delay : q.startDelay = d.startDelay
  buffer : q.buffer = none
  requested : q.requested = d.requested
  left : q.bytesLeft = d.bytesLeft
  address : q.address = d.address

/-- Without a byte waiting an expiry asks for nothing. -/
theorem idle_expired (h : d.buffer = none) : Idle d d.expired := by
  have hplay : Idle d d.playBit := by
    unfold playBit
    split
    · exact ⟨rfl, h, rfl, rfl, rfl⟩
    · exact ⟨rfl, h, rfl, rfl, rfl⟩
  unfold expired
  split
  · unfold nextByte
    split
    · exact { hplay with }
    · next byte hbyte => cases hbyte.symm.trans hplay.buffer
  · exact { hplay with }

/-- So do any number of expiries. -/
theorem idle_expiries (h : d.buffer = none) (n : Nat) : Idle d (d.after (.replicate n .expire)) := by
  induction n with
  | zero => exact ⟨rfl, h, rfl, rfl, rfl⟩
  | succ n ih =>
    rw [after_replicate]
    obtain ⟨hd, hb, hr, hl, ha⟩ := idle_expired ih.buffer
    exact ⟨hd.trans ih.delay, hb, hr.trans ih.requested, hl.trans ih.left, ha.trans ih.address⟩

/-- Neither a cycle of the wait, nor to enable or disable the channel. -/
def Move.Aside : Move → Prop
  | .wait => False
  | .enable _ => False
  | _ => True

/-- A move aside leaves a sample waiting as long as before. -/
theorem Waiting.step (h : d.Waiting cycles address) {m : Move} (hm : m.Aside) :
    (d.step m).Waiting cycles address := by
  cases m with
  | expire =>
    obtain ⟨hd, hb, hr, hl, ha⟩ := idle_expired h.buffer
    exact ⟨hd.trans h.delay, hb, hr.trans h.requested, Nat.lt_of_lt_of_eq h.left hl.symm,
      ha.trans h.address⟩
  | control data => exact { h with }
  | level data => exact { h with }
  | address data => exact { h with }
  | length data => exact { h with }
  | enable on => exact hm.elim
  | wait => exact hm.elim
  | serve value =>
    show (d.serve value).Waiting cycles address
    rw [serve_eq, if_pos h.requested]
    exact h

/-- So do any number of them. -/
theorem Waiting.after (h : d.Waiting cycles address) {moves : List Move} (hm : ∀ m ∈ moves, m.Aside) :
    (d.after moves).Waiting cycles address := by
  induction moves generalizing d with
  | nil => exact h
  | cons m moves ih =>
    exact ih (h.step (hm m List.mem_cons_self)) fun m' hm' => hm m' (List.mem_cons_of_mem m hm')

/-- A cycle before the last of the wait. -/
theorem Waiting.wait (h : d.Waiting (cycles + 2) address) : (d.step .wait).Waiting (cycles + 1) address := by
  show d.tickStartDelay.Waiting (cycles + 1) address
  unfold tickStartDelay
  rw [h.delay]
  exact { h with delay := rfl }

/-- The last cycle of the wait. -/
theorem Waiting.ask (h : d.Waiting 1 address) : (d.step .wait).buffer = none ∧
    (d.step .wait).requested = true ∧ (d.step .wait).address = address := by
  have hask : ({ d with startDelay := 0 } : Dmc).askForByte =
      { d with startDelay := 0, requested := true } :=
    if_pos ⟨Option.isNone_iff_eq_none.mpr h.buffer, h.left⟩
  show d.tickStartDelay.buffer = none ∧ d.tickStartDelay.requested = true ∧
    d.tickStartDelay.address = address
  unfold tickStartDelay
  rw [h.delay]
  dsimp only
  rw [hask]
  exact ⟨h.buffer, rfl, h.address⟩

/-! ## Every sample has bytes -/

theorem kept_serve (d : Dmc) (value : UInt8) : Kept d (d.serve value) := by
  have htake := d.kept_takeRequest
  unfold serve
  generalize d.takeRequest = taken at htake
  obtain ⟨_ | _, q⟩ := taken
  · exact htake
  · exact htake.trans (q.kept_fill value)

theorem sampleLength_expired (d : Dmc) : d.expired.sampleLength = d.sampleLength := by
  have hplay := d.kept_playBit.sampleLength
  unfold expired
  split
  · exact (kept_nextByte _).sampleLength.trans hplay
  · exact hplay

/-- No move makes the length of a sample zero. -/
theorem sampleLength_step (h : 0 < d.sampleLength) (m : Move) : 0 < (d.step m).sampleLength := by
  cases m with
  | expire => exact Nat.lt_of_lt_of_eq h d.sampleLength_expired.symm
  | control data => exact h
  | level data => exact h
  | address data => exact h
  | length data => exact Nat.succ_pos _
  | enable on => exact Nat.lt_of_lt_of_eq h (kept_setEnabled { d with irq := false } on).sampleLength.symm
  | wait => exact Nat.lt_of_lt_of_eq h d.kept_tickStartDelay.sampleLength.symm
  | serve value => exact Nat.lt_of_lt_of_eq h (d.kept_serve value).sampleLength.symm

theorem sampleLength_after (h : 0 < d.sampleLength) (moves : List Move) :
    0 < (d.after moves).sampleLength := by
  induction moves generalizing d with
  | nil => exact h
  | cons m moves ih => exact ih (sampleLength_step h m)

end Dmc

namespace Sound

open Dmc (Move)

variable {s q : Sound} {cycles : Nat} {address : UInt16}

/-- Acts do their moves, so they leave samples with bytes. -/
theorem sampleLength_perform (h : 0 < s.dmc.sampleLength) (a : Act) :
    0 < (s.perform a).dmc.sampleLength := by
  have hmoves := congrArg Dmc.sampleLength (bare_perform s a)
  exact Nat.lt_of_lt_of_eq (Dmc.sampleLength_after (d := s.dmc.bare) h (s.moves a)) hmoves.symm

/-- So every sample has a byte at least. -/
theorem Reachable.sampleLength_pos (h : Reachable s) : 0 < s.dmc.sampleLength := by
  induction h with
  | new hs =>
    have hnew := congrArg Dmc.sampleLength (Begun.new hs).bare_eq
    exact Nat.lt_of_lt_of_eq (Nat.succ_pos 0) hnew.symm
  | process _ ih => exact sampleLength_perform ih .process
  | endFrame _ ih => exact sampleLength_perform ih .endFrame
  | read addr _ ih => exact sampleLength_perform ih (.read addr)
  | write addr data _ ih => exact sampleLength_perform ih (.write addr data)
  | @takeDmcRequest s _ ih => exact Nat.lt_of_lt_of_eq ih s.dmc.kept_takeRequest.sampleLength.symm
  | @fillDmc s value _ ih => exact Nat.lt_of_lt_of_eq ih (s.dmc.kept_fill value).sampleLength.symm
  | takeSamples _ ih => exact ih
  | setRegion region _ ih => exact sampleLength_perform ih (.setRegion region)
  | reset _ _ => exact Nat.succ_pos 0

/-! ## Acts -/

/-- The next cycle goes on within its audio frame. -/
def Within (s : Sound) : Prop := s.current + 1 < s.mixer.settings.cycleLength.toNat - 1

instance : Decidable s.Within := inferInstanceAs (Decidable (_ < _))

/-- How many cycles of a run do not end their audio frame. -/
def cyclesWithin (s : Sound) : List Act → Nat
  | [] => 0
  | a :: acts => (if a = .process ∧ s.Within then 1 else 0) + (s.perform a).cyclesWithin acts

theorem performAll_concat (s : Sound) (acts : List Act) (a : Act) :
    s.performAll (acts ++ [a]) = (s.performAll acts).perform a := List.foldl_concat ..

/-- The last act counts if it is a cycle within its frame. -/
theorem cyclesWithin_concat (s : Sound) (acts : List Act) (a : Act) : s.cyclesWithin (acts ++ [a]) =
    s.cyclesWithin acts + if a = .process ∧ (s.performAll acts).Within then 1 else 0 := by
  induction acts generalizing s with
  | nil => exact (Nat.add_zero _).trans (Nat.zero_add _).symm
  | cons b acts ih =>
    rw [List.cons_append, cyclesWithin, cyclesWithin, ih, Nat.add_assoc]
    rfl

theorem aside_ofRegister (register : UInt16) (data : UInt8) : (Move.ofRegister register data).Aside := by
  unfold Move.ofRegister
  split
  · trivial
  · trivial
  · trivial
  · trivial

/-- The expiries at the end of a frame are moves aside. -/
theorem aside_expiring (s : Sound) : ∀ m ∈ s.expiring, m.Aside := by
  intro m hm
  rw [List.eq_of_mem_replicate hm]
  trivial

/-- A cycle within the frame begins with one of the wait. -/
theorem moves_within (h : s.Within) : ∃ n, s.moves .process = .wait :: .replicate n .expire :=
  ⟨_, if_neg (Nat.not_le.mpr h)⟩

/-- Nothing else has one. -/
theorem aside_moves {a : Act} (henable : ∀ data, a ≠ .write 0x4015 data)
    (hwait : ¬ (a = .process ∧ s.Within)) : ∀ m ∈ s.moves a, m.Aside := by
  cases a with
  | process =>
    have hlast : s.mixer.settings.cycleLength.toNat - 1 ≤ s.current + 1 :=
      Nat.le_of_not_lt fun h => hwait ⟨rfl, h⟩
    rw [moves, if_pos hlast]
    exact aside_expiring _
  | endFrame => exact s.aside_expiring
  | read addr => exact s.aside_expiring
  | write addr data =>
    intro m hm
    rcases List.mem_append.mp hm with hm | hm
    · exact s.aside_expiring m hm
    · unfold Move.ofWrite at hm
      split at hm
      · rw [List.mem_singleton.mp hm]
        exact aside_ofRegister _ _
      · split at hm
        · next haddr => exact absurd (congrArg (Act.write · data) haddr) (henable data)
        · cases hm
  | takeSamples => exact fun m hm => nomatch hm
  | setRegion region =>
    unfold moves
    dsimp only
    split
    · exact fun m hm => nomatch hm
    · exact aside_expiring _
  | serve value =>
    intro m hm
    rw [List.mem_singleton.mp hm]
    trivial

end Sound

open Sound (Act)

namespace Dmc

variable {s : Sound} {cycles : Nat} {address : UInt16}

/-- An act that is no cycle within its frame, and does not switch the channel on or off, leaves the
    sample waiting as long. -/
theorem Waiting.perform (h : s.dmc.Waiting cycles address) {a : Act}
    (henable : ∀ data, a ≠ .write 0x4015 data) (hwait : ¬ (a = .process ∧ s.Within)) :
    (s.perform a).dmc.Waiting cycles address := by
  rw [← waiting_bare, Sound.bare_perform]
  exact (waiting_bare.mpr h).after (Sound.aside_moves henable hwait)

/-- A cycle within its frame leaves it waiting one less. -/
theorem Waiting.process (h : s.dmc.Waiting (cycles + 2) address) (hin : s.Within) :
    (s.perform .process).dmc.Waiting (cycles + 1) address := by
  obtain ⟨n, hmoves⟩ := Sound.moves_within hin
  rw [← waiting_bare, Sound.bare_perform, hmoves, after_cons]
  refine Waiting.after (waiting_bare.mpr h).wait fun m hm => ?_
  rw [List.eq_of_mem_replicate hm]
  trivial

/-- The last such cycle asks for the first byte. -/
theorem Waiting.process_ask (h : s.dmc.Waiting 1 address) (hin : s.Within) :
    (s.perform .process).takeDmcRequest.1 = some address := by
  obtain ⟨n, hmoves⟩ := Sound.moves_within hin
  obtain ⟨hb, hr, ha⟩ := (waiting_bare.mpr h).ask
  have hidle := idle_expiries hb n
  have hmoved : (s.perform .process).dmc.bare = (s.dmc.bare.step .wait).after (.replicate n .expire) := by
    rw [Sound.bare_perform, hmoves, after_cons]
  rw [← hmoved] at hidle
  have hrequested : (s.perform .process).dmc.requested = true := hidle.requested.trans hr
  have haddress : (s.perform .process).dmc.address = address := hidle.address.trans ha
  show (s.perform .process).dmc.takeRequest.1 = some address
  rw [takeRequest, hrequested, if_pos rfl, haddress]

/-- A run with fewer cycles of the wait than are left leaves the channel waiting. -/
theorem Waiting.performAll (h : s.dmc.Waiting cycles address) {acts : List Act}
    (henable : ∀ data, .write 0x4015 data ∉ acts) (hlt : s.cyclesWithin acts < cycles) :
    (s.performAll acts).dmc.Waiting (cycles - s.cyclesWithin acts) address := by
  induction acts generalizing s cycles with
  | nil => exact h
  | cons a acts ih =>
    have ha : ∀ data, a ≠ .write 0x4015 data := fun data heq => henable data (heq ▸ List.mem_cons_self)
    have hacts : ∀ data, .write 0x4015 data ∉ acts := fun data hm =>
      henable data (List.mem_cons_of_mem a hm)
    show ((s.perform a).performAll acts).dmc.Waiting (cycles - s.cyclesWithin (a :: acts)) address
    rw [Sound.cyclesWithin] at hlt ⊢
    by_cases hwait : a = .process ∧ s.Within
    · rw [if_pos hwait] at hlt ⊢
      obtain ⟨rfl, hin⟩ := hwait
      obtain ⟨left, rfl⟩ : ∃ left, cycles = left + 2 := ⟨cycles - 2, by omega⟩
      have := ih (h.process hin) hacts (by omega)
      rwa [show left + 2 - (1 + (s.perform .process).cyclesWithin acts) =
        left + 1 - (s.perform .process).cyclesWithin acts by omega]
    · rw [if_neg hwait, Nat.zero_add] at hlt ⊢
      exact ih (h.perform ha hwait) hacts hlt

/-- Before that there is no request to take. -/
theorem Waiting.takeDmcRequest (h : s.dmc.Waiting cycles address) : s.takeDmcRequest.1 = none := by
  show s.dmc.takeRequest.1 = none
  rw [takeRequest, h.requested]
  rfl

/-- With the last cycle of the wait the channel asks. -/
theorem Waiting.performAll_ask (h : s.dmc.Waiting cycles address) {acts : List Act}
    (henable : ∀ data, .write 0x4015 data ∉ acts) (hlt : s.cyclesWithin acts < cycles) {a : Act}
    (hlast : cycles ≤ s.cyclesWithin (acts ++ [a])) :
    (s.performAll (acts ++ [a])).takeDmcRequest.1 = some address := by
  have hwaiting := h.performAll henable hlt
  rw [Sound.cyclesWithin_concat] at hlast
  by_cases hwait : a = .process ∧ (s.performAll acts).Within
  · rw [if_pos hwait] at hlast
    obtain ⟨rfl, hin⟩ := hwait
    rw [show cycles - s.cyclesWithin acts = 1 by omega] at hwaiting
    rw [Sound.performAll_concat]
    exact hwaiting.process_ask hin
  · rw [if_neg hwait] at hlast
    omega

end Dmc

namespace Sound

variable {s q : Sound} {data : UInt8}

/-! ## A sample is started -/

/-- Where no byte is left, a write that enables the channel starts the sample. -/
theorem Reachable.waiting (h : Reachable s) (hleft : s.dmc.bytesLeft = 0) (hbuffer : s.dmc.buffer = none)
    (hrequested : s.dmc.requested = false) (hon : data &&& 0x10 ≠ 0) :
    (s.write 0x4015 data).dmc.Waiting 2 s.dmc.sampleAddress := by
  have hmoves : Dmc.Move.ofWrite 0x4015 data = [.enable true] := by
    have hbit : (data &&& 0x10 != 0) = true := bne_iff_ne.mpr hon
    unfold Dmc.Move.ofWrite
    rw [if_neg (by decide), if_pos rfl, hbit]
  have hstart : s.dmc.bare.step (.enable true) =
      { { s.dmc.bare with irq := false }.startSample with startDelay := 2 } := if_pos hleft
  unfold Sound.write
  rw [h.settled.catchUp_eq, ← Dmc.waiting_bare, bare_writeRegister, hmoves, Dmc.after_cons, hstart]
  exact ⟨rfl, hbuffer, hrequested, h.sampleLength_pos, rfl⟩

/-- The next two cycles are those of the wait if the frame goes on after them. -/
theorem Reachable.request_after_two (h : Reachable s) {address : UInt16} (hw : s.dmc.Waiting 2 address) :
    s.process.2.process.2.takeDmcRequest.1 =
      if s.current + 2 < s.mixer.settings.cycleLength.toNat - 1 then some address else none := by
  have hsettings : s.process.2.mixer.settings = s.mixer.settings := settings_of_wiring s.wiring_process
  by_cases hin : s.Within
  · obtain ⟨hcurrent, -⟩ := process_within h.settled hin
    have hone : s.process.2.dmc.Waiting 1 address := hw.process hin
    have hnext : s.process.2.Within ↔ s.current + 2 < s.mixer.settings.cycleLength.toNat - 1 := by
      rw [Within, hcurrent, hsettings]
    by_cases hin' : s.process.2.Within
    · rw [if_pos (hnext.mp hin')]
      exact hone.process_ask hin'
    · have hwaiting : s.process.2.process.2.dmc.Waiting 1 address :=
        hone.perform (a := .process) (fun _ => nofun) fun h => hin' h.2
      rw [if_neg (mt hnext.mpr hin')]
      exact hwaiting.takeDmcRequest
  · have hless : s.cyclesWithin [.process, .process] < 2 := by
      rw [cyclesWithin, if_neg fun h => hin h.2, cyclesWithin, cyclesWithin]
      split
      · decide
      · decide
    have henable : ∀ value, .write 0x4015 value ∉ [Act.process, Act.process] := by simp
    rw [if_neg fun hlt => hin (Nat.lt_of_succ_lt hlt)]
    exact (hw.performAll henable hless).takeDmcRequest

/-- Where no byte of a sample is left and none is there or asked for, a write to `$4015` that enables the
    channel makes it ask for the first byte of the sample with the second cycle that does not end its
    audio frame, whatever is done in between, but for another such write.  So it asks with the second
    cycle from there if that and the one before lie within the frame, and else later. -/
theorem Reachable.request_after_start (h : Reachable s) (hleft : s.dmc.bytesLeft = 0)
    (hbuffer : s.dmc.buffer = none) (hrequested : s.dmc.requested = false) (hon : data &&& 0x10 ≠ 0) :
    (∀ acts, (∀ value, .write 0x4015 value ∉ acts) → (s.write 0x4015 data).cyclesWithin acts < 2 →
      ((s.write 0x4015 data).performAll acts).takeDmcRequest.1 = none ∧
      ∀ a, 2 ≤ (s.write 0x4015 data).cyclesWithin (acts ++ [a]) →
        ((s.write 0x4015 data).performAll (acts ++ [a])).takeDmcRequest.1 =
          some s.dmc.sampleAddress) ∧
    (s.write 0x4015 data).process.2.takeDmcRequest.1 = none ∧
    (s.write 0x4015 data).process.2.process.2.takeDmcRequest.1 =
      if s.current + 2 < s.mixer.settings.cycleLength.toNat - 1 then some s.dmc.sampleAddress
      else none := by
  have hw := h.waiting hleft hbuffer hrequested hon
  have hcurrent : (s.write 0x4015 data).current = s.current := by
    obtain ⟨-, hc, -⟩ : _ ∧ _ ∧ ((s.writeRegister 0x4015 data).ChannelsAt 0 ↔ s.ChannelsAt 0) :=
      s.writeRegister_spec 0x4015 data
    unfold Sound.write
    rwa [h.settled.catchUp_eq]
  have hsettings : (s.write 0x4015 data).mixer.settings = s.mixer.settings :=
    settings_of_wiring (s.wiring_write 0x4015 data)
  refine ⟨fun acts henable hlt => ⟨?_, fun a hlast => hw.performAll_ask henable hlt hlast⟩, ?_, ?_⟩
  · exact (hw.performAll henable hlt).takeDmcRequest
  · have hless : (s.write 0x4015 data).cyclesWithin [.process] < 2 := by
      rw [cyclesWithin, cyclesWithin]
      split
      · decide
      · decide
    have henable : ∀ value, .write 0x4015 value ∉ [Act.process] := by simp
    exact (hw.performAll henable hless).takeDmcRequest
  · rw [(h.write 0x4015 data).request_after_two hw, hcurrent, hsettings]

/-- Frames of 38 cycles: enabled at power-on, the channel asks with the second cycle. -/
theorem request_after_start_shortRun :
    ((shortRun 0).write 0x4015 0x10).process.2.takeDmcRequest.1 = none ∧
      ((shortRun 0).write 0x4015 0x10).process.2.process.2.takeDmcRequest.1 = some 0xC000 := by
  have hon : (0x10 : UInt8) &&& 0x10 ≠ 0 := by decide
  obtain ⟨-, hone, htwo⟩ := (Reachable.new new_shortFrames).request_after_start rfl rfl rfl hon
  rw [if_pos (by decide)] at htwo
  exact ⟨hone, htwo⟩

/-- Frames of two cycles. -/
def tinyFrames : MixerSettings := { cycleLength := 3 }

/-- The unit with such frames, at power-on. -/
def tinyStart : Sound :=
  { region := .ntsc, pulse1 := .first, pulse2 := .second, triangle := {}, noise := .new .ntsc,
    dmc := .new .ntsc, frameCounter := .new .ntsc, current := 0, previous := 0,
    mixer := .silent .ntsc tinyFrames 241564468917326 0x80000000 }

theorem new_tinyFrames : Sound.new .ntsc tinyFrames = .ok tinyStart := by
  have hm : Mixer.new .ntsc tinyFrames =
      .ok (.silent .ntsc tinyFrames 241564468917326 0x80000000) :=
    Mixer.new_eq_ok_iff.mpr ⟨by decide, by decide, by decide, 241564468917326, by decide +kernel, rfl⟩
  unfold Sound.new
  rw [hm]
  rfl

/-- The three moments of such a frame have slots, and its samples fit. -/
theorem tinyFrame_fits {m : Mixer} (h : m.resampler.gauge = tinyStart.mixer.resampler.gauge) {time : Nat}
    (ht : time ≤ 2) : (∀ cycle ≤ time, m.Reaches cycle) ∧ m.resampler.Holds (.ofNat time) := by
  have hreach : ∀ cycle < 3, tinyStart.mixer.Reaches cycle ∧
      tinyStart.mixer.resampler.Holds (.ofNat cycle) := by
    unfold Mixer.Reaches Resampler.Reaches Resampler.Holds
    decide +kernel
  refine ⟨fun cycle hc => ?_, ?_⟩
  · exact (Resampler.reaches_congr h).mpr (hreach cycle (by omega)).1
  · exact (Resampler.holds_congr h).mpr (hreach time (by omega)).2

/-- A sample that is started at power-on, where the second cycle ends the frame: no call fails, two cycles
    pass, and no byte is asked for. -/
theorem exists_late_request : ∃ s q₁ q₂, Unfailing tinyFrames s ∧ s.dmc.bytesLeft = 0 ∧
    s.dmc.buffer = none ∧ s.dmc.requested = false ∧ (s.write 0x4015 0x10).process = (.ok (), q₁) ∧
    q₁.process = (.ok (), q₂) ∧ q₁.takeDmcRequest.1 = none ∧ q₂.takeDmcRequest.1 = none := by
  have hs : Unfailing tinyFrames tinyStart := .new new_tinyFrames
  have hreach : Reachable tinyStart := .new new_tinyFrames
  have hlength : 2 ≤ tinyFrames.cycleLength.toNat := by decide
  let q := tinyStart.write 0x4015 0x10
  have hq : Unfailing tinyFrames q := hs.write 0x4015 0x10
  have htouches : Touches tinyStart q := (hs.inSync hlength).write 0x4015 0x10
  have hcurrent : q.current = 0 := htouches.current
  have hgauge : q.mixer.resampler.gauge = tinyStart.mixer.resampler.gauge := by
    rw [htouches.mixer]
    rfl
  have hw : q.dmc.Waiting 2 0xC000 := hreach.waiting rfl rfl rfl (by decide)
  -- the first cycle goes on within the frame
  have hfirst : q.process = (.ok (), q.process.2) := by
    obtain ⟨hmoments, hholds⟩ := tinyFrame_fits hgauge (show q.current + 1 ≤ 2 by omega)
    exact (hq.inSync hlength).process_ok hmoments hholds
  have hin : q.Within := by
    rw [Within, hq.settings_eq, hcurrent]
    decide
  have hone : q.process.2.dmc.Waiting 1 0xC000 := hw.process hin
  obtain ⟨hcurrent', pending, hnotes⟩ := process_within (hreach.write 0x4015 0x10).settled hin
  -- and the second ends it
  have hq' := hq.process hfirst
  have hsecond : q.process.2.process = (.ok (), q.process.2.process.2) := by
    have hgauge' : q.process.2.mixer.resampler.gauge = tinyStart.mixer.resampler.gauge := by
      rw [hnotes]
      exact hgauge
    have hle : q.process.2.current + 1 ≤ 2 := by
      rw [hcurrent', hcurrent]
    obtain ⟨hmoments, hholds⟩ := tinyFrame_fits hgauge' hle
    exact (hq'.inSync hlength).process_ok hmoments hholds
  have hout : ¬ q.process.2.Within := by
    rw [Within, hq'.settings_eq, hcurrent', hcurrent]
    decide
  have hstill : q.process.2.process.2.dmc.Waiting 1 0xC000 :=
    hone.perform (a := .process) (fun _ => nofun) fun h => hout h.2
  exact ⟨tinyStart, _, _, hs, rfl, rfl, rfl, hfirst, hsecond, hone.takeDmcRequest, hstill.takeDmcRequest⟩

end Sound

end Famicom
