/-
  The delta modulation channel in a run of the sound unit, told by what happens to it.

  Which bytes the channel asks for and plays does not depend on how long its timer takes, on the region
  the timer's periods are of, or on what the mixer has been told.  Without these three the channel is
  `bare`, and all that can happen to it is a `Move`.

  1. **A timer** on its way to a cycle expires so many times (`Timer.expiries`), and a channel that is run
     has expired so many times (`bare_run`).
  2. **The unit** (`Sound.Act`): what can be done to it between two resets, where a byte that is asked
     for is answered at once.  Each act is a list of moves (`Sound.moves`): those of the register written,
     and one expiry for each of the timer while the unit catches up.
  3. **A run** of the unit is a run of the bare channel over the moves of its acts.

  Main statement: after a run from power-on or from a reset the channel is what its moves make of the
  channel at power-on (`Sound.Begun.bare_run`).  The acts may fail or not.
-/
import Famicom.Proofs.Sound.CatchUp

namespace Famicom

/-- How often a timer expires on the way to a cycle. -/
def Timer.expiries (t : Timer) (target : Nat) : Nat := (t.drive (fun _ n => n + 1) target 0).2

namespace Dmc

/-! ## Moves -/

/-- The channel without its pace and its voice. -/
def bare (d : Dmc) : Dmc := { d with region := .ntsc, timer := {}, voice := { channel := .dmc } }

/-- The channel at power-on, without pace and voice. -/
def powerOn : Dmc := (new .ntsc).bare

/-- The timer has expired: one bit, and after eight of them the next byte. -/
def expired (d : Dmc) : Dmc :=
  if d.playBit.bitsLeft = 1 then { d.playBit with bitsLeft := 8 }.nextByte
  else { d.playBit with bitsLeft := d.playBit.bitsLeft - 1 }

/-- A request is taken and answered with one byte; where there is none, nothing is done. -/
def serve (d : Dmc) (value : UInt8) : Dmc :=
  match d.takeRequest with
  | (none, d) => d
  | (some _, d) => d.fill value

/-- What can happen to the channel. -/
inductive Move where
  /-- The timer expires. -/
  | expire
  /-- The four registers are written. -/
  | control (data : UInt8)
  | level (data : UInt8)
  | address (data : UInt8)
  | length (data : UInt8)
  /-- The channel is enabled or disabled, which acknowledges its interrupt. -/
  | enable (on : Bool)
  /-- A cycle of the wait after the start of a sample. -/
  | wait
  /-- The byte asked for, if one is, is fetched and handed in. -/
  | serve (value : UInt8)
  deriving DecidableEq, Repr

/-- What a move makes of the channel.  The pace that is written with the flags is left out. -/
def step (d : Dmc) : Move → Dmc
  | .expire => d.expired
  | .control data => { d.writeControl data with timer := d.timer }
  | .level data => { d with level := data &&& 0x7F }
  | .address data => d.writeAddress data
  | .length data => d.writeLength data
  | .enable on => { d with irq := false }.setEnabled on
  | .wait => d.tickStartDelay
  | .serve value => d.serve value

/-- What moves make of the channel, one after the other. -/
def after (d : Dmc) (moves : List Move) : Dmc := moves.foldl step d

/-- The move of writing one of the four registers. -/
def Move.ofRegister (register : UInt16) (data : UInt8) : Move :=
  match register with
  | 0 => .control data
  | 1 => .level data
  | 2 => .address data
  | _ => .length data

/-- The moves of writing a register of the unit. -/
def Move.ofWrite (addr : UInt16) (data : UInt8) : List Move :=
  if addr >>> (2 : UInt16) = 0x1004 then [.ofRegister (addr &&& 0x03) data]
  else if addr = 0x4015 then [.enable (data &&& 0x10 != 0)]
  else []

@[simp] theorem after_cons (d : Dmc) (m : Move) (moves : List Move) :
    d.after (m :: moves) = (d.step m).after moves := rfl

/-- Moves are made one after the other. -/
theorem after_append (d : Dmc) (ms ns : List Move) : d.after (ms ++ ns) = (d.after ms).after ns :=
  List.foldl_append

/-- The last of the moves comes after the others. -/
theorem after_concat (d : Dmc) (ms : List Move) (m : Move) :
    d.after (ms ++ [m]) = (d.after ms).step m := after_append d ms [m]

theorem after_replicate (d : Dmc) (n : Nat) (m : Move) :
    d.after (.replicate (n + 1) m) = (d.after (.replicate n m)).step m := by
  rw [List.replicate_succ', after_concat]

/-- The channel has taken a byte of the sample that it asked for. -/
def taking (d : Dmc) (value : UInt8) : Dmc :=
  { d with requested := false, buffer := some value, address := nextAddress d.address,
           bytesLeft := d.bytesLeft - 1 }

/-- A request that is answered: the byte is dropped if none are left, and else it may be the last. -/
theorem serve_eq (d : Dmc) (value : UInt8) : d.serve value =
    if d.requested = false then d
    else if d.bytesLeft = 0 then { d with requested := false }
    else if d.bytesLeft = 1 then (d.taking value).endSample
    else d.taking value := by
  unfold serve takeRequest
  cases d.requested with
  | false => rfl
  | true =>
    show fill _ value = _
    rw [if_neg (by decide)]
    unfold fill
    split
    · rfl
    · next hleft =>
      replace hleft : d.bytesLeft ≠ 0 := hleft
      have hlast : d.bytesLeft - 1 = 0 ↔ d.bytesLeft = 1 := by omega
      exact ite_congr (propext hlast) (fun _ => rfl) fun _ => rfl

/-! ## Pace and voice have no part in a move -/

variable {d e : Dmc}

theorem bare_playBit (d : Dmc) : d.playBit.bare = d.bare.playBit := apply_ite bare _ _ _

theorem bare_askForByte (d : Dmc) : d.askForByte.bare = d.bare.askForByte := apply_ite bare _ _ _

theorem bare_endSample (d : Dmc) : d.endSample.bare = d.bare.endSample := by
  refine (apply_ite bare _ _ _).trans ?_
  rw [apply_ite bare]
  rfl

theorem bare_nextByte (d : Dmc) : d.nextByte.bare = d.bare.nextByte := by
  unfold nextByte
  rw [show d.bare.buffer = d.buffer from rfl]
  cases d.buffer with
  | none => rfl
  | some byte => exact bare_askForByte _

theorem bare_tickStartDelay (d : Dmc) : d.tickStartDelay.bare = d.bare.tickStartDelay := by
  unfold tickStartDelay
  rw [show d.bare.startDelay = d.startDelay from rfl]
  rcases d.startDelay with _ | _ | n
  · rfl
  · exact bare_askForByte _
  · rfl

theorem bare_setEnabled (d : Dmc) (on : Bool) : (d.setEnabled on).bare = d.bare.setEnabled on := by
  refine (apply_ite bare _ _ _).trans ?_
  rw [apply_ite bare]
  rfl

theorem bare_fill (d : Dmc) (value : UInt8) : (d.fill value).bare = d.bare.fill value := by
  refine (apply_ite bare _ _ _).trans ?_
  rw [apply_ite bare, bare_endSample]
  rfl

/-- What an expiry does to the stream does not depend on the rest of the channel. -/
theorem bare_expired (d : Dmc) : d.expired.bare = d.bare.expired := by
  unfold expired
  rw [← bare_playBit, apply_ite bare, bare_nextByte]
  rfl

/-- Nor does a byte that is served. -/
theorem bare_serve (d : Dmc) (value : UInt8) : (d.serve value).bare = d.bare.serve value := by
  unfold serve takeRequest
  rw [show d.bare.requested = d.requested from rfl]
  cases d.requested with
  | false => rfl
  | true => exact bare_fill _ value

/-! ## What the unit does to the channel -/

/-- An expiry in the channel is the move of that name. -/
theorem bare_expire (cycle : Nat) (s : Dmc × Mixer) : (expire cycle s).1.bare = s.1.bare.expired :=
  bare_expired s.1

/-- A channel that is run has expired as often as its timer has. -/
theorem bare_run (d : Dmc) (target : Nat) (m : Mixer) :
    (d.run target m).1.bare = d.bare.after (.replicate (d.timer.expiries target) .expire) := by
  refine (Timer.drive_rel (R := fun (s : Dmc × Mixer) n => s.1.bare = d.bare.after (.replicate n .expire))
    ?_ target d.timer rfl).2
  intro cycle s n h
  rw [bare_expire, h, after_replicate]
  rfl

/-- A register that is written is the move that belongs to it. -/
theorem bare_write (d : Dmc) (register : UInt16) (data : UInt8) (m : Mixer) :
    (d.write register data m).1.bare = d.bare.step (.ofRegister register data) := by
  unfold write
  split
  · rfl
  · rfl
  · rfl
  · next h₀ h₁ h₂ =>
    unfold Move.ofRegister
    split
    · exact (h₀ rfl).elim
    · exact (h₁ rfl).elim
    · exact (h₂ rfl).elim
    · rfl

end Dmc

namespace Sound

open Dmc (Move)

/-- What can be done to the unit between two resets, where each request of the delta modulation channel
    is answered at once, and nothing is handed to it else. -/
inductive Act where
  | process
  | endFrame
  | read (addr : UInt16)
  | write (addr : UInt16) (data : UInt8)
  | takeSamples
  | setRegion (region : Region)
  | serve (value : UInt8)
  deriving DecidableEq, Repr

/-- Takes the request of the delta modulation channel, if there is one, and answers it. -/
def serve (s : Sound) (value : UInt8) : Sound :=
  match s.takeDmcRequest with
  | (none, s) => s
  | (some _, s) => s.fillDmc value

/-- What an act makes of the unit, whether it fails or not. -/
def perform (s : Sound) : Act → Sound
  | .process => s.process.2
  | .endFrame => s.endFrame.2
  | .read addr => (s.read addr).2
  | .write addr data => s.write addr data
  | .takeSamples => s.takeSamples.2
  | .setRegion region => (s.setRegion region).2
  | .serve value => s.serve value

/-- What acts make of the unit, one after the other. -/
def performAll (s : Sound) (acts : List Act) : Sound := acts.foldl perform s

/-- A run of the frame counter, with the expiries of the channel's timer so far. -/
def advanceCounting (taken : Nat) (event : Option FrameEvent) (q : Sound × Nat) : Sound × Nat :=
  (advance taken event q.1, q.2 + q.1.dmc.timer.expiries (q.1.previous + taken))

/-- How often the timer of the delta modulation channel expires while the unit catches up. -/
def expiries (s : Sound) : Nat :=
  (s.frameCounter.drive advanceCounting (s.current - s.previous) (s, 0)).2.2

/-- The expiries while the unit catches up, as moves. -/
def expiring (s : Sound) : List Move := .replicate s.expiries .expire

/-- The moves of the delta modulation channel in an act. -/
def moves (s : Sound) : Act → List Move
  | .process =>
    if s.mixer.settings.cycleLength.toNat - 1 ≤ s.current + 1 then
      { s with current := s.current + 1 }.expiring
    else .wait :: { s with current := s.current + 1, dmc := s.dmc.tickStartDelay }.expiring
  | .endFrame => s.expiring
  | .read _ => s.expiring
  | .write addr data => s.expiring ++ Move.ofWrite addr data
  | .takeSamples => []
  | .setRegion region =>
    match s.mixer.setRegion region with
    | (.error _, _) => []
    | (.ok _, mixer) =>
      { s with region, mixer, dmc := s.dmc.setRegion region, noise := s.noise.setRegion region }.expiring
  | .serve value => [.serve value]

/-- The moves of the channel in a run of the unit. -/
def history (s : Sound) : List Act → List Move
  | [] => []
  | a :: acts => s.moves a ++ (s.perform a).history acts

theorem bare_clock (event : Option FrameEvent) (s : Sound) : (s.clock event).dmc = s.dmc := by
  rcases event with _ | _ | _
  · rfl
  · rfl
  · rfl

/-- One run of the frame counter is the expiries within it. -/
theorem bare_advance (taken : Nat) (event : Option FrameEvent) (s : Sound) :
    (advance taken event s).dmc.bare =
      s.dmc.bare.after (.replicate (s.dmc.timer.expiries (s.previous + taken)) .expire) := by
  have hd := bare_clock event { s with previous := s.previous + taken }
  obtain ⟨hp, -, -⟩ := clock_spec event { s with previous := s.previous + taken }
  refine (Dmc.bare_run _ _ _).trans ?_
  show Dmc.after (Dmc.bare (clock _ event).dmc) (.replicate (Timer.expiries (clock _ event).dmc.timer
    (clock _ event).previous) _) = _
  rw [hd, hp]

/-- While the unit catches up, the channel does nothing but expire. -/
theorem bare_catchUp (s : Sound) : s.catchUp.dmc.bare = s.dmc.bare.after s.expiring := by
  have hstep (taken : Nat) (event : Option FrameEvent) (q : Sound) (r : Sound × Nat)
      (h : r.1 = q ∧ q.dmc.bare = s.dmc.bare.after (.replicate r.2 .expire)) :
      (advanceCounting taken event r).1 = advance taken event q ∧
        (advance taken event q).dmc.bare =
          s.dmc.bare.after (.replicate (advanceCounting taken event r).2 .expire) := by
    obtain ⟨_, n⟩ := r
    obtain ⟨rfl, hq⟩ := h
    refine ⟨rfl, ?_⟩
    rw [bare_advance, hq, ← Dmc.after_append, List.replicate_append_replicate]
    rfl
  obtain ⟨-, -, h⟩ := FrameCounter.drive_rel hstep (s.current - s.previous) s.frameCounter
    (s := s) (u := (s, 0)) ⟨rfl, rfl⟩
  exact h

/-- The end of a frame is the expiries up to it. -/
theorem bare_endFrame (s : Sound) : s.endFrame.2.dmc.bare = s.dmc.bare.after s.expiring := by
  rw [← bare_catchUp]
  unfold endFrame
  dsimp only
  split
  · rfl
  · rfl

/-- A cycle is the moves listed for it. -/
theorem bare_process (s : Sound) : s.process.2.dmc.bare = s.dmc.bare.after (s.moves .process) := by
  unfold process moves
  dsimp only
  split
  · exact bare_endFrame { s with current := s.current + 1 }
  · refine (bare_catchUp { s with current := s.current + 1, dmc := s.dmc.tickStartDelay }).trans ?_
    rw [Dmc.after_cons]
    exact congrArg (Dmc.after · _) (Dmc.bare_tickStartDelay s.dmc)

theorem bare_read (s : Sound) (addr : UInt16) : (s.read addr).2.dmc.bare = s.dmc.bare.after s.expiring := by
  rw [← bare_catchUp]
  unfold read
  dsimp only
  split
  · rfl
  · rfl

/-- No other channel's register is one of this one's, nor the one that enables the channels. -/
theorem ofWrite_other {addr : UInt16} {data : UInt8} (h : addr >>> (2 : UInt16) ≠ 0x1004)
    (h' : addr ≠ 0x4015) : Move.ofWrite addr data = [] := by
  unfold Move.ofWrite
  rw [if_neg h, if_neg h']

/-- A register of the unit is the moves it stands for. -/
theorem bare_writeRegister (s : Sound) (addr : UInt16) (data : UInt8) :
    (s.writeRegister addr data).dmc.bare = s.dmc.bare.after (Move.ofWrite addr data) := by
  have hother {n : UInt16} (h : addr >>> (2 : UInt16) = n) (hn : n ≠ 0x1004) (hn' : n ≠ 0x1005) :
      Move.ofWrite addr data = [] := by
    refine ofWrite_other (h ▸ hn) ?_
    rintro rfl
    exact hn' h.symm
  unfold writeRegister
  dsimp only
  split
  · next h => rw [hother h (by decide) (by decide)]; rfl
  · next h => rw [hother h (by decide) (by decide)]; rfl
  · next h => rw [hother h (by decide) (by decide)]; rfl
  · next h => rw [hother h (by decide) (by decide)]; rfl
  · next h =>
    unfold Move.ofWrite
    rw [if_pos h]
    exact Dmc.bare_write s.dmc _ data s.mixer
  · next h =>
    split
    · next he =>
      subst he
      exact Dmc.bare_setEnabled _ _
    · next he =>
      rw [ofWrite_other h he]
      split
      · rfl
      · rfl

/-- Switching the region is a change of the period between moves. -/
theorem bare_setRegion (s : Sound) (region : Region) :
    (s.setRegion region).2.dmc.bare = s.dmc.bare.after (s.moves (.setRegion region)) := by
  unfold setRegion moves
  dsimp only
  rcases s.mixer.setRegion region with ⟨_ | _, mixer⟩
  · rfl
  · exact bare_catchUp { s with
      region, mixer, dmc := s.dmc.setRegion region, noise := s.noise.setRegion region }

theorem bare_serve (s : Sound) (value : UInt8) :
    (s.serve value).dmc = s.dmc.serve value := by
  unfold serve Dmc.serve takeDmcRequest
  dsimp only
  rcases s.dmc.takeRequest with ⟨_ | addr, d⟩
  · rfl
  · rfl

/-- An act does to the channel what its moves do. -/
theorem bare_perform (s : Sound) (a : Act) : (s.perform a).dmc.bare = s.dmc.bare.after (s.moves a) := by
  cases a with
  | process => exact bare_process s
  | endFrame => exact bare_endFrame s
  | read addr => exact bare_read s addr
  | write addr data =>
    refine (bare_writeRegister s.catchUp addr data).trans ?_
    rw [bare_catchUp, ← Dmc.after_append]
    rfl
  | takeSamples => rfl
  | setRegion region => exact bare_setRegion s region
  | serve value =>
    refine (congrArg Dmc.bare (bare_serve s value)).trans ?_
    exact Dmc.bare_serve s.dmc value

/-- Acts on the unit are the moves of their history. -/
theorem bare_performAll (s : Sound) (acts : List Act) :
    (s.performAll acts).dmc.bare = s.dmc.bare.after (s.history acts) := by
  induction acts generalizing s with
  | nil => rfl
  | cons a acts ih =>
    refine (ih (s.perform a)).trans ?_
    rw [bare_perform, ← Dmc.after_append]
    rfl

/-- The unit has just been built or reset. -/
inductive Begun : Sound → Prop where
  | new {region : Region} {settings : MixerSettings} {s : Sound} :
      Sound.new region settings = .ok s → Begun s
  | reset (s : Sound) : Begun s.reset.2

/-- A unit that begins has its channel as at power-on. -/
theorem Begun.bare_eq {s : Sound} (h : Begun s) : s.dmc.bare = .powerOn := by
  cases h with
  | @new region settings _ hs =>
    unfold Sound.new at hs
    cases hm : Mixer.new region settings with
    | error e =>
      rw [hm] at hs
      cases hs
    | ok m =>
      rw [hm] at hs
      cases hs
      rfl
  | reset s => rfl

/-- After a run from power-on or from a reset, the channel is what the moves of the run make of the
    channel at power-on. -/
theorem Begun.bare_run {s : Sound} (h : Begun s) (acts : List Act) :
    (s.performAll acts).dmc.bare = Dmc.powerOn.after (s.history acts) := by
  rw [bare_performAll, h.bare_eq]

end Sound

end Famicom
