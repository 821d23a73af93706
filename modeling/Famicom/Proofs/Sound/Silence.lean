/-
  Channels that are switched off.

  A load of a length counter is put by, and takes effect in the next run of the frame counter unless the
  counter has moved since.  A channel that is disabled takes no loads, and its counter is cleared; but a
  load that was put by before is not dropped.  If it was put by while the counter was zero, clearing the
  counter is no move.

  1. **A length counter** (`LengthCounter.leftOver`): the value that is loaded all the same once the
     counter is disabled.  Of a disabled counter it is a bound (`lasting_muted`).
  2. **The unit**: what lasts whatever is done to a length counter lasts whatever is done to the unit, until
     the channel is enabled (`LengthCounter.Lasting.performAll`).
  3. **One cycle** of a unit that stays in one region is one run of its frame counter
     (`InRegion.length_process`), so a load takes effect with the next cycle and no later.

  Main statement: a disabled channel is silent, and stays so, iff nothing was left over
  (`InRegion.silenced`).
-/
import Famicom.Proofs.Sound.DmcMoves
import Famicom.Proofs.Sound.FrameCycle
import Famicom.Proofs.Sound.FrameEnd

namespace Famicom

/-! ## Length counters -/

namespace LengthCounter

variable {l : LengthCounter} {bound : UInt8}

/-- What is loaded next if the counter is cleared now: a value that was written while it was zero. -/
def leftOver (l : LengthCounter) : UInt8 := if l.seen = 0 then l.waiting else 0

/-- A property that a counter keeps, whatever is done to it but to enable it. -/
structure Lasting (P : LengthCounter → Prop) : Prop where
  clock {l : LengthCounter} : P l → P l.clock
  reload {l : LengthCounter} : P l → P l.reload
  setHalt {l : LengthCounter} (halt : Bool) : P l → P (l.setHalt halt)
  load {l : LengthCounter} (index : UInt8) : P l → P (l.load index)
  disable {l : LengthCounter} : P l → P (l.setEnabled false)

/-- The counter is disabled, and neither it nor what may yet be loaded exceeds the bound. -/
structure Muted (bound : UInt8) (l : LengthCounter) : Prop where
  disabled : l.enabled = false
  counter_le : l.counter ≤ bound
  waiting_le : l.waiting ≤ bound ∨ l.counter = 0 ∧ l.seen ≠ 0

/-- A muted counter stays muted when it counts down. -/
theorem Muted.clock (h : Muted bound l) : Muted bound l.clock := by
  unfold LengthCounter.clock
  split
  · next hcounts =>
    obtain ⟨hpos, -⟩ := hcounts
    have hone : (1 : UInt8) ≤ l.counter := UInt8.le_iff_toNat_le.mpr (UInt8.lt_iff_toNat_lt.mp hpos)
    have hle : l.counter - 1 ≤ l.counter := by
      rw [UInt8.le_iff_toNat_le, UInt8.toNat_sub_of_le _ _ hone]
      exact Nat.sub_le _ _
    refine ⟨h.disabled, UInt8.le_trans hle h.counter_le, .inl (h.waiting_le.resolve_right ?_)⟩
    rintro ⟨h0, -⟩
    rw [h0] at hpos
    exact absurd hpos (by decide)
  · exact h

/-- And when it is reloaded. -/
theorem Muted.reload (h : Muted bound l) : Muted bound l.reload := by
  refine ⟨h.disabled, ?_, .inl (UInt8.zero_le)⟩
  show (if 0 < l.waiting ∧ l.counter = l.seen then l.waiting else l.counter) ≤ bound
  split
  · next hload =>
    refine h.waiting_le.resolve_right ?_
    rintro ⟨h0, hseen⟩
    exact hseen (hload.2.symm.trans h0)
  · exact h.counter_le

/-- Neither clocks nor loads get a disabled counter above the bound. -/
theorem lasting_muted (bound : UInt8) : Lasting (Muted bound) where
  clock h := h.clock
  reload h := h.reload
  setHalt _ h := ⟨h.disabled, h.counter_le, h.waiting_le⟩
  load index h := by
    unfold LengthCounter.load
    rw [h.disabled]
    exact h
  disable h := ⟨rfl, UInt8.zero_le, h.waiting_le.imp_right fun ⟨_, hseen⟩ => ⟨rfl, hseen⟩⟩

/-- What was left over is a bound. -/
theorem muted_disable (l : LengthCounter) : Muted l.leftOver (l.setEnabled false) := by
  refine ⟨rfl, UInt8.zero_le, ?_⟩
  by_cases hseen : l.seen = 0
  · exact .inl (UInt8.le_of_eq (if_pos hseen).symm)
  · exact .inr ⟨rfl, hseen⟩

/-- What a run of the frame counter does to a length counter: a half frame clocks it, and then what was
    written takes effect. -/
def advance (event : Option FrameEvent) (l : LengthCounter) : LengthCounter :=
  (if event = some .half then l.clock else l).reload

/-- With the next run, what was left over is loaded. -/
theorem counter_advance_disable (event : Option FrameEvent) (l : LengthCounter) :
    ((l.setEnabled false).advance event).counter = l.leftOver := by
  have hclock : (l.setEnabled false).clock = l.setEnabled false := if_neg fun h => UInt8.lt_irrefl 0 h.1
  unfold advance
  rw [hclock, ite_self]
  show (if 0 < l.waiting ∧ 0 = l.seen then l.waiting else 0) = if l.seen = 0 then l.waiting else 0
  by_cases hseen : l.seen = 0
  · rw [if_pos hseen]
    by_cases hpos : 0 < l.waiting
    · exact if_pos ⟨hpos, hseen.symm⟩
    · have h0 : l.waiting = 0 := UInt8.le_antisymm (UInt8.not_lt.mp hpos) UInt8.zero_le
      rw [h0, ite_self]
  · rw [if_neg hseen]
    exact if_neg fun h => hseen h.2.symm

/-- After it, nothing is. -/
theorem leftOver_advance (event : Option FrameEvent) (l : LengthCounter) :
    (l.advance event).leftOver = 0 := ite_self 0

end LengthCounter

/-! ## Channels -/

open LengthCounter (Lasting)

variable {P : LengthCounter → Prop}

/-- An envelope that is clocked leaves its length counter alone. -/
theorem Envelope.length_clock (e : Envelope) : e.clock.length = e.length := by
  unfold Envelope.clock
  split
  · rfl
  · split
    · rfl
    · rfl

/-- A pulse channel that runs leaves its envelope alone. -/
theorem Pulse.envelope_run (p : Pulse) (target : Nat) (m : Mixer) :
    (p.run target m).1.envelope = p.envelope := by
  refine Timer.drive_inv (P := fun s : Pulse × Mixer => s.1.envelope = p.envelope) ?_ target p.timer rfl
  intro cycle s h
  exact h

/-- So does its sweep. -/
theorem Pulse.envelope_clockSweep (p : Pulse) : p.clockSweep.envelope = p.envelope := by
  unfold Pulse.clockSweep
  split
  · rfl
  · rfl

/-- The noise channel that runs leaves its envelope alone. -/
theorem Noise.envelope_run (n : Noise) (target : Nat) (m : Mixer) :
    (n.run target m).1.envelope = n.envelope := by
  refine Timer.drive_inv (P := fun s : Noise × Mixer => s.1.envelope = n.envelope) ?_ target n.timer rfl
  intro cycle s h
  exact h

/-- The triangle channel that runs leaves its length counter alone. -/
theorem Triangle.length_run (t : Triangle) (target : Nat) (m : Mixer) :
    (t.run target m).1.length = t.length := by
  refine Timer.drive_inv (P := fun s : Triangle × Mixer => s.1.length = t.length) ?_ target t.timer rfl
  rintro cycle ⟨q, m⟩ h
  unfold expire
  dsimp only
  split
  · split
    · exact h
    · exact h
  · exact h

namespace LengthCounter.Lasting

/-- What lasts under the writes to a length counter lasts under any write to a pulse channel. -/
theorem pulse_write (hP : Lasting P) {p : Pulse} (h : P p.envelope.length) (register : UInt16)
    (data : UInt8) (m : Mixer) : P (p.write register data m).1.envelope.length := by
  unfold Pulse.write
  split
  · exact hP.setHalt _ h
  · exact h
  · exact h
  · exact hP.load _ h

theorem noise_write (hP : Lasting P) {n : Noise} (h : P n.envelope.length) (register : UInt16)
    (data : UInt8) (m : Mixer) : P (n.write register data m).1.envelope.length := by
  unfold Noise.write
  split
  · exact hP.setHalt _ h
  · exact h
  · exact h
  · exact hP.load _ h

theorem triangle_write (hP : Lasting P) {t : Triangle} (h : P t.length) (register : UInt16)
    (data : UInt8) (m : Mixer) : P (t.write register data m).1.length := by
  unfold Triangle.write
  split
  · exact hP.setHalt _ h
  · exact h
  · exact h
  · exact hP.load _ h

end LengthCounter.Lasting

namespace Sound

/-- The channels that have a length counter. -/
inductive Gated where
  | pulse1 | pulse2 | triangle | noise

/-- The length counter of a channel. -/
def Gated.length (s : Sound) : Gated → LengthCounter
  | pulse1 => s.pulse1.envelope.length
  | pulse2 => s.pulse2.envelope.length
  | triangle => s.triangle.length
  | noise => s.noise.envelope.length

/-- The channel's bit where channels are enabled, and in the status. -/
def Gated.mask : Gated → UInt8
  | pulse1 => 0x01
  | pulse2 => 0x02
  | triangle => 0x04
  | noise => 0x08

/-- The act enables the channel. -/
def Gated.Enables (g : Gated) : Act → Prop
  | .write addr data => addr = 0x4015 ∧ data &&& g.mask ≠ 0
  | _ => False

variable {s : Sound} {g : Gated} {region : Region} {data : UInt8}

/-! ## The unit -/

/-- Half frames count the length counters down, and nothing else that the frame counter announces does.
    -/
theorem length_clock (event : Option FrameEvent) (s : Sound) (g : Gated) :
    g.length (s.clock event) = if event = some .half then (g.length s).clock else g.length s := by
  rcases event with _ | _ | _
  · rfl
  · cases g with
    | pulse1 => exact Envelope.length_clock _
    | pulse2 => exact Envelope.length_clock _
    | triangle => rfl
    | noise => exact Envelope.length_clock _
  · rw [if_pos rfl]
    cases g with
    | pulse1 =>
      refine (congrArg Envelope.length (Pulse.envelope_clockSweep _)).trans ?_
      exact congrArg LengthCounter.clock (Envelope.length_clock _)
    | pulse2 =>
      refine (congrArg Envelope.length (Pulse.envelope_clockSweep _)).trans ?_
      exact congrArg LengthCounter.clock (Envelope.length_clock _)
    | triangle => rfl
    | noise => exact congrArg LengthCounter.clock (Envelope.length_clock _)

/-- Running the channels leaves all length counters alone. -/
theorem length_runChannels (s : Sound) (g : Gated) : g.length s.runChannels = g.length s := by
  cases g with
  | pulse1 => exact congrArg Envelope.length (Pulse.envelope_run _ _ _)
  | pulse2 => exact congrArg Envelope.length (Pulse.envelope_run _ _ _)
  | triangle => exact Triangle.length_run _ _ _
  | noise => exact congrArg Envelope.length (Noise.envelope_run _ _ _)

/-- A run of the frame counter does the same to each length counter. -/
theorem length_advance (taken : Nat) (event : Option FrameEvent) (s : Sound) (g : Gated) :
    g.length (advance taken event s) = (g.length s).advance event := by
  have hreload (q : Sound) : g.length q.reloadLengths = (g.length q).reload := by cases g <;> rfl
  have hplace : g.length { s with previous := s.previous + taken } = g.length s := by cases g <;> rfl
  unfold advance
  rw [length_runChannels, hreload, length_clock, hplace]
  rfl

/-- Where the frame counter stands, and what the mixer has been told, has no part in the lengths. -/
theorem length_congr (g : Gated) {q : Sound} (h₁ : q.pulse1.envelope = s.pulse1.envelope)
    (h₂ : q.pulse2.envelope = s.pulse2.envelope) (h₃ : q.triangle.length = s.triangle.length)
    (h₄ : q.noise.envelope = s.noise.envelope) : g.length q = g.length s := by
  cases g with
  | pulse1 => exact congrArg Envelope.length h₁
  | pulse2 => exact congrArg Envelope.length h₂
  | triangle => exact h₃
  | noise => exact congrArg Envelope.length h₄

/-- A property of a length counter depends on its channel only. -/
theorem of_length_congr {q : Sound} (h : P (g.length s)) (h₁ : q.pulse1.envelope = s.pulse1.envelope)
    (h₂ : q.pulse2.envelope = s.pulse2.envelope) (h₃ : q.triangle.length = s.triangle.length)
    (h₄ : q.noise.envelope = s.noise.envelope) : P (g.length q) := by
  rw [length_congr g h₁ h₂ h₃ h₄]
  exact h

/-- Of the end of a frame the length counters notice only the catching up. -/
theorem length_endFrame (s : Sound) (g : Gated) : g.length s.endFrame.2 = g.length s.catchUp := by
  unfold endFrame
  dsimp only
  split
  · exact length_congr g rfl rfl rfl rfl
  · exact length_congr g rfl rfl rfl rfl

/-- So they do of a read. -/
theorem length_read (s : Sound) (addr : UInt16) (g : Gated) :
    g.length (s.read addr).2 = g.length s.catchUp := by
  unfold read
  dsimp only
  split
  · exact length_congr g rfl rfl rfl rfl
  · rfl

/-- The enable register sets each channel by its own bit. -/
theorem length_writeEnable (s : Sound) (data : UInt8) (g : Gated) :
    g.length (s.writeEnable data) = (g.length s).setEnabled (data &&& g.mask != 0) := by
  cases g <;> rfl

theorem length_serve (s : Sound) (value : UInt8) (g : Gated) : g.length (s.serve value) = g.length s := by
  unfold serve takeDmcRequest
  dsimp only
  rcases s.dmc.takeRequest with ⟨_ | addr, d⟩
  · exact length_congr g rfl rfl rfl rfl
  · exact length_congr g rfl rfl rfl rfl

end Sound

/-! ## What lasts

  A property of a length counter that clocks, reloads and all writes but the enabling one keep.  It is
  carried through the unit once, and both halves of the result are cases of it. -/

namespace LengthCounter.Lasting

open Sound (Gated Act)

variable {s : Sound} {g : Gated}

/-- What lasts, lasts while the unit catches up. -/
theorem catchUp (hP : Lasting P) (h : P (g.length s)) : P (g.length s.catchUp) := by
  have hstep (taken : Nat) (event : Option FrameEvent) (q : Sound) (h : P (g.length q)) :
      P (g.length (Sound.advance taken event q)) := by
    rw [Sound.length_advance]
    unfold LengthCounter.advance
    split
    · exact hP.reload (hP.clock h)
    · exact hP.reload h
  have hend := FrameCounter.drive_inv (P := fun _ q => P (g.length q))
    (fun _ taken event q _ h => hstep taken event q h) (s.current - s.previous) s.frameCounter h
  exact Sound.of_length_congr hend rfl rfl rfl rfl

theorem endFrame (hP : Lasting P) (h : P (g.length s)) : P (g.length s.endFrame.2) := by
  rw [Sound.length_endFrame]
  exact hP.catchUp h

/-- It lasts through a cycle. -/
theorem process (hP : Lasting P) (h : P (g.length s)) : P (g.length s.process.2) := by
  rcases s.process_eq with he | he
  · rw [he]
    exact hP.endFrame (Sound.of_length_congr h rfl rfl rfl rfl)
  · rw [he]
    exact hP.catchUp (Sound.of_length_congr h rfl rfl rfl rfl)

/-- It lasts through a written register that does not enable the channel. -/
theorem writeRegister (hP : Lasting P) (h : P (g.length s)) {addr : UInt16} {data : UInt8}
    (hno : ¬ g.Enables (.write addr data)) : P (g.length (s.writeRegister addr data)) := by
  unfold Sound.writeRegister
  dsimp only
  split
  · cases g with
    | pulse1 => exact hP.pulse_write h _ _ _
    | _ => exact h
  · cases g with
    | pulse2 => exact hP.pulse_write h _ _ _
    | _ => exact h
  · cases g with
    | triangle => exact hP.triangle_write h _ _ _
    | _ => exact h
  · cases g with
    | noise => exact hP.noise_write h _ _ _
    | _ => exact h
  · exact Sound.of_length_congr h rfl rfl rfl rfl
  · split
    · next haddr =>
      have hoff : data &&& g.mask = 0 := Classical.not_not.mp fun hon => hno ⟨haddr, hon⟩
      rw [Sound.length_writeEnable, hoff]
      exact hP.disable h
    · split
      · exact Sound.of_length_congr h rfl rfl rfl rfl
      · exact h

theorem setRegion (hP : Lasting P) (h : P (g.length s)) (region : Region) :
    P (g.length (s.setRegion region).2) := by
  unfold Sound.setRegion
  dsimp only
  split
  · exact Sound.of_length_congr h rfl rfl rfl rfl
  · next mixer _ =>
    have hq : P (g.length { s with
        region, mixer, dmc := s.dmc.setRegion region, noise := s.noise.setRegion region }) :=
      Sound.of_length_congr h rfl rfl rfl rfl
    exact Sound.of_length_congr (hP.catchUp hq) rfl rfl rfl rfl

/-- So it lasts through every act that does not enable the channel. -/
theorem perform (hP : Lasting P) (h : P (g.length s)) {a : Act} (hno : ¬ g.Enables a) :
    P (g.length (s.perform a)) := by
  cases a with
  | process => exact hP.process h
  | endFrame => exact hP.endFrame h
  | read addr =>
    show P (g.length (s.read addr).2)
    rw [Sound.length_read]
    exact hP.catchUp h
  | write addr data => exact hP.writeRegister (hP.catchUp h) hno
  | takeSamples => exact Sound.of_length_congr h rfl rfl rfl rfl
  | setRegion region => exact hP.setRegion h region
  | serve value =>
    show P (g.length (s.serve value))
    rwa [Sound.length_serve]

/-- Whatever is done to the unit, short of enabling the channel. -/
theorem performAll (hP : Lasting P) (h : P (g.length s)) {acts : List Act}
    (hno : ∀ a ∈ acts, ¬ g.Enables a) : P (g.length (s.performAll acts)) := by
  induction acts generalizing s with
  | nil => exact h
  | cons a acts ih =>
    obtain ⟨hfirst, hrest⟩ := List.forall_mem_cons.mp hno
    exact ih (hP.perform h hfirst) hrest

end LengthCounter.Lasting

namespace Sound

variable {s : Sound} {g : Gated} {region : Region} {data : UInt8}

/-! ## The status -/

/-- The bit of one channel in the status. -/
theorem status_and_mask (s : Sound) (g : Gated) :
    s.status &&& g.mask = statusBit (g.length s).isActive g.mask := by
  have hbits : ∀ a b c d e f i : Bool, ∀ status : UInt8,
      status = statusBit a 0x01 ||| statusBit b 0x02 ||| statusBit c 0x04 ||| statusBit d 0x08 |||
        statusBit e 0x10 ||| statusBit f 0x40 ||| statusBit i 0x80 →
      status &&& 0x01 = statusBit a 0x01 ∧ status &&& 0x02 = statusBit b 0x02 ∧
        status &&& 0x04 = statusBit c 0x04 ∧ status &&& 0x08 = statusBit d 0x08 := by
    rintro a b c d e f i _ rfl
    revert a b c d e f i
    decide
  obtain ⟨h₁, h₂, h₃, h₄⟩ := hbits _ _ _ _ _ _ _ s.status rfl
  cases g with
  | pulse1 => exact h₁
  | pulse2 => exact h₂
  | triangle => exact h₃
  | noise => exact h₄

/-- The status says of each channel whether its counter, brought up to date, is above zero. -/
theorem read_status (s : Sound) (g : Gated) :
    (s.read 0x4015).1 &&& g.mask = statusBit (0 < (g.length s.catchUp).counter) g.mask := by
  unfold read
  exact status_and_mask s.catchUp g

/-! ## One cycle -/

/-- What can become of a unit that stays in one region. -/
inductive InRegion (region : Region) : Sound → Prop where
  | new {settings : MixerSettings} {s : Sound} : Sound.new region settings = .ok s → InRegion region s
  | process {s : Sound} : InRegion region s → InRegion region s.process.2
  | endFrame {s : Sound} : InRegion region s → InRegion region s.endFrame.2
  | read {s : Sound} (addr : UInt16) : InRegion region s → InRegion region (s.read addr).2
  | write {s : Sound} (addr : UInt16) (data : UInt8) : InRegion region s → InRegion region (s.write addr data)
  | takeDmcRequest {s : Sound} : InRegion region s → InRegion region s.takeDmcRequest.2
  | fillDmc {s : Sound} (value : UInt8) : InRegion region s → InRegion region (s.fillDmc value)
  | takeSamples {s : Sound} : InRegion region s → InRegion region s.takeSamples.2
  | reset {s : Sound} : InRegion region s → InRegion region s.reset.2

theorem InRegion.reachable (h : InRegion region s) : Reachable s := by
  induction h with
  | new hs => exact .new hs
  | process _ ih => exact ih.process
  | endFrame _ ih => exact ih.endFrame
  | read addr _ ih => exact ih.read addr
  | write addr data _ ih => exact ih.write addr data
  | takeDmcRequest _ ih => exact ih.takeDmcRequest
  | fillDmc value _ ih => exact ih.fillDmc value
  | takeSamples _ ih => exact ih.takeSamples
  | reset _ ih => exact ih.reset

/-- Catching up with one cycle is one run of a frame counter that is kept up to date. -/
theorem catchUp_one (hp : s.previous + 1 = s.current) (hf : s.frameCounter.Placed) :
    s.catchUp = { advance 1 (s.frameCounter.run 1).1 s with frameCounter := (s.frameCounter.run 1).2 } := by
  have hgap : s.current - s.previous = 1 := by omega
  have hdrive : s.frameCounter.drive advance 1 s =
      ((s.frameCounter.run 1).2, advance 1 (s.frameCounter.run 1).1 s) := by
    rw [FrameCounter.drive, dif_neg Nat.one_ne_zero, hf.taken_one, FrameCounter.drive, dif_pos rfl]
  rw [catchUp_eq, hgap, hdrive]

/-- A cycle is a run of the frame counter, whether it ends the audio frame or not. -/
theorem process_one (hp : s.previous = s.current) (hf : s.frameCounter.Placed) :
    s.process.2.frameCounter = (s.frameCounter.run 1).2 ∧
      ∀ g : Gated, g.length s.process.2 = (g.length s).advance (s.frameCounter.run 1).1 := by
  have hcatch (q : Sound) (hnext : q.previous + 1 = q.current) (hq : q.frameCounter = s.frameCounter)
      (hlength : ∀ g : Gated, g.length q = g.length s) :
      q.catchUp.frameCounter = (s.frameCounter.run 1).2 ∧
        ∀ g : Gated, g.length q.catchUp = (g.length s).advance (s.frameCounter.run 1).1 := by
    rw [catchUp_one hnext (hq ▸ hf), hq]
    refine ⟨rfl, fun g => ?_⟩
    refine (length_congr (s := advance 1 (s.frameCounter.run 1).1 q) g rfl rfl rfl rfl).trans ?_
    rw [length_advance, hlength]
  rcases s.process_eq with he | he
  · rw [he, frameCounter_endFrame]
    obtain ⟨hcounter, hlength⟩ := hcatch { s with current := s.current + 1 } (congrArg (· + 1) hp) rfl
      fun g => length_congr g rfl rfl rfl rfl
    exact ⟨hcounter, fun g => (length_endFrame _ g).trans (hlength g)⟩
  · rw [he]
    exact hcatch _ (congrArg (· + 1) hp) rfl fun g => length_congr g rfl rfl rfl rfl

/-- The frame counter of such a unit is run over single cycles. -/
theorem InRegion.frameCounter (h : InRegion region s) : FrameCounter.Stepped region s.frameCounter := by
  induction h with
  | new hs =>
    obtain ⟨-, hs⟩ := new_eq_ok hs
    rw [hs]
    exact .new
  | @process s h ih =>
    rw [(process_one h.reachable.settled.previous ih.regular.placed).1]
    exact ih.run
  | @endFrame s h ih =>
    rw [frameCounter_endFrame, h.reachable.settled.catchUp_eq]
    exact ih
  | @read s addr h ih =>
    unfold Sound.read
    rw [h.reachable.settled.catchUp_eq]
    dsimp only
    split
    · exact ih.clearIrq
    · exact ih
  | @write s addr data h ih =>
    unfold Sound.write
    rw [h.reachable.settled.catchUp_eq]
    rcases s.frameCounter_writeRegister addr data with he | he
    · rw [he]
      exact ih
    · rw [he]
      exact ih.writeControl data
  | takeDmcRequest _ ih => exact ih
  | fillDmc value _ ih => exact ih
  | takeSamples _ ih => exact ih
  | @reset s _ ih =>
    show FrameCounter.Stepped region (FrameCounter.new s.frameCounter.region)
    rw [ih.region_eq]
    exact .new

/-- One cycle of such a unit: a run of its frame counter. -/
theorem InRegion.length_process (h : InRegion region s) (g : Gated) :
    g.length s.process.2 = (g.length s).advance (s.frameCounter.run 1).1 :=
  (process_one h.reachable.settled.previous h.frameCounter.regular.placed).2 g

/-! ## Disabled channels -/

/-- The channel is disabled at once. -/
theorem Reachable.length_disable (h : Reachable s) (hoff : data &&& g.mask = 0) :
    g.length (s.write 0x4015 data) = (g.length s).setEnabled false := by
  unfold Sound.write
  rw [h.settled.catchUp_eq]
  refine (length_writeEnable s data g).trans ?_
  rw [hoff]
  rfl

/-- With the next cycle, what was left over is loaded. -/
theorem InRegion.process_disabled (h : InRegion region s) (hoff : data &&& g.mask = 0) :
    (g.length (s.write 0x4015 data).process.2).counter = (g.length s).leftOver := by
  rw [(h.write 0x4015 data).length_process, h.reachable.length_disable hoff]
  exact LengthCounter.counter_advance_disable _ _

/-- The status shows of an up-to-date unit which counters run. -/
theorem InRegion.read_status (h : InRegion region s) (g : Gated) :
    (s.read 0x4015).1 &&& g.mask = statusBit (0 < (g.length s).counter) g.mask := by
  rw [Sound.read_status, h.reachable.settled.catchUp_eq]

/-- A channel is disabled, and from then on not enabled.  It is silent for good, whatever is done to the
    unit, iff no load was left over; and its counter never exceeds that load, so no later one takes effect.
    But one that was left over does, with the next cycle, and the status shows it.  None is left over
    where a cycle lies between the last load and the disabling. -/
theorem InRegion.silenced (h : InRegion region s) (g : Gated) (hoff : data &&& g.mask = 0) :
    let q := s.write 0x4015 data
    let left := (g.length s).leftOver
    ((∀ acts : List Act, (∀ a ∈ acts, ¬ g.Enables a) →
        (g.length (q.performAll acts)).counter = 0 ∧
          ((q.performAll acts).read 0x4015).1 &&& g.mask = 0) ↔ left = 0) ∧
      (∀ acts : List Act, (∀ a ∈ acts, ¬ g.Enables a) → (g.length (q.performAll acts)).counter ≤ left) ∧
      (g.length q.process.2).counter = left ∧
      (q.process.2.read 0x4015).1 &&& g.mask = statusBit (0 < left) g.mask ∧
      (g.length s.process.2).leftOver = 0 := by
  intro q left
  have hnext : (g.length q.process.2).counter = left := h.process_disabled hoff
  have hmuted : LengthCounter.Muted left (g.length q) := by
    rw [h.reachable.length_disable hoff]
    exact LengthCounter.muted_disable _
  have hlasting := LengthCounter.lasting_muted left
  refine ⟨⟨fun hsilent => ?_, fun hnone acts hno => ?_⟩, fun acts hno => ?_, hnext, ?_, ?_⟩
  · rw [← hnext]
    exact (hsilent [.process] (by simp [Gated.Enables])).1
  · have hafter := hlasting.performAll hmuted hno
    have hzero {l : LengthCounter} (hl : LengthCounter.Muted left l) : l.counter = 0 :=
      UInt8.le_antisymm (hnone ▸ hl.counter_le) UInt8.zero_le
    refine ⟨hzero hafter, ?_⟩
    rw [Sound.read_status, hzero (hlasting.catchUp hafter)]
    rfl
  · exact (hlasting.performAll hmuted hno).counter_le
  · rw [(h.write 0x4015 data).process.read_status, hnext]
  · rw [h.length_process]
    exact LengthCounter.leftOver_advance _ _

/-! The first pulse channel is enabled, loaded and disabled within one cycle. -/

/-- The unit before it is disabled. -/
def lateLoad : Sound := ((shortRun 0).write 0x4015 0x01).write 0x4003 0x08

theorem inRegion_lateLoad : InRegion .ntsc lateLoad := ((InRegion.new new_shortFrames).write _ _).write _ _

theorem lateLoad_eq : lateLoad = ((shortRun 0).writeEnable 0x01).writeRegister 0x4003 0x08 := by
  have henabled : (shortRun 0).write 0x4015 0x01 = (shortRun 0).writeEnable 0x01 := by
    unfold Sound.write
    rw [catchUp_self (Nat.le_refl 0)]
    rfl
  unfold lateLoad
  rw [henabled, Sound.write, catchUp_self (Nat.le_refl 0)]

theorem leftOver_lateLoad : (Gated.pulse1.length lateLoad).leftOver = 254 ∧
    (Gated.pulse2.length lateLoad).leftOver = 0 := by
  rw [lateLoad_eq]
  decide

/-- It sounds all the same. -/
theorem exists_disabled_sounding : ∃ s : Sound, InRegion .ntsc s ∧
    (Gated.pulse1.length (s.write 0x4015 0)).enabled = false ∧
    (Gated.pulse1.length (s.write 0x4015 0)).counter = 0 ∧
    (Gated.pulse1.length (s.write 0x4015 0).process.2).counter = 254 ∧
    ((s.write 0x4015 0).process.2.read 0x4015).1 &&& 0x01 = 0x01 := by
  have hoff : 0 &&& Gated.pulse1.mask = 0 := rfl
  have hdisabled := inRegion_lateLoad.reachable.length_disable hoff
  have hnext := (inRegion_lateLoad.process_disabled hoff).trans leftOver_lateLoad.1
  refine ⟨lateLoad, inRegion_lateLoad, by rw [hdisabled]; rfl, by rw [hdisabled]; rfl, hnext, ?_⟩
  refine ((inRegion_lateLoad.write 0x4015 0).process.read_status .pulse1).trans ?_
  rw [hnext]
  rfl

/-- Something was left over of the first pulse channel, and nothing of the second. -/
theorem InRegion.silenced_lateLoad : InRegion .ntsc lateLoad ∧ 0 &&& Gated.pulse1.mask = 0 ∧
    (Gated.pulse1.length (lateLoad.write 0x4015 0).process.2).counter = 254 ∧
    ∀ acts : List Act, (∀ a ∈ acts, ¬ Gated.pulse2.Enables a) →
      (Gated.pulse2.length ((lateLoad.write 0x4015 0).performAll acts)).counter = 0 := by
  obtain ⟨hone, htwo⟩ := leftOver_lateLoad
  have hfirst : 0 &&& Gated.pulse1.mask = 0 := rfl
  have hsecond : 0 &&& Gated.pulse2.mask = 0 := rfl
  obtain ⟨-, -, hsounds, -⟩ := InRegion.silenced inRegion_lateLoad .pulse1 hfirst
  obtain ⟨hsilent, -⟩ := InRegion.silenced inRegion_lateLoad .pulse2 hsecond
  exact ⟨inRegion_lateLoad, hfirst, hsounds.trans hone, fun acts hno => (hsilent.mpr htwo acts hno).1⟩

end Sound

end Famicom
