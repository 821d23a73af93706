/-
  Ranges: the numbers that the channels count with stay small, so that no word of a channel wraps.

  Periods are of eleven bits or come out of a table, volumes are of four bits, and the level of the delta
  modulation channel is of seven.  What is computed from them fits into the words it is computed in.

  1. **Parts**: a timer that is driven keeps its period (`Timer.drive_period`), a change that the sweep
     makes is the number it aims at and stays within eleven bits (`Sweep.change?_exact`), and an envelope
     stays below sixteen (`Envelope.Ranged`).
  2. **Channels**: one invariant for each of the four kinds (`Ranged`), which power-on establishes and
     registers, the frame counter and every expiry of the timer keep.
  3. **The unit** (`Sound.Ranged`): all five at once.  By induction over the runs of the frame counter
     they stay in their ranges while the unit catches up.

  Main statements: `Sound.Ranged.catchUp` and `Sound.Ranged.writeRegister`, and from the invariant that
  the words are exact (`Pulse.level_exact`, `Noise.periodOf_exact`, `Dmc.periodOf_exact`).
-/
import Famicom.Proofs.Sound.FrameEnd
import Famicom.Proofs.Sound.Wiring

namespace Famicom

/-! ## Words -/

/-- A masked word is no more than the mask. -/
theorem and_toNat_le (v mask : UInt16) : (v &&& mask).toNat ≤ mask.toNat := by
  rw [UInt16.toNat_and]
  exact Nat.and_le_right

/-- Two words that stay below a power of two stay below it when they are put together. -/
theorem or_toNat_lt {v w : UInt16} {n : Nat} (hv : v.toNat < 2 ^ n) (hw : w.toNat < 2 ^ n) :
    (v ||| w).toNat < 2 ^ n := by
  rw [UInt16.toNat_or]
  exact Nat.or_lt_two_pow hv hw

/-- The upper three of eleven bits, as a register gives them. -/
theorem upper_bits_lt (data : UInt8) :
    ((data.toUInt16 &&& 0x07) <<< (8 : UInt16)).toNat < 2 ^ 11 := by
  have h := and_toNat_le data.toUInt16 0x07
  rw [UInt16.toNat_shiftLeft, Nat.shiftLeft_eq]
  have h7 : (0x07 : UInt16).toNat = 7 := rfl
  have h8 : (8 : UInt16).toNat % 16 = 8 := rfl
  rw [h8]
  omega

/-- A register's value fits eight bits of a word. -/
theorem byte_lt (data : UInt8) : data.toUInt16.toNat < 2 ^ 11 := by
  have h := data.toNat_lt
  rw [UInt8.toNat_toUInt16]
  omega

/-! ## Parts of channels -/

/-- A timer that advances keeps its period, whether it expires or not. -/
theorem Timer.advance_period {t t' : Timer} {target : Nat} {expired : Bool}
    (h : t.advance target = (expired, t')) : t'.period = t.period := by
  unfold advance at h
  split at h
  · cases h
    rfl
  · cases h
    rfl

/-- Driving a timer keeps its period, whatever the channel does at the expiries. -/
theorem Timer.drive_period {σ : Type} (expire : Nat → σ → σ) (target : Nat) (t : Timer) (s : σ) :
    (t.drive expire target s).1.period = t.period := by
  induction t, s using Timer.drive.induct expire target with
  | case1 t s t' ha _ ih =>
    rw [drive]
    split
    · next t'' h' =>
      cases ha.symm.trans h'
      exact ih.trans (advance_period ha)
    · next t'' h' => cases ha.symm.trans h'
  | case2 t s t' ha =>
    rw [drive]
    split
    · next t'' h' => cases ha.symm.trans h'
    · next t'' h' => exact advance_period h'

/-- A table of periods without a zero, and the rate that one is chosen by: one less than it is exact. -/
theorem Timer.rate_exact {periods : Vector UInt16 16} (hpos : ∀ i : Fin 16, 1 ≤ periods[i])
    (rate : UInt8) : have := Timer.rate_lt rate
    ∃ i : Fin 16, (periods[rate.toNat % 16] - 1).toNat + 1 = periods[i].toNat := by
  have hlt := Timer.rate_lt rate
  have hone : 1 ≤ periods[rate.toNat % 16] := hpos ⟨rate.toNat % 16, hlt⟩
  refine ⟨⟨rate.toNat % 16, hlt⟩, ?_⟩
  show (periods[rate.toNat % 16] - 1).toNat + 1 = periods[rate.toNat % 16].toNat
  rw [UInt16.toNat_sub_of_le _ _ hone]
  exact Nat.sub_add_cancel (UInt16.le_iff_toNat_le.mp hone)

/-- The level of a voice is not below zero and not above this. -/
def Voice.Within (v : Voice) (top : Int) : Prop := 0 ≤ v.level.toInt ∧ v.level.toInt ≤ top

/-- A voice that has told nothing yet. -/
theorem Voice.within_silent (c : Channel) {top : Int} (h : 0 ≤ top) :
    Voice.Within { channel := c } top :=
  ⟨Int.le_refl 0, h⟩

namespace Sweep

/-- A period shifted by one place or more is halved at least. -/
theorem shiftRight_le_half {n k : Nat} (hk : 0 < k) : n >>> k ≤ n / 2 := by
  rw [Nat.shiftRight_eq_div_pow]
  refine Nat.div_le_div_left ?_ (by decide)
  calc 2 = 2 ^ 1 := rfl
    _ ≤ 2 ^ k := Nat.pow_le_pow_right (by decide) hk

/-- A change that the sweep makes is to the very number that it aims at, which has eleven bits. -/
theorem change?_exact {s : Sweep} {period new : UInt16} (h : s.change? period = some new) :
    (new.toNat : Int) = s.target period ∧ new.toNat ≤ 0x7FF := by
  unfold change? at h
  split at h
  · next hc =>
    obtain ⟨hshift, -, h8, htop⟩ := hc
    cases h
    have hpos : 0 ≤ s.target period := by
      have hhalf := shiftRight_le_half (n := period.toNat) (UInt8.lt_iff_toNat_lt.mp hshift)
      have h8 : 8 ≤ period.toNat := UInt16.le_iff_toNat_le.mp h8
      unfold target
      dsimp only
      split
      · split <;> omega
      · exact Int.add_nonneg (Int.natCast_nonneg _) (Int.natCast_nonneg _)
    have hnew : (UInt16.ofNat (s.target period).toNat).toNat = (s.target period).toNat :=
      UInt16.toNat_ofNat_of_lt' (show _ < 65536 by omega)
    rw [hnew]
    omega
  · cases h

end Sweep

namespace Envelope

/-- The volumes of an envelope have four bits. -/
structure Ranged (e : Envelope) : Prop where
  period : e.period.toNat ≤ 15
  decay : e.decay.toNat ≤ 15

variable {e : Envelope}

/-- The length counter has no part in the volume's range. -/
theorem Ranged.setLength (h : e.Ranged) (length : LengthCounter) : Ranged { e with length } :=
  ⟨h.period, h.decay⟩

theorem Ranged.restart (h : e.Ranged) : e.restart.Ranged := ⟨h.period, h.decay⟩

theorem Ranged.writeControl (h : e.Ranged) (data : UInt8) : (e.writeControl data).Ranged := by
  refine ⟨?_, h.decay⟩
  show (data &&& 0x0F).toNat ≤ 15
  rw [UInt8.toNat_and]
  exact Nat.and_le_right

/-- The decay counts down from fifteen, or starts there again. -/
theorem Ranged.nextDecay (h : e.Ranged) : e.nextDecay.toNat ≤ 15 := by
  have hd := h.decay
  unfold Envelope.nextDecay
  split
  · next hpos =>
    have hone : (1 : UInt8).toNat ≤ e.decay.toNat := UInt8.lt_iff_toNat_lt.mp hpos
    rw [UInt8.toNat_sub_of_le _ _ (UInt8.le_iff_toNat_le.mpr hone)]
    exact Nat.le_trans (Nat.sub_le _ _) hd
  · split
    · exact Nat.le_refl 15
    · exact hd

/-- A clock of the envelope counts the decay down or starts it again, within four bits. -/
theorem Ranged.clock (h : e.Ranged) : e.clock.Ranged := by
  unfold Envelope.clock
  split
  · exact ⟨h.period, Nat.le_refl 15⟩
  · split
    · exact ⟨h.period, h.nextDecay⟩
    · exact ⟨h.period, h.decay⟩

/-- The volume of an envelope is of four bits, be it the decay or the one written. -/
theorem Ranged.volume_le (h : e.Ranged) : e.volume.toNat ≤ 15 := by
  unfold volume
  split
  · split
    · exact h.period
    · exact h.decay
  · exact Nat.zero_le 15

end Envelope

/-! ## The pulse channels -/

namespace Pulse

/-- The period has eleven bits and the timer counts twice as fast, except before the first is set; the
    volume has four bits, and so has the level.  The level is told as that of the given channel. -/
structure Ranged (p : Pulse) (c : Channel) : Prop where
  period : p.period.toNat ≤ 0x7FF
  timer : p.timer.period.toNat = 2 * p.period.toNat + 1 ∨ p.timer.period = 0 ∧ p.period = 0
  envelope : p.envelope.Ranged
  voice : p.voice.Within 15
  channel : p.voice.channel = c

variable {p : Pulse} {c : Channel}

/-- The duty cycle is a bit. -/
theorem dutyBit_le (p : Pulse) : p.dutyBit.toNat ≤ 1 := by
  have h : ∀ (i : Fin 4) (j : Fin 8), dutyPatterns[i][j].toNat ≤ 1 := by decide
  exact h ⟨p.duty.toNat % 4, Nat.mod_lt _ (by decide)⟩ ⟨p.position.toNat % 8, Nat.mod_lt _ (by decide)⟩

/-- A wave that is on or off times a volume of four bits. -/
theorem dutyBit_mul_volume_le (h : p.envelope.Ranged) :
    p.dutyBit.toNat * p.envelope.volume.toNat ≤ 15 := by
  have hle := Nat.mul_le_mul p.dutyBit_le h.volume_le
  omega

/-- The level is the volume where the wave is on. -/
theorem level_exact (h : p.envelope.Ranged) : p.level.toInt =
    if p.isMuted then 0 else (p.dutyBit.toNat * p.envelope.volume.toNat : Nat) := by
  have hle := dutyBit_mul_volume_le h
  have hmul : (p.dutyBit * p.envelope.volume).toNat = p.dutyBit.toNat * p.envelope.volume.toNat := by
    rw [UInt8.toNat_mul]
    exact Nat.mod_eq_of_lt (by omega)
  unfold level
  split
  · rfl
  · rw [Int16.toInt_ofNat_of_lt (by omega), hmul]

/-- What is told at a cycle is the level as it is. -/
theorem Ranged.updateAt (h : p.Ranged c) (cycle : Nat) (m : Mixer) : (p.updateAt cycle m).1.Ranged c := by
  have hle := dutyBit_mul_volume_le h.envelope
  have hv : (p.updateAt cycle m).1.voice = { p.voice with level := p.level } := Voice.set_eq _ _ _ _
  refine ⟨h.period, h.timer, h.envelope, ?_, hv ▸ h.channel⟩
  unfold Voice.Within
  rw [hv, level_exact h.envelope]
  split
  · decide
  · omega

/-- A pulse channel stays in its ranges under a period of eleven bits. -/
theorem Ranged.setPeriod (h : p.Ranged c) {period : UInt16} (hp : period.toNat ≤ 0x7FF) :
    (p.setPeriod period).Ranged c := by
  refine ⟨hp, .inl ?_, h.envelope, h.voice, h.channel⟩
  show (period * 2 + 1).toNat = 2 * period.toNat + 1
  rw [UInt16.toNat_add, UInt16.toNat_mul]
  show (period.toNat * 2 % 65536 + 1) % 65536 = 2 * period.toNat + 1
  omega

/-- A written register keeps a pulse channel in its ranges: the period takes no more than eleven bits.
    -/
theorem Ranged.write (h : p.Ranged c) (register : UInt16) (data : UInt8) (m : Mixer) :
    (p.write register data m).1.Ranged c := by
  unfold Pulse.write
  split
  · have hq : Ranged { p with envelope := p.envelope.writeControl data, duty := data >>> 6 } c :=
      { h with envelope := h.envelope.writeControl data }
    exact hq.updateAt _ m
  · have hq : Ranged { p with sweep := p.sweep.writeControl data } c := { h with }
    exact hq.updateAt _ m
  · have hmask := and_toNat_le p.period 0x0700
    have hlt := or_toNat_lt (Nat.lt_of_le_of_lt hmask (show 0x0700 < 2 ^ 11 by decide)) (byte_lt data)
    exact (h.setPeriod (Nat.le_of_lt_succ hlt)).updateAt _ m
  · have hmask := and_toNat_le p.period 0x00FF
    have hlt := or_toNat_lt (Nat.lt_of_le_of_lt hmask (show 0x00FF < 2 ^ 11 by decide))
      (upper_bits_lt data)
    have hq : Ranged { p with
        envelope := Envelope.restart { p.envelope with length := p.envelope.length.load (data >>> 3) }
        position := 0 } c :=
      { h with envelope := (h.envelope.setLength _).restart }
    exact (hq.setPeriod (Nat.le_of_lt_succ hlt)).updateAt _ m

/-- A pulse channel stays in its ranges while it runs, since only its timer and its place in the duty
    cycle move. -/
theorem Ranged.run (h : p.Ranged c) (target : Nat) (m : Mixer) : (p.run target m).1.Ranged c := by
  -- the timer that counts is kept aside; only the expiries touch the rest
  have hrun : (p.timer.drive expire target (p, m)).2.1.Ranged c ∧
      (p.timer.drive expire target (p, m)).2.1.timer = p.timer := by
    refine Timer.drive_inv (P := fun s : Pulse × Mixer => s.1.Ranged c ∧ s.1.timer = p.timer) ?_ target
      p.timer ⟨h, rfl⟩
    rintro cycle s ⟨hs, ht⟩
    have hq : Ranged { s.1 with position := (s.1.position - 1) &&& 0x07 } c := { hs with }
    exact ⟨hq.updateAt cycle s.2, ht⟩
  obtain ⟨hq, ht⟩ := hrun
  refine { hq with timer := ?_ }
  have htimer := hq.timer
  rw [ht, ← Timer.drive_period expire target p.timer (p, m)] at htimer
  exact htimer

/-- The sweep changes the period to one within eleven bits, or not at all. -/
theorem Ranged.clockSweep (h : p.Ranged c) : p.clockSweep.Ranged c := by
  unfold Pulse.clockSweep
  split
  · next period sweep hclock =>
    have hchange : p.sweep.change? p.period = some period := by
      unfold Sweep.clock at hclock
      dsimp only at hclock
      split at hclock
      · exact congrArg Prod.fst hclock
      · cases hclock
    have hq : Ranged { p with sweep } c := { h with }
    exact hq.setPeriod (Sweep.change?_exact hchange).2
  · exact { h with }

theorem Ranged.clockEnvelope (h : p.Ranged c) : p.clockEnvelope.Ranged c :=
  { h with envelope := h.envelope.clock }

theorem Ranged.clockLength (h : p.Ranged c) : p.clockLength.Ranged c :=
  { h with envelope := h.envelope.setLength _ }

theorem Ranged.reloadLength (h : p.Ranged c) : p.reloadLength.Ranged c :=
  { h with envelope := h.envelope.setLength _ }

theorem Ranged.setEnabled (h : p.Ranged c) (enabled : Bool) : (p.setEnabled enabled).Ranged c :=
  { h with envelope := h.envelope.setLength _ }

theorem Ranged.endFrame (h : p.Ranged c) : p.endFrame.Ranged c := { h with }

/-- A pulse channel computes its period and its level without loss. -/
structure Exact (p : Pulse) : Prop where
  /-- The period has eleven bits. -/
  period : p.period.toNat ≤ 0x7FF
  /-- The timer counts twice as fast, once a period has been set. -/
  timer : p.timer.period.toNat = 2 * p.period.toNat + 1 ∨ p.timer.period = 0 ∧ p.period = 0
  /-- Any sweep that changes the period changes it to what it aims at, which has eleven bits again. -/
  sweep (sweep : Sweep) (new : UInt16) : sweep.change? p.period = some new →
    (new.toNat : Int) = sweep.target p.period ∧ new.toNat ≤ 0x7FF
  /-- The level is the volume where the wave is on and the sweep lets it through. -/
  level : p.level.toInt = if p.isMuted then 0 else (p.dutyBit.toNat * p.envelope.volume.toNat : Nat)

/-- In these ranges the level of a pulse channel and what its sweep aims at are the numbers they stand
    for. -/
theorem Ranged.exact (h : p.Ranged c) : p.Exact :=
  ⟨h.period, h.timer, fun _ _ => Sweep.change?_exact, level_exact h.envelope⟩

/-- At power-on all is zero. -/
theorem ranged_reset (p : Pulse) : p.reset.Ranged p.voice.channel :=
  ⟨Nat.zero_le _, .inr ⟨rfl, rfl⟩, ⟨Nat.zero_le _, Nat.zero_le _⟩, Voice.within_silent _ (by decide),
    rfl⟩

end Pulse

/-! ## The triangle channel -/

namespace Triangle

/-- The period has eleven bits and the level four. -/
structure Ranged (t : Triangle) : Prop where
  timer : t.timer.period.toNat ≤ 0x7FF
  voice : t.voice.Within 15
  channel : t.voice.channel = .triangle

variable {t : Triangle}

/-- The level of the triangle channel is of four bits. -/
theorem level_within (t : Triangle) : 0 ≤ t.level.toInt ∧ t.level.toInt ≤ 15 := by
  have h : ∀ i : Fin 32, sequence[i].toNat ≤ 15 := by decide
  have hle := h ⟨t.position.toNat % 32, Nat.mod_lt _ (by decide)⟩
  have hle : sequence[t.position.toNat % 32].toNat ≤ 15 := hle
  unfold level
  rw [Int16.toInt_ofNat_of_lt (by omega)]
  omega

/-- A written register keeps the triangle channel in its ranges: the period takes no more than eleven
    bits. -/
theorem Ranged.write (h : t.Ranged) (register : UInt16) (data : UInt8) (m : Mixer) :
    (t.write register data m).1.Ranged := by
  have hp := h.timer
  unfold Triangle.write
  split
  · exact { h with }
  · exact h
  · have hkept : (t.timer.period &&& 0xFF00).toNat < 2 ^ 11 := by
      rw [UInt16.toNat_and]
      exact Nat.lt_of_le_of_lt Nat.and_le_left (Nat.lt_succ_of_le hp)
    exact { h with timer := Nat.le_of_lt_succ (or_toNat_lt hkept (byte_lt data)) }
  · have hmask := and_toNat_le t.timer.period 0x00FF
    have hlt := or_toNat_lt (Nat.lt_of_le_of_lt hmask (show 0x00FF < 2 ^ 11 by decide))
      (upper_bits_lt data)
    exact { h with timer := Nat.le_of_lt_succ hlt }

/-- At an expiry the triangle goes one place on in its sequence and stays in its ranges; its timer it
    leaves alone. -/
theorem Ranged.expire (h : t.Ranged) (cycle : Nat) (m : Mixer) :
    (Triangle.expire cycle (t, m)).1.Ranged ∧ (Triangle.expire cycle (t, m)).1.timer = t.timer := by
  unfold Triangle.expire
  dsimp only
  split
  · split
    · refine ⟨{ h with voice := ?_, channel := ?_ }, rfl⟩
      · unfold Voice.Within
        rw [Voice.set_eq]
        exact level_within _
      · rw [Voice.set_eq]
        exact h.channel
    · exact ⟨{ h with }, rfl⟩
  · exact ⟨h, rfl⟩

theorem Ranged.run (h : t.Ranged) (target : Nat) (m : Mixer) : (t.run target m).1.Ranged := by
  have hrun : (t.timer.drive Triangle.expire target (t, m)).2.1.Ranged ∧
      (t.timer.drive Triangle.expire target (t, m)).2.1.timer = t.timer := by
    refine Timer.drive_inv (P := fun s : Triangle × Mixer => s.1.Ranged ∧ s.1.timer = t.timer) ?_ target
      t.timer ⟨h, rfl⟩
    rintro cycle s ⟨hs, ht⟩
    obtain ⟨hq, htimer⟩ := hs.expire cycle s.2
    exact ⟨hq, htimer.trans ht⟩
  refine { hrun.1 with timer := ?_ }
  show (t.timer.drive Triangle.expire target (t, m)).1.period.toNat ≤ 0x7FF
  rw [Timer.drive_period]
  exact h.timer

theorem ranged_reset (t : Triangle) : t.reset.Ranged :=
  ⟨Nat.zero_le _, Voice.within_silent _ (by decide), rfl⟩

end Triangle

/-! ## The noise channel -/

namespace Noise

/-- The period comes from a table; the volume has four bits, and so has the level. -/
structure Ranged (n : Noise) : Prop where
  timer : ∃ region rate, n.timer.period = periodOf region rate
  envelope : n.envelope.Ranged
  voice : n.voice.Within 15
  channel : n.voice.channel = .noise

variable {n : Noise}

/-- The timer's period is one less than the channel's, and none of these is zero. -/
theorem periodOf_exact (region : Region) (rate : UInt8) : ∃ i : Fin 16,
    (periodOf region rate).toNat + 1 = (periods region)[i].toNat :=
  Timer.rate_exact (by cases region <;> decide) rate

/-- The level of the noise channel is of four bits. -/
theorem level_within (h : n.envelope.Ranged) : 0 ≤ n.level.toInt ∧ n.level.toInt ≤ 15 := by
  have hle := h.volume_le
  unfold level
  split
  · decide
  · rw [Int16.toInt_ofNat_of_lt (by omega)]
    omega

/-- A written register keeps the noise channel in its ranges: a new period comes out of the table. -/
theorem Ranged.write (h : n.Ranged) (register : UInt16) (data : UInt8) (m : Mixer) :
    (n.write register data m).1.Ranged := by
  unfold Noise.write
  split
  · exact { h with envelope := h.envelope.writeControl data }
  · exact h
  · exact { h with timer := ⟨_, _, rfl⟩ }
  · exact { h with envelope := (h.envelope.setLength _).restart }

/-- At an expiry the noise channel shifts its register and stays in its ranges. -/
theorem Ranged.expire (h : n.Ranged) (cycle : Nat) (m : Mixer) :
    (Noise.expire cycle (n, m)).1.Ranged := by
  unfold Noise.expire
  dsimp only
  refine { h with voice := ?_, channel := ?_ }
  · unfold Voice.Within
    rw [Voice.set_eq]
    exact level_within h.envelope
  · rw [Voice.set_eq]
    exact h.channel

theorem Ranged.run (h : n.Ranged) (target : Nat) (m : Mixer) : (n.run target m).1.Ranged := by
  have hrun : (n.timer.drive Noise.expire target (n, m)).2.1.Ranged :=
    Timer.drive_inv (P := fun s : Noise × Mixer => s.1.Ranged) (fun cycle s hs => hs.expire cycle s.2)
      target n.timer h
  refine { hrun with timer := ?_ }
  obtain ⟨region, rate, hr⟩ := h.timer
  exact ⟨region, rate, (Timer.drive_period _ _ _ _).trans hr⟩

theorem Ranged.clockEnvelope (h : n.Ranged) : n.clockEnvelope.Ranged :=
  { h with envelope := h.envelope.clock }

theorem Ranged.clockLength (h : n.Ranged) : n.clockLength.Ranged :=
  { h with envelope := h.envelope.setLength _ }

theorem Ranged.reloadLength (h : n.Ranged) : n.reloadLength.Ranged :=
  { h with envelope := h.envelope.setLength _ }

theorem Ranged.setEnabled (h : n.Ranged) (enabled : Bool) : (n.setEnabled enabled).Ranged :=
  { h with envelope := h.envelope.setLength _ }

theorem ranged_new (region : Region) : (new region).Ranged :=
  ⟨⟨region, 0, rfl⟩, ⟨Nat.zero_le _, Nat.zero_le _⟩, Voice.within_silent _ (by decide), rfl⟩

end Noise

/-! ## The delta modulation channel -/

namespace Dmc

/-- The period comes from a table, and the level has seven bits. -/
structure Ranged (d : Dmc) : Prop where
  timer : ∃ region rate, d.timer.period = periodOf region rate
  level : d.level.toNat ≤ 127
  voice : d.voice.Within 127
  channel : d.voice.channel = .dmc

variable {d : Dmc}

/-- The timer's period is one less than the channel's, and none of these is zero. -/
theorem periodOf_exact (region : Region) (rate : UInt8) : ∃ i : Fin 16,
    (periodOf region rate).toNat + 1 = (periods region)[i].toNat :=
  Timer.rate_exact (by cases region <;> decide) rate

/-- What keeps a delta modulation channel's period and level keeps it in its ranges. -/
theorem Ranged.of_kept {q : Dmc} (h : d.Ranged) (hk : Kept d q) : q.Ranged := by
  refine ⟨?_, hk.level h.level, ?_, ?_⟩
  · rw [hk.timer]
    exact h.timer
  · rw [hk.voice]
    exact h.voice
  · rw [hk.voice]
    exact h.channel

/-- Telling the mixer the level changes nothing that has a range. -/
theorem Ranged.updateAt (h : d.Ranged) (cycle : Nat) (m : Mixer) : (d.updateAt cycle m).1.Ranged := by
  have hle := h.level
  have hv : (d.updateAt cycle m).1.voice = { d.voice with level := Int16.ofNat d.level.toNat } :=
    Voice.set_eq _ _ _ _
  refine ⟨h.timer, h.level, ?_, hv ▸ h.channel⟩
  unfold Voice.Within
  rw [hv, Int16.toInt_ofNat_of_lt (by omega)]
  omega

/-- A written register keeps the delta modulation channel in its ranges: a new period comes out of the
    table, and a level is of seven bits. -/
theorem Ranged.write (h : d.Ranged) (register : UInt16) (data : UInt8) (m : Mixer) :
    (d.write register data m).1.Ranged := by
  unfold Dmc.write
  split
  · exact { h with timer := ⟨_, _, rfl⟩ }
  · have hlevel : (data &&& 0x7F).toNat ≤ 127 := by
      rw [UInt8.toNat_and]
      exact Nat.and_le_right
    have hq : Ranged { d with level := data &&& 0x7F } := { h with level := hlevel }
    exact hq.updateAt _ m
  · exact { h with }
  · exact { h with }

/-- At an expiry the level moves by two, and not beyond seven bits. -/
theorem Ranged.expire (h : d.Ranged) (cycle : Nat) (m : Mixer) :
    (Dmc.expire cycle (d, m)).1.Ranged := by
  have hbit := h.of_kept (kept_playBit d)
  unfold Dmc.expire
  dsimp only
  split
  · have hq : Ranged { d.playBit with bitsLeft := 8 } := { hbit with }
    exact (hq.of_kept (kept_nextByte _)).updateAt cycle m
  · have hq : Ranged { d.playBit with bitsLeft := d.playBit.bitsLeft - 1 } := { hbit with }
    exact hq.updateAt cycle m

theorem Ranged.run (h : d.Ranged) (target : Nat) (m : Mixer) : (d.run target m).1.Ranged := by
  have hrun : (d.timer.drive Dmc.expire target (d, m)).2.1.Ranged :=
    Timer.drive_inv (P := fun s : Dmc × Mixer => s.1.Ranged) (fun cycle s hs => hs.expire cycle s.2)
      target d.timer h
  refine { hrun with timer := ?_ }
  obtain ⟨region, rate, hr⟩ := h.timer
  exact ⟨region, rate, (Timer.drive_period _ _ _ _).trans hr⟩

theorem ranged_new (region : Region) : (new region).Ranged :=
  ⟨⟨region, 0, rfl⟩, Nat.zero_le _, Voice.within_silent _ (by decide), rfl⟩

end Dmc

/-! ## The unit -/

namespace Sound

/-- All five channels are in their ranges, and each has a voice of its own. -/
structure Ranged (s : Sound) : Prop where
  pulse1 : s.pulse1.Ranged .pulse1
  pulse2 : s.pulse2.Ranged .pulse2
  triangle : s.triangle.Ranged
  noise : s.noise.Ranged
  dmc : s.dmc.Ranged

variable {s : Sound}

/-- A quarter frame keeps all channels in their ranges. -/
theorem Ranged.clockQuarter (h : s.Ranged) : s.clockQuarter.Ranged :=
  { h with
    pulse1 := h.pulse1.clockEnvelope, pulse2 := h.pulse2.clockEnvelope
    triangle := { h.triangle with }, noise := h.noise.clockEnvelope }

/-- A half frame keeps all channels in their ranges. -/
theorem Ranged.clockHalf (h : s.Ranged) : s.clockHalf.Ranged :=
  { h with
    pulse1 := h.pulse1.clockLength.clockSweep, pulse2 := h.pulse2.clockLength.clockSweep
    triangle := { h.triangle with }, noise := h.noise.clockLength }

/-- Whatever the frame counter announces, the channels stay in their ranges. -/
theorem Ranged.clock (h : s.Ranged) (event : Option FrameEvent) : (s.clock event).Ranged := by
  rcases event with _ | _ | _
  · exact h
  · exact h.clockQuarter
  · exact h.clockQuarter.clockHalf

theorem Ranged.reloadLengths (h : s.Ranged) : s.reloadLengths.Ranged :=
  { h with
    pulse1 := h.pulse1.reloadLength, pulse2 := h.pulse2.reloadLength
    triangle := { h.triangle with }, noise := h.noise.reloadLength }

/-- The channels stay in their ranges while they run to the current cycle. -/
theorem Ranged.runChannels (h : s.Ranged) : s.runChannels.Ranged :=
  ⟨h.pulse1.run _ _, h.pulse2.run _ _, h.triangle.run _ _, h.noise.run _ _, h.dmc.run _ _⟩

/-- One run of the frame counter with all that it brings keeps the ranges. -/
theorem Ranged.advance (h : s.Ranged) (cycles : Nat) (event : Option FrameEvent) :
    (advance cycles event s).Ranged := by
  have hmoved : Ranged { s with previous := s.previous + cycles } := { h with }
  exact (hmoved.clock event).reloadLengths.runChannels

/-- Whatever the frame counter clocks and the timers do on the way. -/
theorem Ranged.catchUp (h : s.Ranged) : s.catchUp.Ranged := by
  have hend := FrameCounter.drive_inv (P := fun _ (q : Sound) => q.Ranged)
    (fun _ taken event _ _ hq => hq.advance taken event) (s.current - s.previous) s.frameCounter h
  rw [catchUp_eq]
  exact { hend with }

/-- The end of a frame turns the timers back and changes nothing that has a range. -/
theorem Ranged.rewound (h : s.Ranged) : s.rewound.Ranged :=
  { h with
    pulse1 := h.pulse1.endFrame, pulse2 := h.pulse2.endFrame, triangle := { h.triangle with }
    noise := { h.noise with }, dmc := { h.dmc with } }

/-- Switching channels on and off changes nothing that has a range. -/
theorem Ranged.writeEnable (h : s.Ranged) (data : UInt8) : (s.writeEnable data).Ranged := by
  have hdmc : Dmc.Ranged { s.dmc with irq := false } := { h.dmc with }
  exact
    { h with
      pulse1 := h.pulse1.setEnabled _, pulse2 := h.pulse2.setEnabled _
      triangle := { h.triangle with }, noise := h.noise.setEnabled _
      dmc := hdmc.of_kept (Dmc.kept_setEnabled _ _) }

/-- Whatever is written to whichever register. -/
theorem Ranged.writeRegister (h : s.Ranged) (addr : UInt16) (data : UInt8) :
    (s.writeRegister addr data).Ranged := by
  unfold Sound.writeRegister
  dsimp only
  split
  · exact { h with pulse1 := h.pulse1.write _ _ _ }
  · exact { h with pulse2 := h.pulse2.write _ _ _ }
  · exact { h with triangle := h.triangle.write _ _ _ }
  · exact { h with noise := h.noise.write _ _ _ }
  · exact { h with dmc := h.dmc.write _ _ _ }
  · split
    · exact h.writeEnable data
    · split
      · exact { h with }
      · exact h

/-- A unit that could be built is in its ranges. -/
theorem ranged_new {region : Region} {settings : MixerSettings} (h : Sound.new region settings = .ok s) :
    s.Ranged := by
  rw [(new_eq_ok h).2]
  exact ⟨Pulse.ranged_reset .first, Pulse.ranged_reset .second, Triangle.ranged_reset {},
    Noise.ranged_new region, Dmc.ranged_new region⟩

/-- A reset unit is in its ranges. -/
theorem Ranged.reset (h : s.Ranged) : s.reset.2.Ranged :=
  ⟨h.pulse1.channel ▸ s.pulse1.ranged_reset, h.pulse2.channel ▸ s.pulse2.ranged_reset,
    s.triangle.ranged_reset, Noise.ranged_new _, Dmc.ranged_new _⟩

end Sound

end Famicom
