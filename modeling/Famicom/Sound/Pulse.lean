/-
  The two pulse channels: a square wave with a choice of duty, an envelope and a sweep.
-/
import Famicom.Sound.Envelope
import Famicom.Sound.Sweep
import Famicom.Sound.Timer

namespace Famicom

/-- A pulse channel. -/
structure Pulse where
  timer : Timer := {}
  voice : Voice
  envelope : Envelope := {}
  sweep : Sweep
  duty : UInt8 := 0
  position : UInt8 := 0
  /-- The period as written; the timer counts twice as fast. -/
  period : UInt16 := 0
  deriving DecidableEq, Repr

namespace Pulse

/-- The four square waves. -/
def dutyPatterns : Vector (Vector UInt8 8) 4 := #v[
  #v[0, 0, 0, 0, 0, 0, 0, 1],
  #v[0, 0, 0, 0, 0, 0, 1, 1],
  #v[0, 0, 0, 0, 1, 1, 1, 1],
  #v[1, 1, 1, 1, 1, 1, 0, 0]]

/-- The first pulse channel at power-on. -/
def first : Pulse := { voice := { channel := .pulse1 }, sweep := .new true }

/-- The second pulse channel at power-on. -/
def second : Pulse := { voice := { channel := .pulse2 }, sweep := .new false }

/-- The channel at power-on. -/
def reset (p : Pulse) : Pulse :=
  { voice := { channel := p.voice.channel }, sweep := p.sweep.reset }

/-- Whether the sweep silences the channel. -/
def isMuted (p : Pulse) : Bool := p.sweep.isMuting p.period

/-- Whether the length counter is running. -/
def isActive (p : Pulse) : Bool := p.envelope.length.isActive

/-- The point of the square wave that the channel is at. -/
def dutyBit (p : Pulse) : UInt8 :=
  have h₁ : p.duty.toNat % 4 < 4 := Nat.mod_lt _ (by decide)
  have h₂ : p.position.toNat % 8 < 8 := Nat.mod_lt _ (by decide)
  dutyPatterns[p.duty.toNat % 4][p.position.toNat % 8]

/-- The level of the channel. -/
def level (p : Pulse) : Int16 :=
  if p.isMuted then 0 else Int16.ofNat (p.dutyBit * p.envelope.volume).toNat

/-- Tells the mixer of the level at the given cycle. -/
def updateAt (p : Pulse) (cycle : Nat) (m : Mixer) : Pulse × Mixer :=
  let (voice, m) := p.voice.set cycle p.level m
  ({ p with voice }, m)

/-- Tells the mixer of the level now. -/
def update (p : Pulse) (m : Mixer) : Pulse × Mixer := p.updateAt p.timer.previous m

/-- Sets the period, of which the timer takes the double. -/
def setPeriod (p : Pulse) (period : UInt16) : Pulse :=
  { p with period, timer := { p.timer with period := period * 2 + 1 } }

/-- Writes the duty and the envelope. -/
def writeControl (p : Pulse) (data : UInt8) (m : Mixer) : Pulse × Mixer :=
  { p with envelope := p.envelope.writeControl data, duty := data >>> 6 }.update m

/-- Writes the sweep. -/
def writeSweep (p : Pulse) (data : UInt8) (m : Mixer) : Pulse × Mixer :=
  { p with sweep := p.sweep.writeControl data }.update m

/-- Writes the lower byte of the period. -/
def writePeriodLow (p : Pulse) (data : UInt8) (m : Mixer) : Pulse × Mixer :=
  (p.setPeriod ((p.period &&& 0x0700) ||| data.toUInt16)).update m

/-- Writes the upper bits of the period and loads the length counter; the wave and the envelope start
    anew. -/
def writePeriodHigh (p : Pulse) (data : UInt8) (m : Mixer) : Pulse × Mixer :=
  let envelope := { p.envelope with length := p.envelope.length.load (data >>> 3) }
  let p := p.setPeriod ((p.period &&& 0x00FF) ||| ((data.toUInt16 &&& 0x07) <<< (8 : UInt16)))
  { p with envelope := envelope.restart, position := 0 }.update m

/-- Enables or disables the channel. -/
def setEnabled (p : Pulse) (enabled : Bool) : Pulse :=
  { p with envelope := { p.envelope with length := p.envelope.length.setEnabled enabled } }

/-- The timer expires: the next point of the wave, which is walked backwards. -/
def expire (cycle : Nat) (s : Pulse × Mixer) : Pulse × Mixer :=
  { s.1 with position := (s.1.position - 1) &&& 0x07 }.updateAt cycle s.2

/-- Brings the channel up to a cycle. -/
def run (p : Pulse) (target : Nat) (m : Mixer) : Pulse × Mixer :=
  let (timer, p, m) := p.timer.drive expire target (p, m)
  ({ p with timer }, m)

/-- A quarter frame. -/
def clockEnvelope (p : Pulse) : Pulse := { p with envelope := p.envelope.clock }

/-- A half frame, for the length counter. -/
def clockLength (p : Pulse) : Pulse :=
  { p with envelope := { p.envelope with length := p.envelope.length.clock } }

/-- A half frame, for the sweep. -/
def clockSweep (p : Pulse) : Pulse :=
  match p.sweep.clock p.period with
  | (some period, sweep) => { p with sweep }.setPeriod period
  | (none, sweep) => { p with sweep }

/-- Lets what was written to the length counter take effect. -/
def reloadLength (p : Pulse) : Pulse :=
  { p with envelope := { p.envelope with length := p.envelope.length.reload } }

/-- Counts cycles from zero again. -/
def endFrame (p : Pulse) : Pulse := { p with timer := p.timer.endFrame }

/-- Writes one of the four registers. -/
def write (p : Pulse) (register : UInt16) (data : UInt8) (m : Mixer) : Pulse × Mixer :=
  match register with
  | 0 => p.writeControl data m
  | 1 => p.writeSweep data m
  | 2 => p.writePeriodLow data m
  | _ => p.writePeriodHigh data m

instance : SoundChannel Pulse := ⟨write, setEnabled, run, endFrame, reset, isActive⟩

end Pulse

end Famicom
