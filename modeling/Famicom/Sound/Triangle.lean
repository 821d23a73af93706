/-
  The triangle channel: 32 fixed levels down and up again, gated by two counters.
-/
import Famicom.Sound.LengthCounter
import Famicom.Sound.LinearCounter
import Famicom.Sound.Timer

namespace Famicom

/-- The triangle channel. -/
structure Triangle where
  timer : Timer := {}
  voice : Voice := { channel := .triangle }
  length : LengthCounter := {}
  linear : LinearCounter := {}
  position : UInt8 := 0
  deriving DecidableEq, Repr

namespace Triangle

/-- The levels of the wave. -/
def sequence : Vector UInt8 32 := #v[
  15, 14, 13, 12, 11, 10, 9, 8, 7, 6, 5, 4, 3, 2, 1, 0,
  0, 1, 2, 3, 4, 5, 6, 7, 8, 9, 10, 11, 12, 13, 14, 15]

/-- The channel at power-on. -/
def reset (_ : Triangle) : Triangle := {}

/-- Whether the length counter is running. -/
def isActive (t : Triangle) : Bool := t.length.isActive

/-- Sets the period. -/
def setPeriod (t : Triangle) (period : UInt16) : Triangle :=
  { t with timer := { t.timer with period } }

/-- Writes the linear counter, whose control flag halts the length counter. -/
def writeControl (t : Triangle) (data : UInt8) : Triangle :=
  let linear := t.linear.writeControl data
  { t with linear, length := t.length.setHalt linear.control }

/-- Writes the lower byte of the period. -/
def writePeriodLow (t : Triangle) (data : UInt8) : Triangle :=
  t.setPeriod ((t.timer.period &&& 0xFF00) ||| data.toUInt16)

/-- Writes the upper bits of the period and loads both counters. -/
def writePeriodHigh (t : Triangle) (data : UInt8) : Triangle :=
  let t := t.setPeriod
    ((t.timer.period &&& 0x00FF) ||| ((data.toUInt16 &&& 0x07) <<< (8 : UInt16)))
  { t with length := t.length.load (data >>> 3), linear := t.linear.setReloadFlag }

/-- Enables or disables the channel. -/
def setEnabled (t : Triangle) (enabled : Bool) : Triangle :=
  { t with length := t.length.setEnabled enabled }

/-- The level of the point of the wave that the channel is at. -/
def level (t : Triangle) : Int16 :=
  have : t.position.toNat % 32 < 32 := Nat.mod_lt _ (by decide)
  Int16.ofNat sequence[t.position.toNat % 32].toNat

/-- The timer expires: the next point of the wave, if both counters run.  At periods below 2, which are
    too fast to hear, the mixer is not told. -/
def expire (cycle : Nat) (s : Triangle × Mixer) : Triangle × Mixer :=
  let (t, m) := s
  if t.length.isActive ∧ t.linear.isActive then
    let t := { t with position := (t.position + 1) &&& 0x1F }
    if 2 ≤ t.timer.period then
      let (voice, m) := t.voice.set cycle t.level m
      ({ t with voice }, m)
    else (t, m)
  else (t, m)

/-- Brings the channel up to a cycle. -/
def run (t : Triangle) (target : Nat) (m : Mixer) : Triangle × Mixer :=
  let (timer, t, m) := t.timer.drive expire target (t, m)
  ({ t with timer }, m)

/-- A quarter frame. -/
def clockLinear (t : Triangle) : Triangle := { t with linear := t.linear.clock }

/-- A half frame. -/
def clockLength (t : Triangle) : Triangle := { t with length := t.length.clock }

/-- Lets what was written to the length counter take effect. -/
def reloadLength (t : Triangle) : Triangle := { t with length := t.length.reload }

/-- Counts cycles from zero again. -/
def endFrame (t : Triangle) : Triangle := { t with timer := t.timer.endFrame }

/-- Writes one of the four registers. -/
def write (t : Triangle) (register : UInt16) (data : UInt8) (m : Mixer) : Triangle × Mixer :=
  match register with
  | 0 => (t.writeControl data, m)
  | 1 => (t, m)
  | 2 => (t.writePeriodLow data, m)
  | _ => (t.writePeriodHigh data, m)

instance : SoundChannel Triangle := ⟨write, setEnabled, run, endFrame, reset, isActive⟩

end Triangle

end Famicom
