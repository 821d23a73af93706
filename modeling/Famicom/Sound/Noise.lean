/-
  The noise channel: a shift register whose lowest bit gates an envelope.
-/
import Famicom.Sound.Envelope
import Famicom.Sound.Timer

namespace Famicom

/-- The noise channel. -/
structure Noise where
  /-- The region whose rates the channel uses. -/
  region : Region
  timer : Timer := {}
  voice : Voice := { channel := .noise }
  envelope : Envelope := {}
  shift : UInt16 := 1
  /-- Whether the short sequence is played. -/
  short : Bool := false
  deriving DecidableEq, Repr

namespace Noise

/-- The sixteen periods. -/
def periods : Region → Vector UInt16 16
  | .ntsc => #v[4, 8, 16, 32, 64, 96, 128, 160, 202, 254, 380, 508, 762, 1016, 2034, 4068]
  | .pal => #v[4, 8, 14, 30, 60, 88, 118, 148, 188, 236, 354, 472, 708, 944, 1890, 3778]

/-- The timer period for a rate. -/
def periodOf (region : Region) (data : UInt8) : UInt16 :=
  have := Timer.rate_lt data
  (periods region)[data.toNat % 16] - 1

/-- The channel at power-on. -/
def new (region : Region) : Noise := { region, timer := { period := periodOf region 0 } }

/-- The channel at power-on, in the same region. -/
def reset (n : Noise) : Noise := new n.region

/-- Takes the rates of another region, from the next one written. -/
def setRegion (n : Noise) (region : Region) : Noise := { n with region }

/-- Whether the shift register silences the channel. -/
def isMuted (n : Noise) : Bool := n.shift &&& 0x01 != 0

/-- Whether the length counter is running. -/
def isActive (n : Noise) : Bool := n.envelope.length.isActive

/-- Writes the envelope. -/
def writeControl (n : Noise) (data : UInt8) : Noise :=
  { n with envelope := n.envelope.writeControl data }

/-- Writes the rate and which sequence is played. -/
def writePeriod (n : Noise) (data : UInt8) : Noise :=
  { n with timer := { n.timer with period := periodOf n.region data }
           short := data &&& 0x80 != 0 }

/-- Loads the length counter; the envelope starts anew. -/
def writeLength (n : Noise) (data : UInt8) : Noise :=
  let envelope := { n.envelope with length := n.envelope.length.load (data >>> 3) }
  { n with envelope := envelope.restart }

/-- Enables or disables the channel. -/
def setEnabled (n : Noise) (enabled : Bool) : Noise :=
  { n with envelope := { n.envelope with length := n.envelope.length.setEnabled enabled } }

/-- The shift register one step on: the new top bit is bit 0 and one other, added. -/
def nextShift (n : Noise) : UInt16 :=
  let other := n.shift >>> (if n.short then 6 else 1)
  (n.shift >>> (1 : UInt16)) ||| (((n.shift ^^^ other) &&& 0x01) <<< (14 : UInt16))

/-- The level of the channel. -/
def level (n : Noise) : Int16 := if n.isMuted then 0 else Int16.ofNat n.envelope.volume.toNat

/-- The timer expires. -/
def expire (cycle : Nat) (s : Noise × Mixer) : Noise × Mixer :=
  let n := { s.1 with shift := s.1.nextShift }
  let (voice, m) := n.voice.set cycle n.level s.2
  ({ n with voice }, m)

/-- Brings the channel up to a cycle. -/
def run (n : Noise) (target : Nat) (m : Mixer) : Noise × Mixer :=
  let (timer, n, m) := n.timer.drive expire target (n, m)
  ({ n with timer }, m)

/-- A quarter frame. -/
def clockEnvelope (n : Noise) : Noise := { n with envelope := n.envelope.clock }

/-- A half frame. -/
def clockLength (n : Noise) : Noise :=
  { n with envelope := { n.envelope with length := n.envelope.length.clock } }

/-- Lets what was written to the length counter take effect. -/
def reloadLength (n : Noise) : Noise :=
  { n with envelope := { n.envelope with length := n.envelope.length.reload } }

/-- Counts cycles from zero again. -/
def endFrame (n : Noise) : Noise := { n with timer := n.timer.endFrame }

/-- Writes one of the four registers. -/
def write (n : Noise) (register : UInt16) (data : UInt8) (m : Mixer) : Noise × Mixer :=
  match register with
  | 0 => (n.writeControl data, m)
  | 1 => (n, m)
  | 2 => (n.writePeriod data, m)
  | _ => (n.writeLength data, m)

instance : SoundChannel Noise := ⟨write, setEnabled, run, endFrame, reset, isActive⟩

end Noise

end Famicom
