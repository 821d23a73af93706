/-
  The delta modulation channel: plays one-bit differences that it fetches from memory.

  The channel asks for a byte (`requested`) whenever its buffer is empty and bytes of the sample are
  left; its owner fetches the byte and hands it in (`fill`).  A sample that was just enabled waits for
  two cycles before it asks.
-/
import Famicom.Sound.Timer

namespace Famicom

/-- The delta modulation channel. -/
structure Dmc where
  /-- The region whose rates the channel uses. -/
  region : Region
  timer : Timer := {}
  voice : Voice := { channel := .dmc }
  irqEnabled : Bool := false
  loops : Bool := false
  irq : Bool := false
  /-- Where the sample begins, and how many bytes it has. -/
  sampleAddress : UInt16 := 0xC000
  sampleLength : Nat := 1
  /-- The byte to be fetched next, and how many are left. -/
  address : UInt16 := 0
  bytesLeft : Nat := 0
  /-- The byte fetched and not played yet. -/
  buffer : Option UInt8 := none
  shift : UInt8 := 0
  bitsLeft : Nat := 8
  level : UInt8 := 0
  silent : Bool := true
  startDelay : Nat := 0
  requested : Bool := false
  deriving DecidableEq, Repr

namespace Dmc

/-- The sixteen periods. -/
def periods : Region → Vector UInt16 16
  | .ntsc => #v[428, 380, 340, 320, 286, 254, 226, 214, 190, 160, 142, 128, 106, 84, 72, 54]
  | .pal => #v[398, 354, 316, 298, 276, 236, 210, 198, 176, 148, 132, 118, 98, 78, 66, 50]

/-- The timer period for a rate. -/
def periodOf (region : Region) (data : UInt8) : UInt16 :=
  have := Timer.rate_lt data
  (periods region)[data.toNat % 16] - 1

/-- The channel at power-on. -/
def new (region : Region) : Dmc :=
  let period := periodOf region 0
  { region, timer := { period, counter := period.toNat } }

/-- The channel at power-on, in the same region. -/
def reset (d : Dmc) : Dmc := new d.region

/-- Takes the rates of another region, from the next one written. -/
def setRegion (d : Dmc) (region : Region) : Dmc := { d with region }

/-- Writes the rate, the loop flag and the interrupt flag; clearing the last acknowledges. -/
def writeControl (d : Dmc) (data : UInt8) : Dmc :=
  let irqEnabled := data &&& 0x80 != 0
  { d with
    irqEnabled
    loops := data &&& 0x40 != 0
    timer := { d.timer with period := periodOf d.region data }
    irq := d.irq && irqEnabled }

/-- Tells the mixer of the level at the given cycle. -/
def updateAt (d : Dmc) (cycle : Nat) (m : Mixer) : Dmc × Mixer :=
  let (voice, m) := d.voice.set cycle (Int16.ofNat d.level.toNat) m
  ({ d with voice }, m)

/-- Writes the level directly. -/
def writeLevel (d : Dmc) (data : UInt8) (m : Mixer) : Dmc × Mixer :=
  { d with level := data &&& 0x7F }.updateAt d.timer.previous m

/-- Writes where the next sample begins. -/
def writeAddress (d : Dmc) (data : UInt8) : Dmc :=
  { d with sampleAddress := 0xC000 ||| (data.toUInt16 <<< (6 : UInt16)) }

/-- Writes how long the next sample is. -/
def writeLength (d : Dmc) (data : UInt8) : Dmc := { d with sampleLength := data.toNat * 16 + 1 }

/-- Starts the sample from its beginning. -/
def startSample (d : Dmc) : Dmc :=
  { d with address := d.sampleAddress, bytesLeft := d.sampleLength }

/-- Starts the sample if none is being played, or drops what is left of it. -/
def setEnabled (d : Dmc) (enabled : Bool) : Dmc :=
  if !enabled then { d with bytesLeft := 0 }
  else if d.bytesLeft = 0 then { d.startSample with startDelay := 2 }
  else d

/-- Asks for a byte, if there is room for it and one is left. -/
def askForByte (d : Dmc) : Dmc :=
  if d.buffer.isNone ∧ 0 < d.bytesLeft then { d with requested := true } else d

/-- One cycle of the wait after the sample was started. -/
def tickStartDelay (d : Dmc) : Dmc :=
  match d.startDelay with
  | 0 => d
  | 1 => { d with startDelay := 0 }.askForByte
  | n + 2 => { d with startDelay := n + 1 }

/-- The address of the byte asked for, if one is; asking ends with the answer. -/
def takeRequest (d : Dmc) : Option UInt16 × Dmc :=
  if d.requested then (some d.address, { d with requested := false }) else (none, d)

/-- The address after this one; after the last comes the beginning of the upper half. -/
def nextAddress (address : UInt16) : UInt16 := if address + 1 = 0 then 0x8000 else address + 1

/-- The end of a sample: it begins again or raises the interrupt, as chosen. -/
def endSample (d : Dmc) : Dmc :=
  if d.loops then d.startSample else if d.irqEnabled then { d with irq := true } else d

/-- Takes a byte that was fetched, unless no more are left. -/
def fill (d : Dmc) (value : UInt8) : Dmc :=
  if d.bytesLeft = 0 then d
  else
    let d := { d with buffer := some value, address := nextAddress d.address,
                      bytesLeft := d.bytesLeft - 1 }
    if d.bytesLeft = 0 then d.endSample else d

/-- Whether bytes of the sample are left. -/
def isActive (d : Dmc) : Bool := 0 < d.bytesLeft

/-- The level two up or down, by a bit of the sample, where it stays in range. -/
def nextLevel (level : UInt8) (up : Bool) : UInt8 :=
  if up then if level ≤ 125 then level + 2 else level
  else if 2 ≤ level then level - 2 else level

/-- Plays one bit, unless the channel has nothing to play. -/
def playBit (d : Dmc) : Dmc :=
  if d.silent then d
  else { d with level := nextLevel d.level (d.shift &&& 0x01 != 0), shift := d.shift >>> 1 }

/-- Begins the next byte, or is silent for the time of one if none is there. -/
def nextByte (d : Dmc) : Dmc :=
  match d.buffer with
  | none => { d with silent := true }
  | some byte => { d with silent := false, shift := byte, buffer := none }.askForByte

/-- The timer expires: one bit, and after eight of them the next byte. -/
def expire (cycle : Nat) (s : Dmc × Mixer) : Dmc × Mixer :=
  let d := s.1.playBit
  let d := if d.bitsLeft = 1 then { d with bitsLeft := 8 }.nextByte
    else { d with bitsLeft := d.bitsLeft - 1 }
  d.updateAt cycle s.2

/-- Brings the channel up to a cycle. -/
def run (d : Dmc) (target : Nat) (m : Mixer) : Dmc × Mixer :=
  let (timer, d, m) := d.timer.drive expire target (d, m)
  ({ d with timer }, m)

/-- Counts cycles from zero again. -/
def endFrame (d : Dmc) : Dmc := { d with timer := d.timer.endFrame }

/-- Writes one of the four registers. -/
def write (d : Dmc) (register : UInt16) (data : UInt8) (m : Mixer) : Dmc × Mixer :=
  match register with
  | 0 => (d.writeControl data, m)
  | 1 => d.writeLevel data m
  | 2 => (d.writeAddress data, m)
  | _ => (d.writeLength data, m)

instance : SoundChannel Dmc := ⟨write, setEnabled, run, endFrame, reset, isActive⟩

end Dmc

end Famicom
