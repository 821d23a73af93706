/-
  The sound unit: five channels, the frame counter that clocks them and the mixer they play to.

  Registers are at `$4000` to `$4017`.  Before a register is touched the unit is brought up to date
  (`catchUp`), so what it does to a channel happens at its own cycle.  `process` is one processor
  cycle; the last of an audio frame ends the frame, which may fail if the samples of earlier frames
  were not taken.
-/
import Famicom.Sound.Dmc
import Famicom.Sound.FrameCounter
import Famicom.Sound.Noise
import Famicom.Sound.Pulse
import Famicom.Sound.Triangle

namespace Famicom

/-- The sound unit. -/
structure Sound where
  region : Region
  pulse1 : Pulse
  pulse2 : Pulse
  triangle : Triangle
  noise : Noise
  dmc : Dmc
  frameCounter : FrameCounter
  mixer : Mixer
  /-- Cycles of the audio frame that have passed. -/
  current : Nat
  /-- Cycles of it that the channels have been brought up to. -/
  previous : Nat

namespace Sound

/-- The sound unit at power-on. -/
def new (region : Region) (settings : MixerSettings) : Except ResampleError Sound := do
  let mixer ← Mixer.new region settings
  return { region, pulse1 := .first, pulse2 := .second, triangle := {}, noise := .new region,
           dmc := .new region, frameCounter := .new region, mixer, current := 0, previous := 0 }

/-- What a quarter frame clocks. -/
def clockQuarter (s : Sound) : Sound :=
  { s with
    pulse1 := s.pulse1.clockEnvelope
    pulse2 := s.pulse2.clockEnvelope
    triangle := s.triangle.clockLinear
    noise := s.noise.clockEnvelope }

/-- What a half frame clocks besides. -/
def clockHalf (s : Sound) : Sound :=
  { s with
    pulse1 := s.pulse1.clockLength.clockSweep
    pulse2 := s.pulse2.clockLength.clockSweep
    triangle := s.triangle.clockLength
    noise := s.noise.clockLength }

/-- Clocks what an event of the frame counter clocks. -/
def clock (s : Sound) : Option FrameEvent → Sound
  | none => s
  | some .quarter => s.clockQuarter
  | some .half => s.clockQuarter.clockHalf

/-- Lets what was written to the length counters take effect. -/
def reloadLengths (s : Sound) : Sound :=
  { s with
    pulse1 := s.pulse1.reloadLength
    pulse2 := s.pulse2.reloadLength
    triangle := s.triangle.reloadLength
    noise := s.noise.reloadLength }

/-- Brings the channels up to the cycle the unit stands at. -/
def runChannels (s : Sound) : Sound :=
  let { region, pulse1, pulse2, triangle, noise, dmc, frameCounter, mixer, current, previous } := s
  let (pulse1, mixer) := pulse1.run previous mixer
  let (pulse2, mixer) := pulse2.run previous mixer
  let (noise, mixer) := noise.run previous mixer
  let (triangle, mixer) := triangle.run previous mixer
  let (dmc, mixer) := dmc.run previous mixer
  { region, pulse1, pulse2, triangle, noise, dmc, frameCounter, mixer, current, previous }

/-- What one run of the frame counter brings about. -/
def advance (cycles : Nat) (event : Option FrameEvent) (s : Sound) : Sound :=
  ({ s with previous := s.previous + cycles }.clock event).reloadLengths.runChannels

/-- Brings the unit up to date. -/
def catchUp (s : Sound) : Sound :=
  let frameCounter := s.frameCounter
  let (frameCounter, s) := frameCounter.drive advance (s.current - s.previous) s
  { s with frameCounter }

/-- Ends the audio frame.  The channels count from zero again even where the mixer refuses. -/
def endFrame (s : Sound) : Except ResampleError Unit × Sound :=
  let s := s.catchUp
  let s := { s with
    pulse1 := s.pulse1.endFrame, pulse2 := s.pulse2.endFrame, triangle := s.triangle.endFrame
    noise := s.noise.endFrame, dmc := s.dmc.endFrame }
  match s.mixer.playFrame s.current with
  | (.ok _, mixer) => (.ok (), { s with mixer, current := 0, previous := 0 })
  | (.error e, mixer) => (.error e, { s with mixer })

/-- One processor cycle.  In the last of an audio frame the wait of the delta modulation channel
    stands still. -/
def process (s : Sound) : Except ResampleError Unit × Sound :=
  let s := { s with current := s.current + 1 }
  if s.mixer.settings.cycleLength.toNat - 1 ≤ s.current then s.endFrame
  else (.ok (), { s with dmc := s.dmc.tickStartDelay }.catchUp)

/-- Whether the frame counter's interrupt is raised. -/
def frameIrq (s : Sound) : Bool := s.frameCounter.irq

/-- Whether the delta modulation channel's interrupt is raised. -/
def dmcIrq (s : Sound) : Bool := s.dmc.irq

/-- Whether an interrupt is raised. -/
def irqPending (s : Sound) : Bool := s.frameIrq || s.dmcIrq

/-- The address of the byte that the delta modulation channel asks for, if it does. -/
def takeDmcRequest (s : Sound) : Option UInt16 × Sound :=
  let (address, dmc) := s.dmc.takeRequest
  (address, { s with dmc })

/-- Hands a byte to the delta modulation channel. -/
def fillDmc (s : Sound) (value : UInt8) : Sound := { s with dmc := s.dmc.fill value }

/-- Hands out the finished samples. -/
def takeSamples (s : Sound) : Array Int × Sound :=
  let (samples, mixer) := s.mixer.takeSamples
  (samples, { s with mixer })

/-- Switches to another region.  If the mixer refuses, only the names of the region have changed. -/
def setRegion (s : Sound) (region : Region) : Except ResampleError Unit × Sound :=
  let s := { s with region }
  match s.mixer.setRegion region with
  | (.error e, mixer) => (.error e, { s with mixer })
  | (.ok _, mixer) =>
    let s := { s with mixer, dmc := s.dmc.setRegion region, noise := s.noise.setRegion region }
    let s := s.catchUp
    (.ok (), { s with frameCounter := s.frameCounter.setRegion region })

/-- Goes back to the state at power-on. -/
def reset (s : Sound) : Except ResampleError Unit × Sound :=
  let (result, mixer) := s.mixer.reset
  (result, { s with
    pulse1 := s.pulse1.reset, pulse2 := s.pulse2.reset, triangle := s.triangle.reset
    noise := s.noise.reset, dmc := s.dmc.reset, frameCounter := s.frameCounter.reset
    mixer, current := 0, previous := 0 })

/-- A bit of the status register. -/
def statusBit (on : Bool) (mask : UInt8) : UInt8 := if on then mask else 0

/-- The status register: which channels are active and which interrupts are raised. -/
def status (s : Sound) : UInt8 :=
  statusBit s.pulse1.isActive 0x01 ||| statusBit s.pulse2.isActive 0x02 |||
    statusBit s.triangle.isActive 0x04 ||| statusBit s.noise.isActive 0x08 |||
    statusBit s.dmc.isActive 0x10 ||| statusBit s.frameIrq 0x40 ||| statusBit s.dmcIrq 0x80

/-- Reads a register.  Only the status can be read, which acknowledges the frame interrupt. -/
def read (s : Sound) (addr : UInt16) : UInt8 × Sound :=
  let s := s.catchUp
  if addr = 0x4015 then (s.status, { s with frameCounter := s.frameCounter.clearIrq })
  else (0, s)

/-- Enables and disables channels, one bit each; acknowledges the delta modulation channel's
    interrupt. -/
def writeEnable (s : Sound) (data : UInt8) : Sound :=
  { s with
    pulse1 := s.pulse1.setEnabled (data &&& 0x01 != 0)
    pulse2 := s.pulse2.setEnabled (data &&& 0x02 != 0)
    triangle := s.triangle.setEnabled (data &&& 0x04 != 0)
    noise := s.noise.setEnabled (data &&& 0x08 != 0)
    dmc := { s.dmc with irq := false }.setEnabled (data &&& 0x10 != 0) }

/-- Writes a register of a unit that is up to date: four for each channel, then the one that enables
    them and the frame counter's. -/
def writeRegister (s : Sound) (addr : UInt16) (data : UInt8) : Sound :=
  let register := addr &&& 0x03
  match addr >>> (2 : UInt16) with
  | 0x1000 =>
    let (pulse1, mixer) := s.pulse1.write register data s.mixer
    { s with pulse1, mixer }
  | 0x1001 =>
    let (pulse2, mixer) := s.pulse2.write register data s.mixer
    { s with pulse2, mixer }
  | 0x1002 =>
    let (triangle, mixer) := s.triangle.write register data s.mixer
    { s with triangle, mixer }
  | 0x1003 =>
    let (noise, mixer) := s.noise.write register data s.mixer
    { s with noise, mixer }
  | 0x1004 =>
    let (dmc, mixer) := s.dmc.write register data s.mixer
    { s with dmc, mixer }
  | _ =>
    if addr = 0x4015 then s.writeEnable data
    else if addr = 0x4017 then { s with frameCounter := s.frameCounter.writeControl data }
    else s

/-- Writes a register. -/
def write (s : Sound) (addr : UInt16) (data : UInt8) : Sound := s.catchUp.writeRegister addr data

end Sound

end Famicom
