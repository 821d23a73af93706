/-
  The mixer: five channel levels, mixed without regard to loudness, sent on as steps to the resampler.

  Changes of level are noted with the processor cycle they happen at (`addDelta`) and are carried out
  when an audio frame ends (`endFrame`): in order of time, all changes of one cycle together, each such
  moment as one step of the mixed level.  A frame that the resampler refuses half-way leaves the moments
  it has dealt with behind as moments without a change, so that none is carried out twice.
-/
import Famicom.Region
import Famicom.Resampler.Basic

namespace Famicom

/-- The five sound channels. -/
inductive Channel where
  | pulse1 | pulse2 | triangle | noise | dmc
  deriving DecidableEq, Repr

namespace Channel

/-- Every channel once. -/
def all : List Channel := [.pulse1, .pulse2, .triangle, .noise, .dmc]

/-- The usual name of a channel. -/
def name : Channel → String
  | pulse1 => "pulse1"
  | pulse2 => "pulse2"
  | triangle => "triangle"
  | noise => "noise"
  | dmc => "dmc"

/-- The channel of a name. -/
def ofName? (name : String) : Option Channel := all.find? fun c => c.name == name

end Channel

/-- One level, or change of level, for each channel. -/
structure Levels where
  pulse1 : Int16 := 0
  pulse2 : Int16 := 0
  triangle : Int16 := 0
  noise : Int16 := 0
  dmc : Int16 := 0
  deriving DecidableEq, Repr, Inhabited

namespace Levels

instance : Add Levels where
  add a b :=
    { pulse1 := a.pulse1 + b.pulse1, pulse2 := a.pulse2 + b.pulse2,
      triangle := a.triangle + b.triangle, noise := a.noise + b.noise, dmc := a.dmc + b.dmc }

/-- The change of one channel alone. -/
def single (c : Channel) (amount : Int16) : Levels :=
  match c with
  | .pulse1 => { pulse1 := amount }
  | .pulse2 => { pulse2 := amount }
  | .triangle => { triangle := amount }
  | .noise => { noise := amount }
  | .dmc => { dmc := amount }

/-- The level of a channel. -/
def get (l : Levels) : Channel → Int16
  | .pulse1 => l.pulse1
  | .pulse2 => l.pulse2
  | .triangle => l.triangle
  | .noise => l.noise
  | .dmc => l.dmc

theorem get_add (a b : Levels) (c : Channel) : (a + b).get c = a.get c + b.get c := by
  cases c <;> rfl

/-- The level of channels that share one resistor network: `scale / (divisor / sum + 100)` without
    its fraction. -/
def groupVolume (scale divisor sum : Int) : Int := (scale * sum).tdiv (divisor + 100 * sum)

/-- The mixed level.  The pulse channels form one network; triangle, noise and DMC, weighed 3 to 2 to
    1, form the other. -/
def volume (l : Levels) : Int16 :=
  let pulse := l.pulse1.toInt + l.pulse2.toInt
  let others := 3 * l.triangle.toInt + 2 * l.noise.toInt + l.dmc.toInt
  Int16.ofInt (groupVolume 477600 8128 pulse + groupVolume 818350 24329 others)

end Levels

/-- A moment at which levels change. -/
structure LevelChange where
  cycle : Nat
  amounts : Levels
  deriving DecidableEq, Repr

namespace LevelChange

/-- Puts neighbours of the same cycle together. -/
def merge : List LevelChange → List LevelChange
  | [] => []
  | c :: rest =>
    match merge rest with
    | [] => [c]
    | d :: rest =>
      if c.cycle = d.cycle then ⟨c.cycle, c.amounts + d.amounts⟩ :: rest else c :: d :: rest

/-- The moments of a frame in order of time, each cycle once. -/
def inOrder (changes : List LevelChange) : List LevelChange :=
  merge (changes.mergeSort fun c d => c.cycle ≤ d.cycle)

end LevelChange

/-- What the mixer is set up with. -/
structure MixerSettings where
  /-- Output samples per second. -/
  sampleRate : UInt32 := 96000
  /-- Processor cycles in an audio frame. -/
  cycleLength : UInt32 := 10000
  /-- How many output samples are kept for the caller. -/
  bufferSamples : UInt64 := 2048
  deriving DecidableEq, Repr, Inhabited

/-- The mixer. -/
structure Mixer where
  region : Region
  settings : MixerSettings
  /-- Changes noted since the last audio frame, the latest last. -/
  pending : Array LevelChange
  levels : Levels
  /-- The mixed level that the resampler was last brought to. -/
  lastOutput : Int
  resampler : Resampler
  /-- Finished samples, in units of 1/32768. -/
  output : Array Int

namespace Mixer

/-- A silent mixer. -/
def new (region : Region) (settings : MixerSettings) : Except ResampleError Mixer := do
  let resampler ← Resampler.new settings.bufferSamples.toNat
  let resampler ← resampler.setRates region.cpuRate settings.sampleRate
  return { region, settings, pending := #[], levels := {}, lastOutput := 0, resampler,
           output := #[] }

/-- Sets the resampler to the rates in effect. -/
def retune (m : Mixer) : Except ResampleError Unit × Mixer :=
  match m.resampler.setRates m.region.cpuRate m.settings.sampleRate with
  | .ok resampler => (.ok (), { m with resampler })
  | .error e => (.error e, m)

/-- Follows the processor to the clock of another region. -/
def setRegion (m : Mixer) (region : Region) : Except ResampleError Unit × Mixer :=
  { m with region }.retune

/-- Notes a change of a channel's level.  Nothing is noted past the end of the audio frame. -/
def addDelta (m : Mixer) (channel : Channel) (cycle : Nat) (amount : Int16) : Mixer :=
  if amount = 0 ∨ m.settings.cycleLength.toNat ≤ cycle then m
  else { m with pending := m.pending.push ⟨cycle, .single channel amount⟩ }

/-- The mixed level of the channels as they are. -/
def outputVolume (m : Mixer) : Int16 := m.levels.volume

/-- Carries out one moment's changes and sends the step of the mixed level on. -/
def applyChange (m : Mixer) (c : LevelChange) : Except ResampleError Unit × Mixer :=
  let m := { m with levels := m.levels + c.amounts }
  let output := m.outputVolume.toInt * 4
  match m.resampler.addStep (.ofNat c.cycle) (Int32.ofInt (output - m.lastOutput)) with
  | .ok resampler => (.ok (), { m with resampler, lastOutput := output })
  | .error e => (.error e, m)

/-- Carries out moments in order until one is refused; `past` are those already dealt with, the
    latest first.  After a refusal all moments are kept, those dealt with as moments without a
    change. -/
def applyChanges (m : Mixer) (past : List LevelChange) :
    List LevelChange → Except ResampleError Unit × Mixer
  | [] => (.ok (), { m with pending := #[] })
  | c :: rest =>
    let past := { c with amounts := {} } :: past
    match m.applyChange c with
    | (.ok _, m) => applyChanges m past rest
    | (.error e, m) => (.error e, { m with pending := (past.reverse ++ rest).toArray })

/-- Ends an audio frame of the given length. -/
def endFrame (m : Mixer) (time : Nat) : Except ResampleError Unit × Mixer :=
  match m.applyChanges [] (LevelChange.inOrder m.pending.toList) with
  | (.ok _, m) =>
    match m.resampler.endFrame (.ofNat time) with
    | .ok resampler => (.ok (), { m with resampler })
    | .error e => (.error e, m)
  | refused => refused

/-- Ends an audio frame and moves as many samples as there is room for to the output. -/
def playFrame (m : Mixer) (time : Nat) : Except ResampleError Unit × Mixer :=
  match m.endFrame time with
  | (.ok _, m) =>
    let (samples, resampler) :=
      m.resampler.read (m.settings.bufferSamples.toNat - m.output.size)
    (.ok (), { m with resampler, output := m.output ++ samples })
  | refused => refused

/-- Hands out the finished samples. -/
def takeSamples (m : Mixer) : Array Int × Mixer := (m.output, { m with output := #[] })

/-- Samples that wait in the resampler. -/
def pendingSamples (m : Mixer) : Nat := m.resampler.available

/-- Drops all levels, changes and samples. -/
def reset (m : Mixer) : Except ResampleError Unit × Mixer :=
  { m with output := #[], lastOutput := 0, resampler := m.resampler.clear, pending := #[],
           levels := {} }.retune

end Mixer

end Famicom
