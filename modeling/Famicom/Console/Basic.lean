/-
  The console as its user sees it: a cartridge goes in, pictures and samples come out.

  A console runs by whole pictures or in small steps.  Pausing, stepping by instructions and switching
  the region all run on until the machine is settled, that is, between two instructions with no sprite
  transfer under way.  A program can keep the machine from ever settling, by asking for the next
  transfer within each instruction; the search for a settled state therefore has a bound.
-/
import Famicom.Console.Machine
import Famicom.Settings.Basic

namespace Famicom

/-- Why an operation on a console failed. -/
inductive ConsoleError where
  /-- The settings make no sense. -/
  | settings (e : InvalidSetting)
  /-- The sound unit refused. -/
  | audio (e : ResampleError)
  /-- The picture unit stands still. -/
  | picture (e : PictureFault)
  /-- The machine did not settle. -/
  | unsettled
  deriving DecidableEq, Repr

namespace ConsoleError

/-- The text of an error, if it has one. -/
def message? : ConsoleError → Option String
  | settings e => some e.message
  | audio e => some ("audio error: " ++ e.message)
  | picture _ => none
  | unsettled => none

/-- The error that a fault of the machine is. -/
def ofFault : MachineFault → ConsoleError
  | .sound e => audio e
  | .picture e => picture e

end ConsoleError

/-- A console with a cartridge in it. -/
structure Console (γ : Type) where
  clock : Clock
  machine : Machine γ
  settings : Settings
  paused : Bool

namespace Console

variable {γ : Type}

/-- A console at power-on. -/
def new (settings : Settings) (cartridge : γ) : Except ConsoleError (Console γ) := do
  settings.check.mapError .settings
  let sound ← (Sound.new settings.region settings.audio).mapError .audio
  let board := Mainboard.new (.new settings.region) sound cartridge
  return { clock := .new settings.region, machine := .new board, settings, paused := false }

/-- The region the console runs in. -/
def region (c : Console γ) : Region := c.clock.region

/-- The picture being drawn. -/
def frame (c : Console γ) : Frame := c.machine.board.picture.frame

/-- Pictures finished since power-on. -/
def frameCount (c : Console γ) : Nat := c.machine.pictures

/-- Does something with the board. -/
@[inline] def onBoard {α : Type} (c : Console γ) (f : Mainboard γ → α × Mainboard γ) :
    α × Console γ :=
  let { clock, machine, settings, paused } := c
  let { cpu, board, transfer, pictures } := machine
  let (a, board) := f board
  (a, { clock, machine := { cpu, board, transfer, pictures }, settings, paused })

/-- Does something with the processor. -/
def mapCpu (c : Console γ) (f : Processor → Processor) : Console γ :=
  { c with machine := { c.machine with cpu := f c.machine.cpu } }

/-- Hands out the finished samples. -/
def takeSamples (c : Console γ) : Array Int × Console γ := c.onBoard (·.onSound Sound.takeSamples)

/-- Ends a pause. -/
def resume (c : Console γ) : Console γ := { c with paused := false }

/-- Back to power-on, in the region of the settings.  If the sound unit refuses, the clock keeps its
    phase. -/
def reset (c : Console γ) : Except ConsoleError Unit × Console γ :=
  let { clock, machine, settings, paused } := c
  match machine.reset with
  | (.error e, machine) => (.error (.audio e), { clock, machine, settings, paused })
  | (.ok _, machine) =>
    (.ok (), { clock := .new settings.region, machine, settings, paused := false })

variable [Cartridge γ]

/-- Lets the clock run. -/
def run (pace : Pace) (c : Console γ) : Except ConsoleError Unit × Console γ :=
  let { clock, machine, settings, paused } := c
  let (result, clock, machine) := clock.run pace machine
  (result.mapError .ofFault, { clock, machine, settings, paused })

/-- Runs for the time of one picture and ends the audio frame. -/
def runFrame (c : Console γ) : Except ConsoleError Unit × Console γ :=
  match c.resume.run .frame with
  | (.ok _, c) =>
    let (result, c) := c.onBoard (·.onSound Sound.endFrame)
    (result.mapError .audio, c)
  | failed => failed

/-- Runs up to the next processor cycle. -/
def stepCpu (c : Console γ) : Except ConsoleError Unit × Console γ := c.run .cpuCycle

/-- Runs up to the next dot. -/
def stepDot (c : Console γ) : Except ConsoleError Unit × Console γ := c.run .dot

/-- Runs until the machine is settled, for at most so many processor cycles. -/
def settleWithin : Nat → Console γ → Except ConsoleError Unit × Console γ
  | 0, c => (if c.machine.isSettled then .ok () else .error .unsettled, c)
  | n + 1, c =>
    if c.machine.isSettled then (.ok (), c)
    else
      match c.stepCpu with
      | (.ok _, c) => settleWithin n c
      | failed => failed

/-- The bound on the cycles within which a machine is to settle: more than half an hour. -/
def settleBound : Nat := 1 <<< 32

/-- Runs until the machine is settled. -/
def settle (c : Console γ) : Except ConsoleError Unit × Console γ := settleWithin settleBound c

/-- Runs one instruction, with any transfer it causes. -/
def stepInstruction (c : Console γ) : Except ConsoleError Unit × Console γ :=
  match c.stepCpu with
  | (.ok _, c) => c.settle
  | failed => failed

/-- Finishes what is under way and pauses. -/
def pause (c : Console γ) : Except ConsoleError Unit × Console γ :=
  match c.settle with
  | (.ok _, c) => (.ok (), { c with paused := true })
  | failed => failed

/-- Pauses and switches to another region.  If the sound unit refuses, the settings keep the old
    one. -/
def setRegion (c : Console γ) (region : Region) : Except ConsoleError Unit × Console γ :=
  match c.pause with
  | (.ok _, { clock, machine, settings, paused }) =>
    let { cpu, board, transfer, pictures } := machine
    let board := { board with picture := board.picture.setRegion region }
    let (result, board) := board.onSound (·.setRegion region)
    let machine : Machine γ := { cpu, board, transfer, pictures }
    let clock := clock.setRegion region
    match result with
    | .ok _ => (.ok (), { clock, machine, settings := { settings with region }, paused })
    | .error e => (.error (.audio e), { clock, machine, settings, paused })
  | failed => failed

end Console

end Famicom
