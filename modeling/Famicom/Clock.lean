/-
  The master clock: two dividers that hand out processor cycles and picture dots.

  `Clock.run` counts master cycles and lets a driven system (`Clocked`) make one processor cycle
  whenever the processor divider wraps and one dot whenever the picture divider wraps.  A pace says
  how far one call goes: a whole picture, up to the next processor cycle, or up to the next dot.  The
  last two are whole numbers of master cycles known beforehand (`Clock.cyclesFor`), so every run is
  one walk over a counted stretch of master cycles and ends by that count.

  A driven system may fail.  The clock then stops where it is: the divider that wrapped has wrapped,
  and what the system was left with is handed back.
-/
import Famicom.Region

namespace Famicom

/-- A system that takes part in processor cycles and picture dots, each of which may fail.  The state
    is handed back in either case. -/
class Clocked (σ : Type) (ε : outParam Type) where
  /-- One processor cycle. -/
  cpuCycle : σ → Except ε Unit × σ
  /-- One dot of the picture. -/
  dot : σ → Except ε Unit × σ

/-- How far one run of the clock goes. -/
inductive Pace where
  /-- The master cycles of one picture. -/
  | frame
  /-- Up to and including the next processor cycle. -/
  | cpuCycle
  /-- Up to and including the next dot. -/
  | dot
  deriving DecidableEq, Repr

/-- The master clock: how many master cycles have passed since each divider last wrapped. -/
structure Clock where
  region : Region
  cpuPhase : Nat
  dotPhase : Nat
  deriving DecidableEq, Repr

namespace Clock

/-- The clock at power-on: both dividers start afresh. -/
def new (region : Region) : Clock := ⟨region, 0, 0⟩

/-- A clock for another region starts afresh. -/
def setRegion (_ : Clock) (region : Region) : Clock := new region

/-- Counts one master cycle in the processor divider; true if it wraps. -/
def advanceCpu (c : Clock) : Bool × Clock :=
  if c.cpuPhase + 1 = c.region.cpuDivider then (true, { c with cpuPhase := 0 })
  else (false, { c with cpuPhase := c.cpuPhase + 1 })

/-- Counts one master cycle in the picture divider; true if it wraps. -/
def advanceDot (c : Clock) : Bool × Clock :=
  if c.dotPhase + 1 = c.region.dotDivider then (true, { c with dotPhase := 0 })
  else (false, { c with dotPhase := c.dotPhase + 1 })

/-- Master cycles that a run at this pace takes: those of a picture, or those left until the divider
    in question wraps. -/
def cyclesFor (c : Clock) : Pace → Nat
  | .frame => c.region.frameCycles
  | .cpuCycle => c.region.cpuDivider - c.cpuPhase
  | .dot => c.region.dotDivider - c.dotPhase

section Run

variable {σ ε : Type} [Clocked σ ε]

/-- The processor's part of one master cycle. -/
def cpuTurn (c : Clock) (s : σ) : Except ε Unit × Clock × σ :=
  match c.advanceCpu with
  | (true, c) => let (r, s) := Clocked.cpuCycle s; (r, c, s)
  | (false, c) => (.ok (), c, s)

/-- The picture's part of one master cycle. -/
def dotTurn (c : Clock) (s : σ) : Except ε Unit × Clock × σ :=
  match c.advanceDot with
  | (true, c) => let (r, s) := Clocked.dot s; (r, c, s)
  | (false, c) => (.ok (), c, s)

/-- One master cycle.  Within it the processor comes first, except on the way to a processor cycle,
    where the picture does.  The second turn is not taken if the first fails. -/
def masterCycle (p : Pace) (c : Clock) (s : σ) : Except ε Unit × Clock × σ :=
  match p with
  | .cpuCycle =>
    match dotTurn c s with
    | (.ok _, c, s) => cpuTurn c s
    | failed => failed
  | _ =>
    match cpuTurn c s with
    | (.ok _, c, s) => dotTurn c s
    | failed => failed

/-- A counted stretch of master cycles, cut short by the first failure. -/
def runCycles (p : Pace) : Nat → Clock → σ → Except ε Unit × Clock × σ
  | 0, c, s => (.ok (), c, s)
  | n + 1, c, s =>
    match masterCycle p c s with
    | (.ok _, c, s) => runCycles p n c s
    | failed => failed

/-- Runs the system at the given pace. -/
def run (p : Pace) (c : Clock) (s : σ) : Except ε Unit × Clock × σ :=
  runCycles p (c.cyclesFor p) c s

end Run

end Clock

end Famicom
