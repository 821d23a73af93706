/-
  The two television regions the console was built for.

  A region fixes every number that depends on the television standard: the master clock and its two
  dividers, the rows of a picture, the time the picture unit needs after power-on and the rate of the
  processor.  Tables that belong to one circuit (the rates of the noise generator, say) are kept with
  that circuit and indexed by `Region`.
-/

namespace Famicom

/-- The television standard a console is built for. -/
inductive Region where
  /-- 60 Hz, 262 rows. -/
  | ntsc
  /-- 50 Hz, 312 rows. -/
  | pal
  deriving DecidableEq, Repr, Inhabited

namespace Region

/-- Master clock cycles in one picture. -/
def frameCycles : Region → Nat
  | ntsc => 357368
  | pal => 531960

/-- Master clock cycles to one processor cycle. -/
def cpuDivider : Region → Nat
  | ntsc => 12
  | pal => 16

/-- Master clock cycles to one dot of the picture. -/
def dotDivider : Region → Nat
  | ntsc => 4
  | pal => 5

/-- Pictures per second, as a decimal fraction. -/
def frameRate : Region → String
  | ntsc => "60.0988"
  | pal => "50.007"

/-- Processor cycles per second. -/
def cpuRate : Region → UInt32
  | ntsc => 1789773
  | pal => 1662607

/-- The row on whose second dot vertical blank begins. -/
def vblankRow : Region → UInt16
  | ntsc => 241
  | pal => 291

/-- The last row of a picture, on which the tiles of the first visible row are fetched. -/
def prerenderRow : Region → UInt16
  | ntsc => 261
  | pal => 311

/-- Dots that pass after power-on before the picture unit starts to work. -/
def warmUpDots : Region → Nat
  | ntsc => 88974
  | pal => 106022

/-- The name of the television standard. -/
def name : Region → String
  | ntsc => "NTSC"
  | pal => "PAL"

/-- The name by which a region is chosen in a configuration. -/
def key : Region → String
  | ntsc => "ntsc"
  | pal => "pal"

/-- The region chosen by a name. -/
def ofKey? : String → Option Region
  | "ntsc" => some ntsc
  | "pal" => some pal
  | _ => none

theorem ofKey?_key (r : Region) : ofKey? r.key = some r := by cases r <;> rfl

theorem cpuDivider_pos (r : Region) : 0 < r.cpuDivider := by cases r <;> decide

theorem dotDivider_pos (r : Region) : 0 < r.dotDivider := by cases r <;> decide

end Region

end Famicom
