/-
  The envelope: the volume of a pulse or noise channel, constant or falling from 15, together with the
  channel's length counter, which shares its control register.
-/
import Famicom.Sound.LengthCounter

namespace Famicom

/-- An envelope. -/
structure Envelope where
  length : LengthCounter := {}
  constant : Bool := false
  /-- The constant volume, or the time between two steps of the falling one. -/
  period : UInt8 := 0
  /-- Starts the fall anew at the next clock. -/
  start : Bool := false
  divider : UInt8 := 0
  decay : UInt8 := 0
  deriving DecidableEq, Repr, Inhabited

namespace Envelope

/-- Writes the halt flag, the constant-volume flag and the volume. -/
def writeControl (e : Envelope) (data : UInt8) : Envelope :=
  { e with
    length := e.length.setHalt (data &&& 0x20 != 0)
    constant := data &&& 0x10 != 0
    period := data &&& 0x0F }

/-- Starts the fall anew at the next clock. -/
def restart (e : Envelope) : Envelope := { e with start := true }

/-- The volume, zero once the length counter has run out. -/
def volume (e : Envelope) : UInt8 :=
  if e.length.isActive then if e.constant then e.period else e.decay else 0

/-- The volume one step further down the fall, which begins again if the halt flag is set. -/
def nextDecay (e : Envelope) : UInt8 :=
  if 0 < e.decay then e.decay - 1 else if e.length.halt then 15 else e.decay

/-- One quarter frame: starts the fall, or counts the divider down to the next step of it. -/
def clock (e : Envelope) : Envelope :=
  if e.start then { e with start := false, decay := 15, divider := e.period }
  else if e.divider = 0 then { e with divider := e.period, decay := e.nextDecay }
  else { e with divider := e.divider - 1 }

end Envelope

end Famicom
