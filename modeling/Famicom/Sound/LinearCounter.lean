/-
  The linear counter: the triangle channel's second, finer length counter, clocked every quarter
  frame.
-/

namespace Famicom

/-- A linear counter. -/
structure LinearCounter where
  counter : UInt8 := 0
  reloadValue : UInt8 := 0
  /-- Keeps the reload flag set. -/
  control : Bool := false
  reloadFlag : Bool := false
  deriving DecidableEq, Repr, Inhabited

namespace LinearCounter

/-- Reloads or counts down, and drops the reload flag unless the control flag keeps it. -/
def clock (l : LinearCounter) : LinearCounter :=
  { l with
    counter := if l.reloadFlag then l.reloadValue
      else if 0 < l.counter then l.counter - 1 else l.counter
    reloadFlag := l.reloadFlag && l.control }

/-- Whether the channel may be heard. -/
def isActive (l : LinearCounter) : Bool := 0 < l.counter

/-- Writes the control flag and the value to reload. -/
def writeControl (l : LinearCounter) (data : UInt8) : LinearCounter :=
  { l with control := data &&& 0x80 != 0, reloadValue := data &&& 0x7F }

/-- Asks for a reload at the next clock. -/
def setReloadFlag (l : LinearCounter) : LinearCounter := { l with reloadFlag := true }

end LinearCounter

end Famicom
