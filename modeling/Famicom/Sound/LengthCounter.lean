/-
  The length counter: silences a channel after a number of half frames.

  A load and a change of the halt flag take effect only when the counter is next reloaded, and a load
  only if the counter did not move in between.  Disabling the channel puts the counter to zero, but
  leaves a value that is waiting, and the next reload still loads it.
-/

namespace Famicom

/-- The values a length counter can be loaded with. -/
def LengthCounter.table : Vector UInt8 32 := #v[
  10, 254, 20, 2, 40, 4, 80, 6, 160, 8, 60, 10, 14, 12, 26, 14,
  12, 16, 24, 18, 48, 20, 96, 22, 192, 24, 72, 26, 16, 28, 32, 30]

/-- A length counter. -/
structure LengthCounter where
  enabled : Bool := false
  halt : Bool := false
  /-- The halt flag as last written. -/
  nextHalt : Bool := false
  counter : UInt8 := 0
  /-- A value waiting to be loaded; none if zero. -/
  waiting : UInt8 := 0
  /-- What the counter was when `waiting` was written. -/
  seen : UInt8 := 0
  deriving DecidableEq, Repr, Inhabited

namespace LengthCounter

/-- Writes the halt flag, to take effect at the next reload. -/
def setHalt (l : LengthCounter) (halt : Bool) : LengthCounter := { l with nextHalt := halt }

/-- Chooses a value to be loaded at the next reload, if the counter is enabled. -/
def load (l : LengthCounter) (index : UInt8) : LengthCounter :=
  have : index.toNat % 32 < 32 := Nat.mod_lt _ (by decide)
  if l.enabled then { l with waiting := table[index.toNat % 32], seen := l.counter } else l

/-- Lets what was written take effect.  A value is dropped if the counter has moved since. -/
def reload (l : LengthCounter) : LengthCounter :=
  { l with
    counter := if 0 < l.waiting ∧ l.counter = l.seen then l.waiting else l.counter
    waiting := 0
    halt := l.nextHalt }

/-- Counts down, unless halted. -/
def clock (l : LengthCounter) : LengthCounter :=
  if 0 < l.counter ∧ l.halt = false then { l with counter := l.counter - 1 } else l

/-- Whether the channel may be heard. -/
def isActive (l : LengthCounter) : Bool := 0 < l.counter

/-- Enables the counter, or disables and clears it. -/
def setEnabled (l : LengthCounter) (enabled : Bool) : LengthCounter :=
  { l with enabled, counter := if enabled then l.counter else 0 }

end LengthCounter

end Famicom
