/-
  A channel's timer, and the level a channel has last told the mixer.

  A timer counts processor cycles and expires every `period + 1` of them.  It is brought up to a cycle
  in one go: `Timer.advance` goes as far as the next expiry, `Timer.drive` does something at each expiry
  up to the cycle asked for.  Main statement: `advance_lt`, that an expiry lies ahead and not past the
  cycle asked for, which is why `drive` ends.
-/
import Famicom.Mixer

namespace Famicom

/-- A timer. -/
structure Timer where
  /-- The cycle it has been brought up to. -/
  previous : Nat := 0
  /-- Cycles until it expires, less one. -/
  counter : Nat := 0
  period : UInt16 := 0
  deriving DecidableEq, Repr, Inhabited

namespace Timer

/-- A rate is one of sixteen. -/
theorem rate_lt (data : UInt8) : data.toNat % 16 < 16 := Nat.mod_lt _ (by decide)

/-- Goes on to the next expiry, or else to the cycle asked for; true at an expiry. -/
def advance (t : Timer) (target : Nat) : Bool × Timer :=
  if t.counter < target - t.previous then
    (true, { t with previous := t.previous + t.counter + 1, counter := t.period.toNat })
  else (false, { t with previous := target, counter := t.counter - (target - t.previous) })

theorem advance_lt {t t' : Timer} {target : Nat} (h : t.advance target = (true, t')) :
    t.previous < t'.previous ∧ t'.previous ≤ target := by
  unfold advance at h
  split at h
  · cases h
    constructor
    · show t.previous < t.previous + t.counter + 1; omega
    · show t.previous + t.counter + 1 ≤ target; omega
  · cases h

/-- Goes on to the cycle asked for; `expire` is told the cycle of each expiry on the way. -/
def drive {σ : Type} (expire : Nat → σ → σ) (target : Nat) (t : Timer) (s : σ) : Timer × σ :=
  match h : t.advance target with
  | (true, t') =>
    have := advance_lt h
    drive expire target t' (expire t'.previous s)
  | (false, t') => (t', s)
termination_by target - t.previous

/-- Counts cycles from zero again, as a new audio frame does. -/
def endFrame (t : Timer) : Timer := { t with previous := 0 }

end Timer

/-- The level a channel has last told the mixer. -/
structure Voice where
  channel : Channel
  level : Int16 := 0
  deriving DecidableEq, Repr

namespace Voice

/-- Tells the mixer of a new level, if it is one. -/
def set (v : Voice) (cycle : Nat) (level : Int16) (m : Mixer) : Voice × Mixer :=
  if level = v.level then (v, m)
  else ({ v with level }, m.addDelta v.channel cycle (level - v.level))

end Voice

/-- What the five channels have in common. -/
class SoundChannel (α : Type) where
  /-- Writes one of the channel's four registers. -/
  write : α → UInt16 → UInt8 → Mixer → α × Mixer
  /-- Enables or disables the channel. -/
  setEnabled : α → Bool → α
  /-- Brings the channel up to a cycle. -/
  run : α → Nat → Mixer → α × Mixer
  /-- Counts cycles from zero again. -/
  endFrame : α → α
  /-- Back to power-on. -/
  reset : α → α
  /-- Whether the channel plays, as the status register shows it. -/
  isActive : α → Bool

end Famicom
