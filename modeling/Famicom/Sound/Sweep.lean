/-
  The sweep: moves the period of a pulse channel up or down, and silences the channel where the period
  would leave its range.

  The two pulse channels differ in how they negate: the first by the ones' complement, so it goes down
  by one more.
-/

namespace Famicom

/-- A sweep. -/
structure Sweep where
  /-- Whether the period is negated by the ones' complement. -/
  onesComplement : Bool
  enabled : Bool := false
  /-- Half frames between two changes. -/
  period : UInt8 := 0
  negate : Bool := false
  shift : UInt8 := 0
  reload : Bool := false
  divider : UInt8 := 0
  deriving DecidableEq, Repr

namespace Sweep

/-- A sweep at power-on. -/
def new (onesComplement : Bool) : Sweep := { onesComplement }

/-- Writes what the sweep does; its divider starts anew. -/
def writeControl (s : Sweep) (data : UInt8) : Sweep :=
  { s with
    enabled := data &&& 0x80 != 0
    negate := data &&& 0x08 != 0
    period := ((data >>> (4 : UInt8)) &&& 0x07) + 1
    shift := data &&& 0x07
    reload := true }

/-- The period that a channel of the given period is moving to. -/
def target (s : Sweep) (period : UInt16) : Int :=
  let change : Int := period.toNat >>> s.shift.toNat
  if s.negate then period.toNat - change - (if s.onesComplement then 1 else 0)
  else period.toNat + change

/-- Whether a channel of the given period is silenced. -/
def isMuting (s : Sweep) (period : UInt16) : Bool :=
  period < 8 || (!s.negate && 0x7FF < s.target period)

/-- The period a change brings, if the sweep changes this one. -/
def change? (s : Sweep) (period : UInt16) : Option UInt16 :=
  if 0 < s.shift ∧ s.enabled ∧ 8 ≤ period ∧ s.target period ≤ 0x7FF then
    some (UInt16.ofNat (s.target period).toNat)
  else none

/-- One half frame: the new period, if the divider ran out and there is one. -/
def clock (s : Sweep) (period : UInt16) : Option UInt16 × Sweep :=
  let update := if s.divider = 1 then s.change? period else none
  let divider :=
    if s.reload ∨ s.divider = 1 then s.period
    else if s.divider = 0 then 0 else s.divider - 1
  (update, { s with divider, reload := false })

/-- The sweep at power-on. -/
def reset (s : Sweep) : Sweep := new s.onesComplement

end Sweep

end Famicom
