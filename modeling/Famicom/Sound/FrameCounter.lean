/-
  The frame counter: divides the processor clock into quarter and half frames and raises the frame
  interrupt.

  It walks through six steps, at cycles that depend on the region and the mode.  It is brought up to
  date in runs: a run goes on to the next step or to the end of the cycles there are, whichever comes
  first, so a run may take no cycle at all where the counter already stands past the step.  Cycles are
  counted in words of 32 bits, which go round without a word: `cyclesOn` is what is compared with the
  step, and it is the sum where that fits (`cyclesOn_eq`).  `drive` makes runs until no cycles are left.

  Main statement: `stall_run_lt`, that a run without a cycle brings the counter nearer to a step that
  lies ahead, which is why `drive` ends.
-/
import Famicom.Region

namespace Famicom

/-- What a step clocks. -/
inductive FrameEvent where
  /-- Envelopes and the linear counter. -/
  | quarter
  /-- Those, and length counters and sweeps. -/
  | half
  deriving DecidableEq, Repr

/-- The modes of the frame counter. -/
inductive FrameMode where
  | fourStep
  | fiveStep
  deriving DecidableEq, Repr

/-- The cycles of the six steps. -/
def FrameMode.steps : FrameMode → Region → Vector Nat 6
  | fourStep, .ntsc => #v[7457, 14913, 22371, 29828, 29829, 29830]
  | fiveStep, .ntsc => #v[7457, 14913, 22371, 29829, 37281, 37282]
  | fourStep, .pal => #v[8313, 16627, 24939, 33252, 33253, 33254]
  | fiveStep, .pal => #v[8313, 16627, 24939, 33253, 41565, 41566]

/-- A value written to the control register, not in effect yet. -/
structure PendingMode where
  value : UInt8
  /-- Runs until it takes effect. -/
  delay : Nat
  deriving DecidableEq, Repr

/-- The frame counter. -/
structure FrameCounter where
  region : Region
  mode : FrameMode := .fourStep
  /-- Cycles since the first step was last waited for. -/
  elapsed : Nat := 0
  step : Fin 6 := 0
  irqInhibit : Bool := false
  irq : Bool := false
  /-- Runs during which no event is given. -/
  blocked : Nat := 0
  pending : Option PendingMode := some ⟨0, 3⟩
  deriving DecidableEq, Repr

namespace FrameCounter

/-- What each step clocks, if anything. -/
def stepEvents : Vector (Option FrameEvent) 6 :=
  #v[some .quarter, some .half, some .quarter, none, some .half, none]

/-- The frame counter at power-on, which acts as if zero had just been written. -/
def new (region : Region) : FrameCounter := { region }

/-- The frame counter at power-on, in the same region. -/
def reset (f : FrameCounter) : FrameCounter := new f.region

/-- Takes the cycles of its steps from another region. -/
def setRegion (f : FrameCounter) (region : Region) : FrameCounter := { f with region }

/-- Writes the control register.  The mode waits for three runs, the inhibit flag acts at once. -/
def writeControl (f : FrameCounter) (value : UInt8) : FrameCounter :=
  let irqInhibit := value &&& 0x40 != 0
  { f with pending := some ⟨value, 3⟩, irqInhibit, irq := f.irq && !irqInhibit }

/-- Acknowledges the interrupt. -/
def clearIrq (f : FrameCounter) : FrameCounter := { f with irq := false }

/-- The cycle of the step waited for. -/
def dueCycle (f : FrameCounter) : Nat := (f.mode.steps f.region)[f.step]

/-- The step that follows. -/
def nextStep (f : FrameCounter) : Fin 6 := f.step + 1

/-- Reaches the step waited for, the given number of cycles on.  After the last step the count of
    cycles begins again. -/
def reachStep (f : FrameCounter) (cycles : Nat) : Option FrameEvent × FrameCounter :=
  let irq := f.irq || (!f.irqInhibit && f.mode == .fourStep && decide (3 ≤ f.step))
  let event := if f.blocked = 0 then stepEvents[f.step] else none
  let blocked := if event.isSome then 2 else f.blocked
  let elapsed := if f.step = 5 then 0 else f.elapsed + cycles
  (event, { f with irq, blocked, elapsed, step := f.nextStep })

/-- The mode that a value of the control register chooses. -/
def modeOf (value : UInt8) : FrameMode := if value &&& 0x80 != 0 then .fiveStep else .fourStep

/-- Lets a written mode come nearer, or take effect: the steps begin again, and five-step mode gives a
    half frame at once. -/
def settle (event : Option FrameEvent) (f : FrameCounter) : Option FrameEvent × FrameCounter :=
  match f.pending with
  | none => (event, f)
  | some ⟨value, delay⟩ =>
    if 1 < delay then (event, { f with pending := some ⟨value, delay - 1⟩ })
    else
      let f := { f with mode := modeOf value, step := 0, elapsed := 0, pending := none }
      if f.mode = .fiveStep ∧ f.blocked = 0 then (some .half, { f with blocked := 2 })
      else (event, f)

/-- Where the count stands so many cycles on, in a word of 32 bits. -/
def cyclesOn (f : FrameCounter) (cycles : Nat) : Nat := (f.elapsed + cycles) % 0x100000000

/-- Cycles that a run takes of those there are: up to the step waited for, if that is reached. -/
def taken (f : FrameCounter) (cycles : Nat) : Nat :=
  if f.dueCycle ≤ f.cyclesOn cycles then f.dueCycle - f.elapsed else cycles

/-- Goes on by the cycles that a run takes. -/
def goOn (f : FrameCounter) (cycles : Nat) : Option FrameEvent × FrameCounter :=
  if f.dueCycle ≤ f.cyclesOn cycles then f.reachStep (f.taken cycles)
  else (none, { f with elapsed := f.cyclesOn cycles })

/-- One run over at most the given number of cycles: the event it gives. -/
def run (f : FrameCounter) (cycles : Nat) : Option FrameEvent × FrameCounter :=
  let r := f.goOn cycles
  let r := r.2.settle r.1
  (r.1, { r.2 with blocked := r.2.blocked - 1 })

/-- How many runs in a row may take no cycle: none at the very start, else at most one for each step
    up to the last. -/
def stall (f : FrameCounter) : Nat :=
  if f.step = 0 ∧ f.elapsed = 0 then 0 else 6 - f.step.val

/-- The first step lies ahead of a counter at its start. -/
theorem steps_zero_pos (mode : FrameMode) (region : Region) : 0 < (mode.steps region)[0] := by
  cases mode <;> cases region <;> decide +revert

/-- So does the cycle waited for, if that is the first step's. -/
theorem dueCycle_pos (f : FrameCounter) (h : f.step = 0) : 0 < f.dueCycle := by
  simpa [dueCycle, h] using steps_zero_pos f.mode f.region

/-- A written mode can only bring the counter back to the start. -/
theorem stall_settle_le (event : Option FrameEvent) (f : FrameCounter) :
    (f.settle event).2.stall ≤ f.stall := by
  unfold settle
  split
  · exact Nat.le_refl _
  · split
    · exact Nat.le_refl _
    · simp only
      split <;> simp [stall]

/-- Reaching a step without taking a cycle brings the counter nearer to one that lies ahead. -/
theorem stall_reachStep_lt (f : FrameCounter) (h : f.dueCycle ≤ f.elapsed) :
    (f.reachStep 0).2.stall < f.stall := by
  have hs : ¬(f.step = 0 ∧ f.elapsed = 0) := by
    rintro ⟨h0, he⟩
    have := f.dueCycle_pos h0
    omega
  have hlt := f.step.isLt
  have hf : f.stall = 6 - f.step.val := if_neg hs
  have hr : (f.reachStep 0).2.stall =
      if f.nextStep = 0 ∧ (if f.step = 5 then 0 else f.elapsed + 0) = 0 then 0
      else 6 - f.nextStep.val := rfl
  rw [hf, hr]
  by_cases h5 : f.step = 5
  · have hn : f.nextStep = 0 := by rw [nextStep, h5]; rfl
    rw [if_pos ⟨hn, by simp [h5]⟩]
    omega
  · have hv : f.nextStep.val = f.step.val + 1 := by
      have : f.step.val ≠ 5 := fun e => h5 (Fin.ext e)
      show (f.step.val + 1) % 6 = f.step.val + 1
      omega
    have hn : f.nextStep ≠ 0 := fun e => by rw [e] at hv; cases hv
    rw [if_neg (fun hc => hn hc.1)]
    omega

/-- The word holds the sum, where that fits it. -/
theorem cyclesOn_eq {f : FrameCounter} {cycles : Nat} (h : f.elapsed + cycles < 0x100000000) :
    f.cyclesOn cycles = f.elapsed + cycles := Nat.mod_eq_of_lt h

/-- Going round makes the count smaller, never larger. -/
theorem cyclesOn_le (f : FrameCounter) (cycles : Nat) : f.cyclesOn cycles ≤ f.elapsed + cycles :=
  Nat.mod_le _ _

/-- No run takes more cycles than there are. -/
theorem taken_le (f : FrameCounter) (cycles : Nat) : f.taken cycles ≤ cycles := by
  have := f.cyclesOn_le cycles
  unfold taken
  split <;> omega

/-- A run that takes no cycle brings the counter nearer to a step that lies ahead. -/
theorem stall_run_lt (f : FrameCounter) {cycles : Nat} (hc : 0 < cycles)
    (ht : f.taken cycles = 0) : (f.run cycles).2.stall < f.stall := by
  have hreach : f.dueCycle ≤ f.cyclesOn cycles := by
    refine Nat.le_of_not_lt fun hbefore => ?_
    rw [taken, if_neg (Nat.not_le.mpr hbefore)] at ht
    omega
  have hdue : f.dueCycle ≤ f.elapsed := by
    rw [taken, if_pos hreach] at ht
    omega
  have hgo : f.goOn cycles = f.reachStep 0 := by
    rw [goOn, if_pos hreach, ht]
  have h₁ := stall_reachStep_lt f hdue
  have h₂ := stall_settle_le (f.goOn cycles).1 (f.goOn cycles).2
  rw [hgo] at h₂
  have h₃ : (f.run cycles).2.stall =
      ((f.goOn cycles).2.settle (f.goOn cycles).1).2.stall := rfl
  rw [h₃, hgo]
  exact Nat.lt_of_le_of_lt h₂ h₁

/-- Makes runs until no cycles are left; `act` is told the cycles and the event of each. -/
def drive {σ : Type} (act : Nat → Option FrameEvent → σ → σ) (cycles : Nat) (f : FrameCounter)
    (s : σ) : FrameCounter × σ :=
  if _hc : cycles = 0 then (f, s)
  else
    let r := f.run cycles
    drive act (cycles - f.taken cycles) r.2 (act (f.taken cycles) r.1 s)
termination_by (cycles, f.stall)
decreasing_by
  have hle := f.taken_le cycles
  by_cases ht : f.taken cycles = 0
  · rw [ht, Nat.sub_zero]
    exact Prod.Lex.right _ (f.stall_run_lt (Nat.pos_of_ne_zero _hc) ht)
  · exact Prod.Lex.left _ _ (by omega)

end FrameCounter

end Famicom
