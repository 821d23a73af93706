/-
  The schedule of the frame counter in closed form.

  A value is written to the control register, and the counter is run over single cycles from there, with
  the interrupt acknowledged between any two runs.

  1. **The first three runs** (`Regular.runs_three`): the mode before goes on for two of them, and with
     the third the written one begins its sequence.
  2. **A run after them** (`Underway.run`): the counter stands where the number of runs says, so what is
     due in a run follows from the remainder of that number by the period.
  3. **The interrupt** (`Underway.irq_run`, `held_iff`): it is raised iff a run has raised it and it has not
     been acknowledged since.

  Main statement: for every number of runs, what is clocked and when the interrupt is raised are read off
  the mode's table (`Stepped.follows_table`).
-/
import Famicom.Proofs.Sound.FrameCycle

namespace Famicom.FrameCounter

variable {f g : FrameCounter} {region : Region} {mode : FrameMode} {value : UInt8} {inhibit : Bool}
  {k delay : Nat} {acked : Nat → Bool}

/-! ## Runs with acknowledgements -/

/-- Acknowledges the interrupt, or not. -/
def acknowledge (f : FrameCounter) (on : Bool) : FrameCounter := if on then f.clearIrq else f

/-- The counter after so many runs over single cycles; `acked` says before which of them, counted from
    zero, the interrupt is acknowledged. -/
def runs (acked : Nat → Bool) (f : FrameCounter) : Nat → FrameCounter
  | 0 => f
  | n + 1 => (((f.runs acked n).acknowledge (acked n)).run 1).2

/-- The counter as it stands then, just before the next run. -/
def due (acked : Nat → Bool) (f : FrameCounter) (n : Nat) : FrameCounter :=
  (f.runs acked n).acknowledge (acked n)

theorem acknowledge_eq (f : FrameCounter) (on : Bool) :
    f.acknowledge on = { f with irq := f.irq && !on } := by
  cases on
  · show f = { f with irq := f.irq && true }
    rw [Bool.and_true]
  · show f.clearIrq = { f with irq := f.irq && false }
    rw [Bool.and_false]
    rfl

theorem Regular.acknowledge (h : f.Regular) (on : Bool) : (f.acknowledge on).Regular := by
  rw [acknowledge_eq]
  exact ⟨h.placed, h.blocked_le, h.free⟩

theorem Stepped.runs (h : Stepped region f) (acked : Nat → Bool) (n : Nat) :
    Stepped region (f.runs acked n) := by
  induction n with
  | zero => exact h
  | succ n ih =>
    refine Stepped.run ?_
    show Stepped region (if acked n then (f.runs acked n).clearIrq else f.runs acked n)
    split
    · exact ih.clearIrq
    · exact ih

/-! ## The first three runs -/

/-- While a mode is in effect, another was written and waits for so many runs. -/
structure Waits (region : Region) (mode : FrameMode) (inhibit : Bool) (value : UInt8) (delay : Nat)
    (f : FrameCounter) : Prop where
  regular : f.Regular
  region_eq : f.region = region
  mode_eq : f.mode = mode
  irqInhibit_eq : f.irqInhibit = inhibit
  pending : f.pending = some ⟨value, delay⟩

theorem Waits.acknowledge (h : Waits region mode inhibit value delay f) (on : Bool) :
    Waits region mode inhibit value delay (f.acknowledge on) := by
  have hregular := h.regular.acknowledge on
  rw [acknowledge_eq] at hregular ⊢
  exact ⟨hregular, h.region_eq, h.mode_eq, h.irqInhibit_eq, h.pending⟩

/-- The mode in effect goes on. -/
theorem Waits.run (h : Waits region mode inhibit value (delay + 2) f) :
    Waits region mode inhibit value (delay + 1) (f.run 1).2 := by
  have hp : f.Undisturbed := by
    intro p hp
    cases h.pending.symm.trans hp
    exact Nat.succ_lt_succ (Nat.succ_pos delay)
  obtain ⟨step, hrun, hregular⟩ := h.regular.run_goesOn hp
  rw [hrun]
  refine ⟨hregular, h.region_eq, h.mode_eq, h.irqInhibit_eq, ?_⟩
  show f.pending.map _ = _
  rw [h.pending]
  rfl

/-! ## Every run after them -/

/-- The counter is so many runs into the sequences of a mode, and no other mode is written. -/
structure Underway (region : Region) (mode : FrameMode) (inhibit : Bool) (k : Nat) (f : FrameCounter) :
    Prop where
  regular : f.Regular
  region_eq : f.region = region
  mode_eq : f.mode = mode
  irqInhibit_eq : f.irqInhibit = inhibit
  pending : f.pending = none
  elapsed : f.elapsed = k % mode.period region

theorem Underway.acknowledge (h : Underway region mode inhibit k f) (on : Bool) :
    Underway region mode inhibit k (f.acknowledge on) := by
  have hregular := h.regular.acknowledge on
  rw [acknowledge_eq] at hregular ⊢
  exact ⟨hregular, h.region_eq, h.mode_eq, h.irqInhibit_eq, h.pending, h.elapsed⟩

/-- The mode that waited begins its first sequence. -/
theorem Waits.run_switches (h : Waits region mode inhibit value 1 f) :
    Underway region (modeOf value) inhibit 0 (f.run 1).2 := by
  rw [h.regular.run_switches h.pending (Nat.le_refl 1)]
  exact ⟨f.regular_switched value, h.region_eq, rfl, h.irqInhibit_eq, rfl, (Nat.zero_mod _).symm⟩

/-- The place that the next run comes to. -/
theorem Underway.nextPlace_eq (h : Underway region mode inhibit k f) :
    f.nextPlace = (k + 1) % mode.period region := by
  unfold nextPlace
  rw [h.elapsed, h.mode_eq, h.region_eq, Nat.mod_add_mod]

/-- A run takes its cycle, and does what the table says of the place that it comes to. -/
theorem Underway.run (h : Underway region mode inhibit k f) :
    Underway region mode inhibit (k + 1) (f.run 1).2 ∧ f.taken 1 = 1 ∧
      (f.run 1).1 = mode.eventAt region ((k + 1) % mode.period region) ∧
      (f.run 1).2.irq =
        (f.irq || (!inhibit && mode.raisesAt region ((k + 1) % mode.period region))) := by
  have hp : f.Undisturbed := by
    intro p hp
    cases h.pending.symm.trans hp
  obtain ⟨step, hrun, hregular⟩ := h.regular.run_goesOn hp
  have hplace := h.nextPlace_eq
  rw [hrun]
  refine ⟨⟨hregular, h.region_eq, h.mode_eq, h.irqInhibit_eq, ?_, hplace⟩,
    h.regular.placed.taken_one, ?_, ?_⟩
  · show f.pending.map _ = none
    rw [h.pending]
    rfl
  · show f.mode.eventAt f.region f.nextPlace = _
    rw [h.mode_eq, h.region_eq, hplace]
  · show (f.irq || (!f.irqInhibit && f.mode.raisesAt f.region f.nextPlace)) = _
    rw [h.irqInhibit_eq, h.mode_eq, h.region_eq, hplace]

/-- So it goes on without end. -/
theorem Underway.runs (h : Underway region mode inhibit 0 (f.runs acked 3)) (k : Nat) :
    Underway region mode inhibit k (f.runs acked (k + 3)) := by
  induction k with
  | zero => exact h
  | succ k ih => exact (ih.acknowledge _).run.1

/-! ## The interrupt -/

theorem raisesAt_eq_true_iff {place : Nat} : mode.raisesAt region place = true ↔ mode = .fourStep ∧
    (place = mode.stepAt region 3 ∨ place = mode.stepAt region 4 ∨ place = 0) := by
  unfold FrameMode.raisesAt
  dsimp only
  rw [Bool.and_eq_true, beq_iff_eq, decide_eq_true_eq]

/-- In these runs of a written mode the interrupt is raised. -/
def Raises (region : Region) (value : UInt8) (k : Nat) : Prop :=
  let s := (modeOf value).stepAt region
  modeOf value = .fourStep ∧ value &&& 0x40 = 0 ∧
    (k % s 5 = s 3 ∨ k % s 5 = s 4 ∨ k % s 5 = 0)

/-- A flag that stays set until it is cleared is set iff it was once set and not cleared since. -/
theorem held_iff (flag : Nat → Bool) (sets : Nat → Prop) (clears : Nat → Bool)
    (hstep : ∀ k, flag (k + 1) = true ↔ (flag k = true ∧ clears k = false) ∨ sets (k + 1)) (k : Nat) :
    flag k = true ↔ ∃ j ≤ k, (j = 0 ∧ flag 0 = true ∨ 0 < j ∧ sets j) ∧
      ∀ i, j ≤ i → i < k → clears i = false := by
  induction k with
  | zero =>
    constructor
    · intro h
      exact ⟨0, Nat.le_refl 0, .inl ⟨rfl, h⟩, fun i _ hi => absurd hi (Nat.not_lt_zero i)⟩
    · rintro ⟨j, hj, ⟨-, h⟩ | ⟨hpos, -⟩, -⟩
      · exact h
      · omega
  | succ k ih =>
    rw [hstep, ih]
    constructor
    · rintro (⟨⟨j, hj, hset, hkept⟩, hclear⟩ | hset)
      · refine ⟨j, Nat.le_succ_of_le hj, hset, fun i hji hi => ?_⟩
        rcases Nat.lt_succ_iff_lt_or_eq.mp hi with hlt | rfl
        · exact hkept i hji hlt
        · exact hclear
      · exact ⟨k + 1, Nat.le_refl _, .inr ⟨Nat.succ_pos k, hset⟩, fun i hji hi => by omega⟩
    · rintro ⟨j, hj, hset, hkept⟩
      rcases Nat.lt_or_eq_of_le hj with hlt | rfl
      · have hjk : j ≤ k := Nat.le_of_lt_succ hlt
        exact .inl ⟨⟨j, hjk, hset, fun i hji hi => hkept i hji (Nat.lt_succ_of_lt hi)⟩,
          hkept k hjk (Nat.lt_succ_self k)⟩
      · rcases hset with ⟨h0, -⟩ | ⟨-, hset⟩
        · exact absurd h0 (Nat.succ_ne_zero k)
        · exact .inr hset

/-- What a run does to the interrupt. -/
theorem Underway.irq_run (h : Underway region (modeOf value) (value &&& 0x40 != 0) k f) :
    (f.run 1).2.irq = true ↔ f.irq = true ∨ Raises region value (k + 1) := by
  obtain ⟨-, -, -, hirq⟩ := h.run
  rw [hirq, Bool.or_eq_true, Bool.and_eq_true, raisesAt_eq_true_iff]
  unfold Raises FrameMode.period
  dsimp only
  rw [and_left_comm]
  refine or_congr_right (and_congr_right fun _ => and_congr_left fun _ => ?_)
  rw [Bool.not_eq_true', bne_eq_false_iff_eq]

/-! ## The schedule -/

/-- The mode before goes on for two runs, and with the third the written one is in effect. -/
theorem Regular.runs_three (h : f.Regular) (value : UInt8) (acked : Nat → Bool) :
    ((f.writeControl value).runs acked 1).mode = f.mode ∧
      ((f.writeControl value).runs acked 2).mode = f.mode ∧
      Underway f.region (modeOf value) (value &&& 0x40 != 0) 0 ((f.writeControl value).runs acked 3) := by
  have h₀ : Waits f.region f.mode (value &&& 0x40 != 0) value 3 (f.writeControl value) :=
    ⟨⟨h.placed, h.blocked_le, h.free⟩, rfl, rfl, rfl, rfl⟩
  have h₁ := (h₀.acknowledge (acked 0)).run
  have h₂ := (h₁.acknowledge (acked 1)).run
  exact ⟨h₁.mode_eq, h₂.mode_eq, (h₂.acknowledge (acked 2)).run_switches⟩

/-- A value is written to the control register, and no other one after it.  With the third run its mode
    is in effect and its sequence begins.  The `k`-th run after that takes its cycle, clocks a quarter or a
    half frame iff the remainder of `k` by the period is one of those steps of the table, and nothing
    else, and raises the interrupt iff the mode has four steps, the interrupt is not inhibited and the
    remainder is one of the last two steps before the end or zero.  The interrupt then stands raised until
    it is acknowledged. -/
theorem Stepped.follows_table (h : Stepped region f) (value : UInt8) (acked : Nat → Bool) :
    let g := f.writeControl value
    let s := (modeOf value).stepAt region
    (g.runs acked 1).mode = f.mode ∧ (g.runs acked 2).mode = f.mode ∧
      (∀ n, (g.runs acked (n + 3)).mode = modeOf value) ∧
      ∀ k, 0 < k →
        (g.due acked (k + 2)).taken 1 = 1 ∧
        (((g.due acked (k + 2)).run 1).1 = some .quarter ↔ k % s 5 = s 0 ∨ k % s 5 = s 2) ∧
        (((g.due acked (k + 2)).run 1).1 = some .half ↔ k % s 5 = s 1 ∨ k % s 5 = s 4) ∧
        (((g.due acked (k + 2)).run 1).2.irq = true ↔
          (g.due acked (k + 2)).irq = true ∨ Raises region value k) ∧
        ((g.runs acked (k + 3)).irq = true ↔
          ∃ j ≤ k, (j = 0 ∧ (g.runs acked 3).irq = true ∨ 0 < j ∧ Raises region value j) ∧
            ∀ i, j ≤ i → i < k → acked (i + 3) = false) := by
  obtain ⟨hone, htwo, hthree⟩ := h.regular.runs_three value acked
  rw [h.region_eq] at hthree
  have hdue (k : Nat) : Underway region (modeOf value) (value &&& 0x40 != 0) k
      ((f.writeControl value).due acked (k + 3)) := (hthree.runs k).acknowledge _
  have hheld := held_iff (fun k => ((f.writeControl value).runs acked (k + 3)).irq)
    (Raises region value) (fun k => acked (k + 3)) fun k => by
      refine (hdue k).irq_run.trans (or_congr_left ?_)
      show ((((f.writeControl value).runs acked (k + 3)).acknowledge _).irq = true ↔ _)
      rw [acknowledge_eq, Bool.and_eq_true, Bool.not_eq_true']
  refine ⟨hone, htwo, fun n => (hthree.runs n).mode_eq, fun k hk => ?_⟩
  obtain ⟨k, rfl⟩ : ∃ n, k = n + 1 := ⟨k - 1, by omega⟩
  obtain ⟨-, htaken, hevent, -⟩ := (hdue k).run
  refine ⟨htaken, ?_, ?_, (hdue k).irq_run, hheld (k + 1)⟩
  · rw [hevent]
    exact FrameMode.eventAt_eq_quarter_iff
  · rw [hevent]
    exact FrameMode.eventAt_eq_half_iff

/-- From power-on, the last step but one of the second sequence: a half frame, and the interrupt. -/
theorem Stepped.follows_table_powerOn :
    Stepped .ntsc (FrameCounter.new .ntsc) ∧ 0 < 59659 ∧
      ((((FrameCounter.new .ntsc).writeControl 0).due (fun _ => false) (59659 + 2)).run 1).1 = some .half ∧
      ((((FrameCounter.new .ntsc).writeControl 0).due (fun _ => false) (59659 + 2)).run 1).2.irq = true := by
  obtain ⟨-, -, -, hrun⟩ := Stepped.follows_table Stepped.new 0 fun _ => false
  obtain ⟨-, -, hhalf, hirq, -⟩ := hrun 59659 (by decide)
  refine ⟨Stepped.new, by decide, hhalf.mpr (.inr (by decide)), hirq.mpr (.inr ⟨by decide, by decide, ?_⟩)⟩
  exact .inr (.inl (by decide))

end Famicom.FrameCounter
