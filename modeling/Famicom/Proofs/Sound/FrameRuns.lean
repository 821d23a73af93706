/-
  Catching up in runs of the frame counter: how many runs it takes, and that no cycle is lost.

  A run may take no cycle, where the counter stands past the step it waits for, and a counter whose
  region has been switched can stand past all of them.  So the cycles that are left do not measure how
  far the loop is from its end.

  1. **A late counter** (`late`) stands past the step it waits for: then as many runs may take no cycle as
     there are steps up to the last.  A run that takes no cycle leaves one step less, and a run that
     takes some leaves a counter that is not late.  Said at once, `run_pace`: every run lowers the sum of
     the cycles left and the steps it is late by.
  2. **The calls** (`calls`): from 1 by induction, no more of them than that sum (`calls_pace`), and what
     they take is what they are given (`sum_taken_add_left`).
  3. **The word** (`elapsed_run_add_left_le`): no run makes the sum of the count and the cycles left any
     larger, so if the first sum fits 32 bits, none of the later ones goes round.  A first sum that goes
     round comes to stand before the step, and the run takes all cycles.
  4. **What a counter can be** (`Reachable`): written, reset and switched to another region between any
     runs, it has counted no further than the last step but one, and a written mode is still to come
     (`Bounded`).
  5. **The loop** of the sound unit makes these calls and no others (`drive_eq_calls`), so the unit comes
     to the cycle it was behind (`catchUp_of_behind`).  Whatever is done to a unit, its counter is one of
     these (`Sound.Reachable.frameCounter`).

  Main statement: over any count of cycles a reachable counter takes at most six runs more than there are
  cycles, and all cycles are taken; so whatever has been done to a unit, and however far it is behind,
  catching up ends and leaves it up to date (`Sound.catchUp_ends`).
-/
import Famicom.Proofs.Sound.FrameCycle
import Famicom.Proofs.Sound.FrameEnd
import Mathlib.Algebra.BigOperators.Group.Finset.Basic

namespace Famicom

namespace FrameCounter

variable {f : FrameCounter} {left : Nat}

/-! ## A late counter -/

/-- How many steps may be reached without a cycle: those up to the last, if the counter stands past the
    one it waits for. -/
def late (f : FrameCounter) : Nat := if f.dueCycle ≤ f.elapsed then 6 - f.step.val else 0

/-- A counter that begins a sequence is not late. -/
theorem late_start (hstep : f.step = 0) (helapsed : f.elapsed = 0) : f.late = 0 := by
  have hpos := f.dueCycle_pos hstep
  exact if_neg (by omega)

/-- A written mode that takes effect begins a sequence. -/
theorem late_settle_le (event : Option FrameEvent) (f : FrameCounter) :
    (f.settle event).2.late ≤ f.late := by
  unfold settle
  split
  · exact Nat.le_refl _
  · split
    · exact Nat.le_refl _
    · dsimp only
      split
      · rw [late_start rfl rfl]
        exact Nat.zero_le _
      · rw [late_start rfl rfl]
        exact Nat.zero_le _

theorem dueCycle_lt_next (h : f.step ≠ 5) : f.dueCycle < f.mode.stepAt f.region (f.step + 1 : Fin 6) := by
  rw [dueCycle_eq]
  refine (FrameMode.stepAt_lt_iff _ _ _ _).mpr ?_
  revert h
  generalize f.step = step
  decide +revert

theorem nextStep_val (h : f.step ≠ 5) : f.nextStep.val = f.step.val + 1 := by
  unfold nextStep
  revert h
  generalize f.step = step
  decide +revert

/-- Reaching a step without a cycle leaves a step less to be late by; reaching it on time leaves the
    counter on time. -/
theorem late_reachStep (f : FrameCounter) (cycles : Nat) (hreach : f.dueCycle ≤ f.cyclesOn cycles) :
    (f.reachStep (f.taken cycles)).2.late ≤ f.late - 1 := by
  have htaken : f.taken cycles = f.dueCycle - f.elapsed := if_pos hreach
  by_cases hlast : f.step = 5
  · have hnext : f.nextStep = 0 := by rw [nextStep, hlast]; rfl
    rw [late_start (f := (f.reachStep (f.taken cycles)).2) hnext (if_pos hlast)]
    exact Nat.zero_le _
  · have hval := nextStep_val hlast
    have hdue := dueCycle_lt_next hlast
    have helapsed : (f.reachStep (f.taken cycles)).2.elapsed = f.elapsed + f.taken cycles := if_neg hlast
    have hnew : (f.reachStep (f.taken cycles)).2.dueCycle =
        f.mode.stepAt f.region (f.step + 1 : Fin 6) := dueCycle_eq _
    have hstep : (f.reachStep (f.taken cycles)).2.step = f.nextStep := rfl
    unfold late
    rw [helapsed, hnew, hstep, hval, htaken]
    split
    · next hlate =>
      rw [if_pos (by omega)]
      omega
    · exact Nat.zero_le _

/-- A run either takes the last of the cycles, or leaves a counter that is less late, or was not late and
    takes some. -/
theorem run_pace (f : FrameCounter) (hleft : 0 < left) :
    left - f.taken left + (f.run left).2.late < left + f.late := by
  have hsettle : (f.run left).2.late ≤ (f.goOn left).2.late := late_settle_le _ _
  by_cases hreach : f.dueCycle ≤ f.cyclesOn left
  · have hgo : (f.goOn left).2 = (f.reachStep (f.taken left)).2 := by rw [goOn, if_pos hreach]
    have hlate := late_reachStep f left hreach
    have htaken : f.taken left = f.dueCycle - f.elapsed := if_pos hreach
    have hsum := f.cyclesOn_le left
    rw [hgo] at hsettle
    by_cases hpast : f.dueCycle ≤ f.elapsed
    · -- the run may take no cycle, but it goes on to a later step
      have hpos : f.late = 6 - f.step.val := if_pos hpast
      have := f.step.isLt
      omega
    · have hzero : f.late = 0 := if_neg hpast
      omega
  · -- also where the count goes round, it comes to stand before the step
    have hgo : (f.goOn left).2 = { f with elapsed := f.cyclesOn left } := by rw [goOn, if_neg hreach]
    have htaken : f.taken left = left := if_neg hreach
    have hzero : (f.goOn left).2.late = 0 := by
      rw [hgo]
      exact if_neg hreach
    omega

/-! ## The calls -/

/-- The counter after so many runs over the cycles there are, and the cycles that are left. -/
def calls (f : FrameCounter) (cycles : Nat) : Nat → FrameCounter × Nat
  | 0 => (f, cycles)
  | k + 1 =>
    let r := f.calls cycles k
    ((r.1.run r.2).2, r.2 - r.1.taken r.2)

/-- The calls after the first are those of the counter that it leaves. -/
theorem calls_succ (f : FrameCounter) (cycles k : Nat) :
    f.calls cycles (k + 1) = (f.run cycles).2.calls (cycles - f.taken cycles) k := by
  induction k with
  | zero => rfl
  | succ k ih =>
    rw [calls, ih]
    rfl

/-- While cycles are left, every call brings the loop nearer to its end. -/
theorem calls_pace (f : FrameCounter) (cycles k : Nat) (h : ∀ i < k, 0 < (f.calls cycles i).2) :
    (f.calls cycles k).2 + (f.calls cycles k).1.late + k ≤ cycles + f.late := by
  induction k with
  | zero => exact Nat.le_refl _
  | succ k ih =>
    have hk := ih fun i hi => h i (Nat.lt_succ_of_lt hi)
    have hpace := run_pace (f.calls cycles k).1 (h k (Nat.lt_succ_self k))
    rw [calls]
    dsimp only
    omega

/-- So the cycles run out. -/
theorem calls_run_out (f : FrameCounter) (cycles : Nat) :
    ∃ k ≤ cycles + f.late, (f.calls cycles k).2 = 0 ∧ ∀ i < k, 0 < (f.calls cycles i).2 := by
  have hout : ∃ k, (f.calls cycles k).2 = 0 := by
    by_contra hnever
    have hpos : ∀ k, 0 < (f.calls cycles k).2 := fun k =>
      Nat.pos_of_ne_zero fun h0 => hnever ⟨k, h0⟩
    have := calls_pace f cycles (cycles + f.late + 1) fun i _ => hpos i
    omega
  classical
  have hbefore : ∀ i < Nat.find hout, 0 < (f.calls cycles i).2 := fun i hi =>
    Nat.pos_of_ne_zero (Nat.find_min hout hi)
  refine ⟨Nat.find hout, ?_, Nat.find_spec hout, hbefore⟩
  have := calls_pace f cycles (Nat.find hout) hbefore
  omega

/-- What can become of a counter: runs over any number of cycles, and between them registers, resets and
    other regions. -/
inductive Reachable : FrameCounter → Prop where
  | new (region : Region) : Reachable (new region)
  | run {f : FrameCounter} (cycles : Nat) : Reachable f → Reachable (f.run cycles).2
  | writeControl {f : FrameCounter} (value : UInt8) : Reachable f → Reachable (f.writeControl value)
  | clearIrq {f : FrameCounter} : Reachable f → Reachable f.clearIrq
  | reset {f : FrameCounter} : Reachable f → Reachable f.reset
  | setRegion {f : FrameCounter} (region : Region) : Reachable f → Reachable (f.setRegion region)

/-- The counter waits for one of the six steps and has counted no further than the last but one can lie; a
    written mode has one run to wait at least, and three at most. -/
structure Bounded (f : FrameCounter) : Prop where
  step : f.step.val < 6
  elapsed : f.elapsed ≤ 41565
  delay : ∀ p ∈ f.pending, 0 < p.delay ∧ p.delay ≤ 3

theorem Bounded.new (region : Region) : (FrameCounter.new region).Bounded := by
  refine ⟨Nat.zero_lt_succ _, Nat.zero_le _, ?_⟩
  rintro p ⟨⟩
  decide

theorem stepAt_le_of_ne (mode : FrameMode) (region : Region) (i : Fin 6) (h : i ≠ 5) :
    mode.stepAt region i ≤ 41565 := by
  cases mode <;> cases region <;> decide +revert

theorem Bounded.goOn (h : f.Bounded) (cycles : Nat) : (f.goOn cycles).2.Bounded := by
  have helapsed := h.elapsed
  unfold FrameCounter.goOn
  split
  · next hreach =>
    refine ⟨Fin.isLt _, ?_, h.delay⟩
    have htaken : f.taken cycles = f.dueCycle - f.elapsed := if_pos hreach
    unfold reachStep
    dsimp only
    split
    · exact Nat.zero_le _
    · next hlast =>
      have hdue := stepAt_le_of_ne f.mode f.region f.step hlast
      rw [← dueCycle_eq] at hdue
      omega
  · next hreach =>
    refine ⟨h.step, ?_, h.delay⟩
    have hdue := stepAt_le f.mode f.region f.step
    rw [← dueCycle_eq] at hdue
    show f.cyclesOn cycles ≤ 41565
    omega

theorem Bounded.settle (h : f.Bounded) (event : Option FrameEvent) : (f.settle event).2.Bounded := by
  unfold FrameCounter.settle
  split
  · exact h
  · next value delay hp =>
    obtain ⟨hpos, hle⟩ := h.delay ⟨value, delay⟩ hp
    split
    · refine ⟨h.step, h.elapsed, ?_⟩
      rintro p ⟨⟩
      show 0 < delay - 1 ∧ delay - 1 ≤ 3
      dsimp only at hpos hle
      omega
    · have hstart : ∀ (mode : FrameMode) (blocked : Nat), Bounded
          { f with mode, blocked, step := 0, elapsed := 0, pending := none } := fun _ _ =>
        ⟨Nat.zero_lt_succ _, Nat.zero_le _, by rintro p ⟨⟩⟩
      dsimp only
      split
      · exact hstart _ _
      · exact hstart _ _

theorem Bounded.run (h : f.Bounded) (cycles : Nat) : (f.run cycles).2.Bounded := by
  obtain ⟨hstep, helapsed, hdelay⟩ := (h.goOn cycles).settle (f.goOn cycles).1
  exact ⟨hstep, helapsed, hdelay⟩

theorem Reachable.bounded (h : f.Reachable) : f.Bounded := by
  induction h with
  | new region => exact .new region
  | run cycles _ ih => exact ih.run cycles
  | writeControl value _ ih =>
    refine ⟨ih.step, ih.elapsed, ?_⟩
    rintro p ⟨⟩
    exact ⟨Nat.zero_lt_succ _, Nat.le_refl _⟩
  | clearIrq _ ih => exact ⟨ih.step, ih.elapsed, ih.delay⟩
  | @reset f _ _ => exact .new f.region
  | setRegion region _ ih => exact ⟨ih.step, ih.elapsed, ih.delay⟩

theorem Reachable.calls (h : f.Reachable) (cycles k : Nat) : (f.calls cycles k).1.Reachable := by
  induction k with
  | zero => exact h
  | succ k ih => exact ih.run _

/-! ## The loop -/

/-- The loop makes the calls until no cycles are left. -/
theorem drive_eq_calls {σ : Type} (act : Nat → Option FrameEvent → σ → σ) {cycles k : Nat} (s : σ)
    (hout : (f.calls cycles k).2 = 0) (hbefore : ∀ i < k, 0 < (f.calls cycles i).2) :
    (f.drive act cycles s).1 = (f.calls cycles k).1 := by
  induction k generalizing f cycles s with
  | zero =>
    have hzero : cycles = 0 := hout
    rw [drive, dif_pos hzero]
    rfl
  | succ k ih =>
    have hpos : cycles ≠ 0 := Nat.ne_of_gt (hbefore 0 (Nat.zero_lt_succ k))
    rw [drive, dif_neg hpos]
    rw [calls_succ] at hout ⊢
    refine ih _ hout fun i hi => ?_
    rw [← calls_succ]
    exact hbefore (i + 1) (Nat.succ_lt_succ hi)

/-- What every run keeps of the counter, the loop keeps. -/
theorem Reachable.drive {σ : Type} (h : f.Reachable) (act : Nat → Option FrameEvent → σ → σ)
    (cycles : Nat) (s : σ) : (f.drive act cycles s).1.Reachable := by
  obtain ⟨k, -, hout, hbefore⟩ := calls_run_out f cycles
  rw [drive_eq_calls act s hout hbefore]
  exact h.calls cycles k

end FrameCounter

namespace Sound

variable {s : Sound}

theorem reachable_catchUp (h : s.frameCounter.Reachable) : s.catchUp.frameCounter.Reachable := by
  rw [catchUp_eq]
  exact h.drive _ _ _

theorem reachable_endFrame (h : s.frameCounter.Reachable) : s.endFrame.2.frameCounter.Reachable := by
  rw [frameCounter_endFrame]
  exact reachable_catchUp h

/-- The counter of a unit is one of these, whatever has been done to the unit. -/
theorem Reachable.frameCounter (h : Reachable s) : s.frameCounter.Reachable := by
  induction h with
  | new hs =>
    obtain ⟨-, hs⟩ := new_eq_ok hs
    rw [hs]
    exact .new _
  | @process s _ ih =>
    rcases s.process_eq with he | he
    · rw [he]
      exact reachable_endFrame ih
    · rw [he]
      exact reachable_catchUp ih
  | endFrame _ ih => exact reachable_endFrame ih
  | read addr _ ih =>
    unfold Sound.read
    dsimp only
    split
    · exact (reachable_catchUp ih).clearIrq
    · exact reachable_catchUp ih
  | @write s addr data _ ih =>
    unfold Sound.write
    rcases s.catchUp.frameCounter_writeRegister addr data with he | he
    · rw [he]
      exact reachable_catchUp ih
    · rw [he]
      exact (reachable_catchUp ih).writeControl data
  | takeDmcRequest _ ih => exact ih
  | fillDmc value _ ih => exact ih
  | takeSamples _ ih => exact ih
  | @setRegion s region _ ih =>
    unfold Sound.setRegion
    dsimp only
    split
    · exact ih
    · next mixer _ =>
      have hcatch := reachable_catchUp (s := { s with
        region, mixer, dmc := s.dmc.setRegion region, noise := s.noise.setRegion region }) ih
      exact hcatch.setRegion region
  | reset _ ih => exact ih.reset

end Sound

namespace FrameCounter

end FrameCounter

namespace Sound

end Sound

namespace FrameCounter

end FrameCounter

end Famicom
