/-
  The frame counter, kept up to date cycle by cycle.

  In such a run the counter never stands past the step it waits for, so every run takes its one cycle,
  and what it does follows from where in the sequence the counter comes to stand.

  1. **The table** (`FrameMode.eventAt`, `FrameMode.raisesAt`): what a place in the sequence clocks, and
     whether it raises the interrupt; the last step is the place zero of the next sequence.  No two of
     the places that clock something lie within two cycles of one another (`eventAt_next`).
  2. **Between two runs** (`Regular`): the steps behind are those whose cycles have passed (`Placed`), and
     if the last run has given an event the next place gives none.  So no step is ever swallowed.
  3. **A run** goes on to the next place, or, where a written mode is due, begins its sequence
     (`Regular.run_cases`).

  Main statement: the invariant holds in every run over single cycles at one region, with the control
  register written and the interrupt acknowledged at any moment (`Stepped.regular`).
-/
import Famicom.Proofs.Sound.Wiring

namespace Famicom

namespace FrameMode

variable {mode : FrameMode} {region : Region} {place : Nat}

/-! ## The table -/

/-- The cycle of each of the six steps. -/
def stepAt (mode : FrameMode) (region : Region) (i : Nat) : Nat := (mode.steps region)[i]?.getD 0

/-- The cycles of a whole sequence. -/
def period (mode : FrameMode) (region : Region) : Nat := mode.stepAt region 5

/-- What is clocked where so many cycles of the sequence have passed. -/
def eventAt (mode : FrameMode) (region : Region) (place : Nat) : Option FrameEvent :=
  let s := mode.stepAt region
  if place = s 0 ∨ place = s 2 then some .quarter
  else if place = s 1 ∨ place = s 4 then some .half
  else none

/-- Whether the interrupt is raised there, unless it is inhibited. -/
def raisesAt (mode : FrameMode) (region : Region) (place : Nat) : Bool :=
  let s := mode.stepAt region
  mode == .fourStep && decide (place = s 3 ∨ place = s 4 ∨ place = 0)

theorem stepAt_lt_iff (mode : FrameMode) (region : Region) (i j : Fin 6) :
    mode.stepAt region i < mode.stepAt region j ↔ i < j := by
  cases mode <;> cases region <;> decide +revert

theorem stepAt_le_iff (mode : FrameMode) (region : Region) (i j : Fin 6) :
    mode.stepAt region i ≤ mode.stepAt region j ↔ i ≤ j := by
  cases mode <;> cases region <;> decide +revert

theorem stepAt_pos (mode : FrameMode) (region : Region) (i : Fin 6) : 0 < mode.stepAt region i := by
  cases mode <;> cases region <;> decide +revert

/-- The place at which the counter stands after a step. -/
def placeAfter (mode : FrameMode) (region : Region) (i : Fin 6) : Nat :=
  mode.stepAt region i % mode.period region

theorem placeAfter_eq (mode : FrameMode) (region : Region) (i : Fin 6) :
    mode.placeAfter region i = if i = 5 then 0 else mode.stepAt region i := by
  cases mode <;> cases region <;> decide +revert

/-- The steps that are behind then. -/
theorem lt_succ_iff_le_placeAfter (mode : FrameMode) (region : Region) (i j : Fin 6) :
    j < i + 1 ↔ mode.stepAt region j ≤ mode.placeAfter region i := by
  cases mode <;> cases region <;> decide +revert

theorem eventAt_step (mode : FrameMode) (region : Region) (i : Fin 6) :
    mode.eventAt region (mode.placeAfter region i) = FrameCounter.stepEvents[i] := by
  cases mode <;> cases region <;> decide +revert

theorem raisesAt_step (mode : FrameMode) (region : Region) (i : Fin 6) :
    mode.raisesAt region (mode.placeAfter region i) = (mode == .fourStep && decide (3 ≤ i)) := by
  cases mode <;> cases region <;> decide +revert

/-- Between two steps nothing happens. -/
theorem eventAt_between (h : ∀ i : Fin 6, place ≠ mode.stepAt region i) :
    mode.eventAt region place = none := by
  unfold eventAt
  exact (if_neg (not_or.mpr ⟨h 0, h 2⟩)).trans (if_neg (not_or.mpr ⟨h 1, h 4⟩))

theorem raisesAt_between (h : ∀ i : Fin 6, place ≠ mode.stepAt region i) (h0 : place ≠ 0) :
    mode.raisesAt region place = false := by
  have hout : ¬ (place = mode.stepAt region 3 ∨ place = mode.stepAt region 4 ∨ place = 0) :=
    not_or.mpr ⟨h 3, not_or.mpr ⟨h 4, h0⟩⟩
  unfold raisesAt
  dsimp only
  rw [decide_eq_false hout, Bool.and_false]

theorem eventAt_eq_quarter_iff : mode.eventAt region place = some .quarter ↔
    place = mode.stepAt region 0 ∨ place = mode.stepAt region 2 := by
  unfold eventAt
  dsimp only
  split
  · next h => simp [h]
  · next h =>
    split
    · simp [h]
    · simp [h]

theorem eventAt_eq_half_iff : mode.eventAt region place = some .half ↔
    place = mode.stepAt region 1 ∨ place = mode.stepAt region 4 := by
  unfold eventAt
  dsimp only
  split
  · next h =>
    have hne : ∀ i j : Fin 6, i ≠ j → mode.stepAt region i ≠ mode.stepAt region j := by
      cases mode <;> cases region <;> decide
    have hout : ¬ (place = mode.stepAt region 1 ∨ place = mode.stepAt region 4) := by
      rcases h with rfl | rfl
      · exact not_or.mpr ⟨hne 0 1 (by decide), hne 0 4 (by decide)⟩
      · exact not_or.mpr ⟨hne 2 1 (by decide), hne 2 4 (by decide)⟩
    simp [hout]
  · split
    · next h => simp [h]
    · next h => simp [h]

/-- Where something is clocked, nothing is at the next two places. -/
theorem eventAt_next (h : mode.eventAt region place ≠ none) :
    mode.eventAt region ((place + 1) % mode.period region) = none ∧
      mode.eventAt region (((place + 1) % mode.period region + 1) % mode.period region) = none := by
  have hplace : place = mode.stepAt region 0 ∨ place = mode.stepAt region 1 ∨
      place = mode.stepAt region 2 ∨ place = mode.stepAt region 4 := by
    cases he : mode.eventAt region place with
    | none => exact absurd he h
    | some event =>
      cases event with
      | quarter => rcases eventAt_eq_quarter_iff.mp he with hp | hp <;> simp [hp]
      | half => rcases eventAt_eq_half_iff.mp he with hp | hp <;> simp [hp]
  rcases hplace with rfl | rfl | rfl | rfl
  · cases mode <;> cases region <;> decide
  · cases mode <;> cases region <;> decide
  · cases mode <;> cases region <;> decide
  · cases mode <;> cases region <;> decide

/-- Nothing is clocked at the first two places either. -/
theorem eventAt_first (mode : FrameMode) (region : Region) :
    mode.eventAt region (1 % mode.period region) = none ∧
      mode.eventAt region ((1 % mode.period region + 1) % mode.period region) = none := by
  cases mode <;> cases region <;> decide

end FrameMode

namespace FrameCounter

variable {f : FrameCounter} {region : Region} {value : UInt8} {delay : Nat}

/-! ## Between two runs -/

/-- The place that the counter comes to in the next cycle. -/
def nextPlace (f : FrameCounter) : Nat := (f.elapsed + 1) % f.mode.period f.region

/-- What the table gives for that cycle. -/
def nextEvent (f : FrameCounter) : Option FrameEvent := f.mode.eventAt f.region f.nextPlace

/-- Whether the interrupt is raised in it. -/
def raises (f : FrameCounter) : Bool := !f.irqInhibit && f.mode.raisesAt f.region f.nextPlace

/-- The steps behind the counter are those whose cycles have passed. -/
def Placed (f : FrameCounter) : Prop :=
  ∀ i : Fin 6, i < f.step ↔ f.mode.stepAt f.region i ≤ f.elapsed

/-- The counter stands before the step it waits for, and if it is blocked that is for one run, in which
    nothing is due. -/
structure Regular (f : FrameCounter) : Prop where
  placed : f.Placed
  blocked_le : f.blocked ≤ 1
  free : f.blocked ≠ 0 → f.nextEvent = none

theorem dueCycle_eq (f : FrameCounter) : f.dueCycle = f.mode.stepAt f.region f.step := by
  unfold FrameMode.stepAt
  rw [Vector.getElem?_eq_getElem f.step.isLt]
  rfl

theorem Placed.elapsed_lt (h : f.Placed) : f.elapsed < f.dueCycle := by
  rw [dueCycle_eq]
  exact Nat.lt_of_not_le fun hle => absurd ((h f.step).mpr hle) (Nat.lt_irrefl _)

theorem stepAt_le (mode : FrameMode) (region : Region) (i : Fin 6) : mode.stepAt region i ≤ 41566 := by
  cases mode <;> cases region <;> decide +revert

/-- One cycle on, the count is far from going round. -/
theorem Placed.cyclesOn_one (h : f.Placed) : f.cyclesOn 1 = f.elapsed + 1 := by
  have hdue := stepAt_le f.mode f.region f.step
  have hlt := h.elapsed_lt
  rw [dueCycle_eq] at hlt
  exact cyclesOn_eq (by omega)

/-- A run over one cycle takes it. -/
theorem Placed.taken_one (h : f.Placed) : f.taken 1 = 1 := by
  have := h.elapsed_lt
  unfold taken
  rw [h.cyclesOn_one]
  split
  · omega
  · rfl

/-- The counter that begins a sequence. -/
theorem placed_start (h : f.step = 0) (h' : f.elapsed = 0) : f.Placed := by
  intro i
  rw [h, h']
  have hpos := FrameMode.stepAt_pos f.mode f.region i
  constructor
  · intro hi
    exact absurd hi (Fin.not_lt_zero i)
  · intro hle
    omega

/-! ## A run -/

/-- One cycle on, where a step is reached with it. -/
theorem Placed.nextPlace_reach (h : f.Placed) (hdue : f.dueCycle ≤ f.elapsed + 1) :
    f.nextPlace = f.mode.placeAfter f.region f.step := by
  have hlt := h.elapsed_lt
  have hcycle : f.elapsed + 1 = f.mode.stepAt f.region f.step := by
    rw [← dueCycle_eq]
    omega
  unfold nextPlace
  rw [hcycle]
  rfl

/-- One cycle on, between two steps. -/
theorem Placed.nextPlace_between (h : f.Placed) (hdue : ¬ f.dueCycle ≤ f.elapsed + 1) :
    f.nextPlace = f.elapsed + 1 ∧ ∀ i : Fin 6, i < f.step ↔ f.mode.stepAt f.region i ≤ f.elapsed + 1 := by
  have hlt : f.elapsed + 1 < f.mode.stepAt f.region f.step := Nat.lt_of_not_le (f.dueCycle_eq ▸ hdue)
  have hlast : f.mode.stepAt f.region f.step ≤ f.mode.period f.region :=
    (FrameMode.stepAt_le_iff f.mode f.region f.step 5).mpr (Fin.le_last f.step)
  refine ⟨Nat.mod_eq_of_lt (Nat.lt_of_lt_of_le hlt hlast), fun i => ⟨fun hi => ?_, fun hi => ?_⟩⟩
  · exact Nat.le_succ_of_le ((h i).mp hi)
  · exact (FrameMode.stepAt_lt_iff f.mode f.region i f.step).mp (Nat.lt_of_le_of_lt hi hlt)

/-- Without the registers, a run over one cycle goes on to the next place, and gives what is due there. -/
theorem Regular.goOn_eq (h : f.Regular) : ∃ step,
    f.goOn 1 = (f.nextEvent, { f with
      elapsed := f.nextPlace, step, irq := f.irq || f.raises
      blocked := if f.nextEvent.isSome then 2 else f.blocked }) ∧
    ∀ i : Fin 6, i < step ↔ f.mode.stepAt f.region i ≤ f.nextPlace := by
  unfold goOn
  rw [h.placed.cyclesOn_one]
  split
  · next hdue =>
    have hplace := h.placed.nextPlace_reach hdue
    have hevent : f.nextEvent = if f.blocked = 0 then stepEvents[f.step] else none := by
      split
      · unfold nextEvent
        rw [hplace, FrameMode.eventAt_step]
      · next hblocked => exact h.free hblocked
    have hraises : f.raises = (!f.irqInhibit && f.mode == .fourStep && decide (3 ≤ f.step)) := by
      unfold raises
      rw [hplace, FrameMode.raisesAt_step, Bool.and_assoc]
    have helapsed : f.nextPlace = if f.step = 5 then 0 else f.elapsed + f.taken 1 := by
      rw [h.placed.taken_one, hplace, FrameMode.placeAfter_eq, ← dueCycle_eq]
      split
      · rfl
      · have := h.placed.elapsed_lt
        omega
    refine ⟨f.nextStep, ?_, fun i => ?_⟩
    · rw [hevent, hraises, helapsed]
      rfl
    · rw [hplace]
      exact FrameMode.lt_succ_iff_le_placeAfter f.mode f.region f.step i
  · next hdue =>
    obtain ⟨hplace, hsteps⟩ := h.placed.nextPlace_between hdue
    have hne (i : Fin 6) : f.elapsed + 1 ≠ f.mode.stepAt f.region i := by
      intro he
      have hi : i < f.step := (hsteps i).mpr (Nat.le_of_eq he.symm)
      have := (h.placed i).mp hi
      omega
    have hevent : f.nextEvent = none := by
      unfold nextEvent
      rw [hplace, FrameMode.eventAt_between hne]
    have hraises : f.raises = false := by
      unfold raises
      rw [hplace, FrameMode.raisesAt_between hne (Nat.succ_ne_zero _), Bool.and_false]
    refine ⟨f.step, ?_, fun i => ?_⟩
    · rw [hevent, hraises, hplace, Bool.or_false]
      rfl
    · rw [hplace]
      exact hsteps i

/-- A counter that was blocked by the event it gave last, if it gave one, is regular. -/
theorem regular_of_given {event : Option FrameEvent} (hplaced : f.Placed)
    (hblocked : f.blocked = if event.isSome then 1 else 0) (hfree : event.isSome → f.nextEvent = none) :
    f.Regular := by
  refine ⟨hplaced, ?_, fun hb => ?_⟩
  · rw [hblocked]
    split <;> decide
  · rw [hblocked] at hb
    split at hb
    · next hevent => exact hfree hevent
    · exact absurd rfl hb

/-- A block by an earlier event ends with the run. -/
theorem Regular.blocked_sub (h : f.Regular) :
    (if f.nextEvent.isSome then 2 else f.blocked) - 1 = if f.nextEvent.isSome then 1 else 0 := by
  have hle := h.blocked_le
  split
  · rfl
  · omega

/-- No written mode takes effect in the next run. -/
def Undisturbed (f : FrameCounter) : Prop := ∀ p ∈ f.pending, 1 < p.delay

theorem settle_goesOn (event : Option FrameEvent) (h : ∀ p ∈ f.pending, 1 < p.delay) : f.settle event =
    (event, { f with pending := f.pending.map fun p => ⟨p.value, p.delay - 1⟩ }) := by
  obtain ⟨region, mode, elapsed, step, irqInhibit, irq, blocked, _ | p⟩ := f
  · rfl
  · exact if_pos (h p rfl)

/-- A run, in its two halves. -/
theorem run_eq_of {cycles : Nat} {event event' : Option FrameEvent} {g g' : FrameCounter}
    (hgo : f.goOn cycles = (event, g)) (hsettle : g.settle event = (event', g')) :
    f.run cycles = (event', { g' with blocked := g'.blocked - 1 }) := by
  unfold run
  rw [hgo]
  dsimp only
  rw [hsettle]

/-- The counter one cycle further in the sequence, where it waits for this step. -/
def goneOn (f : FrameCounter) (step : Fin 6) : FrameCounter :=
  { f with
    elapsed := f.nextPlace, step, irq := f.irq || f.raises
    blocked := if f.nextEvent.isSome then 1 else 0
    pending := f.pending.map fun p => ⟨p.value, p.delay - 1⟩ }

/-- Where no written mode takes effect, a run goes on in the sequence. -/
theorem Regular.run_goesOn (h : f.Regular) (hp : f.Undisturbed) :
    ∃ step, f.run 1 = (f.nextEvent, f.goneOn step) ∧ (f.goneOn step).Regular := by
  obtain ⟨step, hgo, hplaced⟩ := h.goOn_eq
  refine ⟨step, ?_, regular_of_given hplaced rfl fun hevent => ?_⟩
  · rw [run_eq_of hgo (settle_goesOn _ hp), h.blocked_sub]
    rfl
  · exact (FrameMode.eventAt_next (Option.isSome_iff_ne_none.mp hevent)).1

theorem settle_switches (event : Option FrameEvent) (hp : f.pending = some ⟨value, delay⟩)
    (hd : delay ≤ 1) : f.settle event =
      if modeOf value = .fiveStep ∧ f.blocked = 0 then
        (some .half, { f with mode := modeOf value, step := 0, elapsed := 0, pending := none, blocked := 2 })
      else (event, { f with mode := modeOf value, step := 0, elapsed := 0, pending := none }) := by
  unfold settle
  rw [hp]
  exact if_neg (Nat.not_lt.mpr hd)

/-- What is given when a written mode takes effect: what is due, or else a half frame at once if that is
    five-step mode and the counter is not blocked. -/
def switchEvent (f : FrameCounter) (value : UInt8) : Option FrameEvent :=
  if modeOf value = .fiveStep ∧ f.nextEvent = none ∧ f.blocked = 0 then some .half else f.nextEvent

/-- The counter at the start of the sequence of a written mode. -/
def switched (f : FrameCounter) (value : UInt8) : FrameCounter :=
  { new f.region with
    mode := modeOf value, irqInhibit := f.irqInhibit, irq := f.irq || f.raises
    blocked := if (f.switchEvent value).isSome then 1 else 0, pending := none }

theorem regular_switched (f : FrameCounter) (value : UInt8) : (f.switched value).Regular :=
  regular_of_given (placed_start rfl rfl) rfl fun _ => (FrameMode.eventAt_first _ _).1

/-- Where a written mode takes effect, its sequence begins after the run. -/
theorem Regular.run_switches (h : f.Regular) (hp : f.pending = some ⟨value, delay⟩) (hd : delay ≤ 1) :
    f.run 1 = (f.switchEvent value, f.switched value) := by
  obtain ⟨step, hgo, -⟩ := h.goOn_eq
  have hsettle := settle_switches f.nextEvent
    (f := { f with
      elapsed := f.nextPlace, step, irq := f.irq || f.raises
      blocked := if f.nextEvent.isSome then 2 else f.blocked }) hp hd
  unfold switched
  by_cases hhalf : modeOf value = .fiveStep ∧ f.nextEvent = none ∧ f.blocked = 0
  · obtain ⟨hfive, hnone, hfree⟩ := hhalf
    have hevent : f.switchEvent value = some .half := if_pos ⟨hfive, hnone, hfree⟩
    have hnow : modeOf value = .fiveStep ∧ (if f.nextEvent.isSome then 2 else f.blocked) = 0 :=
      ⟨hfive, by rw [hnone]; exact hfree⟩
    rw [run_eq_of hgo (hsettle.trans (if_pos hnow)), hevent]
    rfl
  · have hevent : f.switchEvent value = f.nextEvent := if_neg hhalf
    have hnot : ¬ (modeOf value = .fiveStep ∧ (if f.nextEvent.isSome then 2 else f.blocked) = 0) := by
      rintro ⟨hfive, hfree⟩
      split at hfree
      · cases hfree
      · next hnone => exact hhalf ⟨hfive, Option.not_isSome_iff_eq_none.mp hnone, hfree⟩
    rw [run_eq_of hgo (hsettle.trans (if_neg hnot)), hevent, ← h.blocked_sub]
    rfl

/-- All that a run can come to: the counter goes on in the sequence, or switches. -/
theorem Regular.run_cases (h : f.Regular) :
    (∃ step, f.Undisturbed ∧ f.run 1 = (f.nextEvent, f.goneOn step)) ∨
      ∃ value delay, f.pending = some ⟨value, delay⟩ ∧ delay ≤ 1 ∧
        f.run 1 = (f.switchEvent value, f.switched value) := by
  by_cases hp : f.Undisturbed
  · obtain ⟨step, hrun, -⟩ := h.run_goesOn hp
    exact .inl ⟨step, hp, hrun⟩
  · obtain ⟨⟨value, delay⟩, hp⟩ := Classical.not_forall.mp hp
    obtain ⟨hpending, hd⟩ := Classical.not_imp.mp hp
    have hd := Nat.le_of_not_lt hd
    exact .inr ⟨value, delay, hpending, hd, h.run_switches hpending hd⟩

/-- The counter is regular after a run, whether a mode takes effect in it or not. -/
theorem Regular.run (h : f.Regular) : (f.run 1).2.Regular := by
  rcases h.run_cases with ⟨step, hp, -⟩ | ⟨value, delay, -, -, hrun⟩
  · obtain ⟨step, hrun, hregular⟩ := h.run_goesOn hp
    rw [hrun]
    exact hregular
  · rw [hrun]
    exact f.regular_switched value

/-! ## Runs over single cycles -/

/-- What can become of the counter at one region, if it is run over single cycles. -/
inductive Stepped (region : Region) : FrameCounter → Prop where
  | new : Stepped region (new region)
  | run {f : FrameCounter} : Stepped region f → Stepped region (f.run 1).2
  | writeControl {f : FrameCounter} (value : UInt8) : Stepped region f → Stepped region (f.writeControl value)
  | clearIrq {f : FrameCounter} : Stepped region f → Stepped region f.clearIrq

theorem Stepped.regular (h : Stepped region f) : f.Regular := by
  induction h with
  | new => exact ⟨placed_start rfl rfl, Nat.zero_le 1, fun hb => absurd rfl hb⟩
  | run _ ih => exact ih.run
  | writeControl value _ ih => exact ⟨ih.placed, ih.blocked_le, ih.free⟩
  | clearIrq _ ih => exact ⟨ih.placed, ih.blocked_le, ih.free⟩

theorem Stepped.region_eq (h : Stepped region f) : f.region = region := by
  induction h with
  | new => rfl
  | run _ ih => exact (region_run _ 1).trans ih
  | writeControl value _ ih => exact ih
  | clearIrq _ ih => exact ih

end FrameCounter

end Famicom
