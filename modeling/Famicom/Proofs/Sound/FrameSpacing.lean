/-
  How far apart the frame counter's clocks are.

  An event blocks the counter, so that a written five-step mode does not clock the channels again right
  after a step of the table.  The block is set to two runs, but the run that sets it counts as the first of
  them, so it lasts for one more.

  1. **Between two runs** (`accessAll`): writes and acknowledgements leave the place in the sequence and the
     block as they are; of a mode that waits they may only make the wait begin anew.
  2. **The run of the event** leaves the counter blocked, with two places ahead at which nothing is due
     (`Regular.blocked_run`).
  3. **The second run** gives nothing, and takes the block away (`Blocked.run`).
  4. **The third run** gives a half frame if a five-step mode takes effect in it, else nothing
     (`Clear.event_iff`).

  Main statement: when exactly the second run after an event gives another (`Stepped.clocks_apart`).
-/
import Famicom.Proofs.Sound.FrameSchedule

namespace Famicom.FrameCounter

/-- What may be done to the counter between two runs. -/
inductive Access where
  | write (value : UInt8)
  | acknowledge

variable {f g : FrameCounter} {region : Region} {value : UInt8} {delay : Nat} {accesses : List Access}

/-! ## Between two runs -/

/-- Writes the control register, or acknowledges the interrupt. -/
def access (f : FrameCounter) : Access → FrameCounter
  | .write value => f.writeControl value
  | .acknowledge => f.clearIrq

/-- One after the other. -/
def accessAll (f : FrameCounter) (accesses : List Access) : FrameCounter := accesses.foldl access f

/-- The counters stand at one place of one sequence, and are blocked for the same time. -/
structure Level (f g : FrameCounter) : Prop where
  region_eq : g.region = f.region
  mode_eq : g.mode = f.mode
  elapsed_eq : g.elapsed = f.elapsed
  step_eq : g.step = f.step
  blocked_eq : g.blocked = f.blocked

theorem level_access (f : FrameCounter) (a : Access) : Level f (f.access a) := by
  cases a with
  | write value => exact ⟨rfl, rfl, rfl, rfl, rfl⟩
  | acknowledge => exact ⟨rfl, rfl, rfl, rfl, rfl⟩

theorem level_accessAll (f : FrameCounter) (accesses : List Access) : Level f (f.accessAll accesses) := by
  induction accesses generalizing f with
  | nil => exact ⟨rfl, rfl, rfl, rfl, rfl⟩
  | cons a accesses ih =>
    have h := level_access f a
    have h' := ih (f.access a)
    exact ⟨h'.region_eq.trans h.region_eq, h'.mode_eq.trans h.mode_eq, h'.elapsed_eq.trans h.elapsed_eq,
      h'.step_eq.trans h.step_eq, h'.blocked_eq.trans h.blocked_eq⟩

theorem Level.nextPlace_eq (h : Level f g) : g.nextPlace = f.nextPlace := by
  unfold nextPlace
  rw [h.region_eq, h.mode_eq, h.elapsed_eq]

theorem Level.nextEvent_eq (h : Level f g) : g.nextEvent = f.nextEvent := by
  unfold nextEvent
  rw [h.region_eq, h.mode_eq, h.nextPlace_eq]

theorem Level.regular (h : Level f g) (hf : f.Regular) : g.Regular := by
  refine ⟨fun i => ?_, ?_, fun hb => ?_⟩
  · rw [h.region_eq, h.mode_eq, h.elapsed_eq, h.step_eq]
    exact hf.placed i
  · rw [h.blocked_eq]
    exact hf.blocked_le
  · rw [h.nextEvent_eq]
    rw [h.blocked_eq] at hb
    exact hf.free hb

/-- A mode that has waited for a while is there after the accesses iff it was there before and none of
    them has written another. -/
theorem pending_accessAll_iff (hd : delay < 3) : (f.accessAll accesses).pending = some ⟨value, delay⟩ ↔
    f.pending = some ⟨value, delay⟩ ∧ ∀ v, Access.write v ∉ accesses := by
  induction accesses generalizing f with
  | nil => exact (and_iff_left fun v => List.not_mem_nil).symm
  | cons a accesses ih =>
    refine ih.trans ?_
    cases a with
    | write v =>
      have hnew : (f.access (.write v)).pending = some ⟨v, 3⟩ := rfl
      constructor
      · rintro ⟨h, -⟩
        cases hnew.symm.trans h
        exact absurd hd (Nat.lt_irrefl 3)
      · rintro ⟨-, h⟩
        exact absurd List.mem_cons_self (h v)
    | acknowledge =>
      refine and_congr_right fun _ => forall_congr' fun v => not_congr ?_
      rw [List.mem_cons, or_iff_right]
      exact fun h => Access.noConfusion h

/-- What waits after a run waited before it, a run longer. -/
theorem Regular.pending_run_iff (h : f.Regular) : (f.run 1).2.pending = some ⟨value, delay⟩ ↔
    f.pending = some ⟨value, delay + 1⟩ ∧ 0 < delay := by
  rcases h.run_cases with ⟨step, hp, hrun⟩ | ⟨v, d, hpending, hd, hrun⟩
  · rw [hrun]
    refine Option.map_eq_some_iff.trans ⟨?_, ?_⟩
    · rintro ⟨⟨v, d⟩, hpending, heq⟩
      have hd : 1 < d := hp _ hpending
      cases heq
      exact ⟨by rw [Nat.sub_add_cancel (Nat.le_of_lt hd)]; exact hpending, Nat.sub_pos_of_lt hd⟩
    · rintro ⟨hpending, -⟩
      exact ⟨⟨value, delay + 1⟩, hpending, rfl⟩
  · rw [hrun, hpending]
    refine iff_of_false (fun hnone => ?_) ?_
    · cases hnone
    · rintro ⟨hsome, hpos⟩
      cases hsome
      omega

/-! ## The run of the event -/

/-- The last run gave an event, and at the next two places nothing is due. -/
structure Blocked (f : FrameCounter) : Prop where
  regular : f.Regular
  blocked_eq : f.blocked = 1
  next : f.nextEvent = none
  afterNext : f.mode.eventAt f.region ((f.nextPlace + 1) % f.mode.period f.region) = none

/-- The counter is not blocked, and at the next place nothing is due. -/
structure Clear (f : FrameCounter) : Prop where
  regular : f.Regular
  blocked_eq : f.blocked = 0
  next : f.nextEvent = none

theorem Level.blocked (h : Level f g) (hf : f.Blocked) : g.Blocked := by
  refine ⟨h.regular hf.regular, h.blocked_eq.trans hf.blocked_eq, h.nextEvent_eq.trans hf.next, ?_⟩
  rw [h.region_eq, h.mode_eq, h.nextPlace_eq]
  exact hf.afterNext

theorem Level.clear (h : Level f g) (hf : f.Clear) : g.Clear :=
  ⟨h.regular hf.regular, h.blocked_eq.trans hf.blocked_eq, h.nextEvent_eq.trans hf.next⟩

/-- A run that gives an event leaves the counter blocked. -/
theorem Regular.blocked_run (h : f.Regular) (hevent : (f.run 1).1 ≠ none) : (f.run 1).2.Blocked := by
  have hregular := h.run
  rcases h.run_cases with ⟨step, -, hrun⟩ | ⟨value, delay, -, -, hrun⟩
  · rw [hrun] at hevent hregular ⊢
    obtain ⟨hnext, hafter⟩ := FrameMode.eventAt_next hevent
    exact ⟨hregular, if_pos (Option.isSome_iff_ne_none.mpr hevent), hnext, hafter⟩
  · rw [hrun] at hevent hregular ⊢
    obtain ⟨hnext, hafter⟩ := FrameMode.eventAt_first (modeOf value) f.region
    exact ⟨hregular, if_pos (Option.isSome_iff_ne_none.mpr hevent), hnext, hafter⟩

/-! ## The second run -/

/-- A blocked counter gives nothing, even where a written mode takes effect, and is not blocked after. -/
theorem Blocked.run (h : f.Blocked) : (f.run 1).1 = none ∧ (f.run 1).2.Clear := by
  have hregular := h.regular.run
  rcases h.regular.run_cases with ⟨step, -, hrun⟩ | ⟨value, delay, -, -, hrun⟩
  · rw [hrun] at hregular ⊢
    refine ⟨h.next, hregular, ?_, h.afterNext⟩
    show (if f.nextEvent.isSome then 1 else 0) = 0
    rw [h.next]
    rfl
  · have hnone : f.switchEvent value = none := by
      refine (if_neg ?_).trans h.next
      rintro ⟨-, -, hfree⟩
      cases h.blocked_eq.symm.trans hfree
    rw [hrun] at hregular ⊢
    refine ⟨hnone, hregular, ?_, (FrameMode.eventAt_first (modeOf value) f.region).1⟩
    show (if (f.switchEvent value).isSome then 1 else 0) = 0
    rw [hnone]
    rfl

/-! ## The third run -/

/-- A counter that is not blocked and has nothing due gives a half frame iff a five-step mode takes effect,
    and nothing else. -/
theorem Clear.event_iff (h : f.Clear) (event : FrameEvent) : (f.run 1).1 = some event ↔ event = .half ∧
    ∃ value delay, f.pending = some ⟨value, delay⟩ ∧ delay ≤ 1 ∧ modeOf value = .fiveStep := by
  rcases h.regular.run_cases with ⟨step, hp, hrun⟩ | ⟨value, delay, hpending, hd, hrun⟩
  · rw [hrun]
    show f.nextEvent = some event ↔ _
    rw [h.next]
    constructor
    · intro hsome
      cases hsome
    · rintro ⟨-, value, delay, hpending, hd, -⟩
      exact absurd (hp ⟨value, delay⟩ hpending) (Nat.not_lt.mpr hd)
  · have hevent : f.switchEvent value = if modeOf value = .fiveStep then some .half else none := by
      unfold switchEvent
      rw [h.next, h.blocked_eq]
      simp only [and_true]
    rw [hrun]
    show f.switchEvent value = some event ↔ _
    rw [hevent]
    constructor
    · intro hsome
      split at hsome
      · next hfive =>
        cases hsome
        exact ⟨rfl, value, delay, hpending, hd, hfive⟩
      · cases hsome
    · rintro ⟨rfl, value', delay', hpending', -, hfive⟩
      cases hpending.symm.trans hpending'
      exact if_pos hfive

/-! ## Three runs -/

/-- Writes and acknowledgements go on between the runs.  The run after an event gives nothing.  The second
    one gives another event iff a five-step mode had begun its wait just before the event and no other was
    written since, and then it is the half frame of the switch. -/
theorem Stepped.clocks_apart (h : Stepped region f) (hevent : (f.run 1).1 ≠ none)
    (first second : List Access) :
    let g := (f.run 1).2.accessAll first
    let g' := (g.run 1).2.accessAll second
    (g.run 1).1 = none ∧ ∀ event, (g'.run 1).1 = some event ↔ event = .half ∧
      (∃ value, f.pending = some ⟨value, 3⟩ ∧ modeOf value = .fiveStep) ∧
        ∀ v, Access.write v ∉ first ++ second := by
  intro g g'
  have hg : g.Blocked := (level_accessAll _ first).blocked (h.regular.blocked_run hevent)
  obtain ⟨hnone, hclear⟩ := hg.run
  have hg' : g'.Clear := (level_accessAll _ second).clear hclear
  refine ⟨hnone, fun event => (hg'.event_iff event).trans (and_congr_right fun _ => ?_)⟩
  -- what takes effect now has waited for two runs
  have hwait (value : UInt8) (delay : Nat) (hd : delay ≤ 1) : g'.pending = some ⟨value, delay⟩ ↔
      (f.pending = some ⟨value, delay + 2⟩ ∧ 0 < delay) ∧ ∀ v, Access.write v ∉ first ++ second := by
    rw [pending_accessAll_iff (Nat.lt_of_le_of_lt hd (by decide)), hg.regular.pending_run_iff,
      pending_accessAll_iff (Nat.lt_of_le_of_lt (Nat.succ_le_succ hd) (by decide)),
      h.regular.pending_run_iff]
    simp only [List.mem_append, not_or, forall_and]
    tauto
  constructor
  · rintro ⟨value, delay, hpending, hd, hfive⟩
    obtain ⟨⟨hf, hpos⟩, hno⟩ := (hwait value delay hd).mp hpending
    obtain rfl : delay = 1 := Nat.le_antisymm hd hpos
    exact ⟨⟨value, hf, hfive⟩, hno⟩
  · rintro ⟨⟨value, hf, hfive⟩, hno⟩
    exact ⟨value, 1, (hwait value 1 (Nat.le_refl 1)).mpr ⟨⟨hf, Nat.one_pos⟩, hno⟩, Nat.le_refl 1, hfive⟩

/-! ## A write just before a step -/

/-- In the run after a write the mode in effect goes on. -/
theorem Underway.written_run {mode : FrameMode} {inhibit : Bool} {k : Nat}
    (h : Underway region mode inhibit k f) (value : UInt8) :
    ((f.writeControl value).run 1).1 = mode.eventAt region ((k + 1) % mode.period region) := by
  have hregular : (f.writeControl value).Regular := (level_access f (.write value)).regular h.regular
  obtain ⟨step, hrun, -⟩ := hregular.run_goesOn fun p hp => by
    cases hp
    exact Nat.one_lt_succ_succ 1
  rw [hrun, ← h.nextPlace_eq, ← h.mode_eq, ← h.region_eq]
  rfl

/-- Power-on acts as a write of zero. -/
theorem new_writeControl_zero (region : Region) :
    (FrameCounter.new region).writeControl 0 = FrameCounter.new region := rfl

/-- A counter to which five-step mode is written in the cycle before its first step. -/
def lateWrite : FrameCounter := ((FrameCounter.new .ntsc).runs (fun _ => false) 7459).writeControl 0x80

theorem stepped_lateWrite : Stepped .ntsc lateWrite := (Stepped.new.runs _ 7459).writeControl 0x80

/-- The next run gives the quarter frame of that step. -/
theorem lateWrite_run : (lateWrite.run 1).1 = some .quarter := by
  have hnew : (FrameCounter.new .ntsc).Regular := Stepped.new.regular
  obtain ⟨-, -, hzero⟩ := hnew.runs_three 0 fun _ => false
  have hplace : Underway .ntsc .fourStep false 7456 ((FrameCounter.new .ntsc).runs (fun _ => false) 7459) := by
    rw [new_writeControl_zero] at hzero
    exact hzero.runs 7456
  exact hplace.written_run 0x80

/-- So two events may be only two runs apart. -/
theorem exists_events_two_apart : ∃ f : FrameCounter, Stepped .ntsc f ∧ (f.run 1).1 = some .quarter ∧
    ((f.run 1).2.run 1).1 = none ∧ (((f.run 1).2.run 1).2.run 1).1 = some .half := by
  have hregular := stepped_lateWrite.regular
  have hblocked := hregular.blocked_run (by rw [lateWrite_run]; exact Option.some_ne_none _)
  obtain ⟨hnone, hclear⟩ := hblocked.run
  have htwo : (lateWrite.run 1).2.pending = some ⟨0x80, 2⟩ :=
    hregular.pending_run_iff.mpr ⟨rfl, by decide⟩
  have hone : ((lateWrite.run 1).2.run 1).2.pending = some ⟨0x80, 1⟩ :=
    hblocked.regular.pending_run_iff.mpr ⟨htwo, by decide⟩
  exact ⟨lateWrite, stepped_lateWrite, lateWrite_run, hnone,
    (hclear.event_iff .half).mpr ⟨rfl, 0x80, 1, hone, Nat.le_refl 1, rfl⟩⟩

/-- An acknowledgement in between changes nothing in that. -/
theorem Stepped.clocks_apart_lateWrite : Stepped .ntsc lateWrite ∧ (lateWrite.run 1).1 ≠ none ∧
    (((lateWrite.run 1).2.accessAll [.acknowledge]).run 1).1 = none ∧
    (((((lateWrite.run 1).2.accessAll [.acknowledge]).run 1).2.accessAll []).run 1).1 = some .half := by
  have hevent : (lateWrite.run 1).1 ≠ none := by
    rw [lateWrite_run]
    exact Option.some_ne_none _
  obtain ⟨hnone, hhalf⟩ := Stepped.clocks_apart stepped_lateWrite hevent [.acknowledge] []
  exact ⟨stepped_lateWrite, hevent, hnone, (hhalf .half).mpr ⟨rfl, ⟨0x80, rfl, rfl⟩, by simp⟩⟩

end Famicom.FrameCounter
