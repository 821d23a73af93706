/-
  Refused frames: what they leave behind, and when that is what was there before.

  A frame is refused at the first moment that the resampler has no slots for, or, with all moments carried
  out, at its end.

  1. **Where it stops** (`applyChanges_error`, `inOrder_cut`): the moments before the refused one are
     carried out as if nothing else were noted, and the levels have taken in the refused one as well.
  2. **What it leaves** (`StopsAt`, `StopsAtEnd`): levels, steps and slots, told by the cycle of the refused
     moment and by what the changes amount to.
  3. **When that is what was there** (`StopsAt.unchanged_iff`, `StopsAtEnd.unchanged_iff`): only where
     nothing was to be done up to the refused moment (`Idle`).
  4. **Trying again** (`Unchanged.endFrame`, `StopsAt.stepsOf`): an unchanged mixer replays the frame as it
     was.  Else all changes up to the refused moment count from the first cycle that is noted.

  Main statement: what every refused frame comes to (`endFrame_refusal`).  A change that is refused is in
  the levels all the same (`refused_change_stays`).
-/
import Famicom.Proofs.Mixer.Replay

namespace Famicom

namespace LevelChange

variable {P Q : Nat → Prop} [DecidablePred P] [DecidablePred Q] {d late : LevelChange}
  {ds es before after : List LevelChange}

/-! ## Sums of some cycles -/

theorem sumWhere_congr (h : ∀ d ∈ ds, P d.cycle ↔ Q d.cycle) : sumWhere P ds = sumWhere Q ds := by
  unfold sumWhere
  rw [List.filter_congr fun d hd => decide_eq_decide.mpr (h d hd)]

/-- To leave out some changes is to sum up those that are left. -/
theorem sumWhere_filter (ds : List LevelChange) :
    sumWhere P (ds.filter fun d => Q d.cycle) = sumWhere (fun cycle => P cycle ∧ Q cycle) ds := by
  unfold sumWhere
  simp only [List.filter_filter, Bool.decide_and]

/-- Each cycle is of one kind or the other. -/
theorem sumWhere_split (Q : Nat → Prop) [DecidablePred Q] (ds : List LevelChange) :
    sumWhere P ds =
      sumWhere (fun cycle => P cycle ∧ Q cycle) ds + sumWhere (fun cycle => P cycle ∧ ¬ Q cycle) ds := by
  induction ds with
  | nil => exact (add_zero _).symm
  | cons d ds ih =>
    rw [sumWhere_cons, sumWhere_cons, sumWhere_cons, ih]
    by_cases hP : P d.cycle
    · by_cases hQ : Q d.cycle
      · rw [if_pos hP, if_pos ⟨hP, hQ⟩, if_neg fun h => h.2 hQ, zero_add, add_assoc]
      · rw [if_pos hP, if_neg fun h => hQ h.2, if_pos ⟨hP, hQ⟩, zero_add, add_left_comm]
    · rw [if_neg hP, if_neg fun h => hP h.1, if_neg fun h => hP h.1, zero_add, zero_add, zero_add]

/-- Changes of one cycle can be put together first. -/
theorem sumWhere_effective (ds : List LevelChange) : sumWhere P (effective ds) = sumWhere P ds := by
  rw [← sumWhere_inOrder ds, effective]
  induction inOrder ds with
  | nil => rfl
  | cons d rest ih =>
    rw [sumWhere_cons, ← ih]
    by_cases hd : d.amounts = 0
    · rw [List.filter_cons_of_neg (by simpa using hd), hd, ite_self, zero_add]
    · rw [List.filter_cons_of_pos (by simpa using hd), sumWhere_cons]

/-- Only the cycles that are left have a sum. -/
theorem sumWhere_cycle_filter (ds : List LevelChange) (cycle : Nat) :
    sumWhere (· = cycle) (ds.filter fun d => P d.cycle) =
      if P cycle then sumWhere (· = cycle) ds else 0 := by
  rw [sumWhere_filter]
  split
  · next hP => exact sumWhere_congr fun d _ => and_iff_left_of_imp fun hd => hd ▸ hP
  · next hP => exact sumWhere_eq_zero fun d _ hd => hP (hd.1 ▸ hd.2)

/-- Sums go by what the changes of each cycle amount to. -/
theorem sumWhere_of_cycles (h : ∀ cycle, P cycle → sumWhere (· = cycle) ds = sumWhere (· = cycle) es) :
    sumWhere P ds = sumWhere P es := by
  have hall : ∀ ms : List LevelChange,
      sumWhere P ms = sumWhere (fun _ => True) (effective (ms.filter fun d => P d.cycle)) := by
    intro ms
    rw [sumWhere_effective, sumWhere_filter]
    exact sumWhere_congr fun d _ => (and_iff_right trivial).symm
  have hcut : ∀ cycle, sumWhere (· = cycle) (ds.filter fun d => P d.cycle) =
      sumWhere (· = cycle) (es.filter fun d => P d.cycle) := by
    intro cycle
    rw [sumWhere_cycle_filter, sumWhere_cycle_filter]
    split
    · next hP => exact h cycle hP
    · rfl
  rw [hall ds, hall es, effective_congr hcut]

/-- Changes that cancel at every cycle add up to nothing. -/
theorem sumWhere_of_zero (h : ∀ cycle, P cycle → sumWhere (· = cycle) ds = 0) : sumWhere P ds = 0 := by
  show sumWhere P ds = sumWhere P []
  exact sumWhere_of_cycles h

/-! ## Where the moments are cut -/

theorem inOrder_nil : inOrder [] = [] := by rw [inOrder, List.mergeSort_nil, merge]

/-- Moments of some cycles are those of the changes of these cycles. -/
theorem inOrder_filter (ds : List LevelChange) :
    inOrder (ds.filter fun d => P d.cycle) = (inOrder ds).filter fun d => P d.cycle := by
  refine eq_of_mem_iff (inOrder_pairwise _) ((inOrder_pairwise ds).filter _) fun d => ?_
  have hcycles : d.cycle ∈ (ds.filter fun d => P d.cycle).map (·.cycle) ↔
      d.cycle ∈ ds.map (·.cycle) ∧ P d.cycle := by
    simp only [List.mem_map, List.mem_filter, decide_eq_true_eq]
    constructor
    · rintro ⟨e, ⟨he, hP⟩, heq⟩
      exact ⟨⟨e, he, heq⟩, heq ▸ hP⟩
    · rintro ⟨⟨e, he, heq⟩, hP⟩
      exact ⟨e, ⟨he, heq ▸ hP⟩, heq⟩
  rw [List.mem_filter, decide_eq_true_eq, mem_inOrder, mem_inOrder, hcycles, sumWhere_cycle_filter,
    and_right_comm]
  exact and_congr_left fun hP => by rw [if_pos hP]

/-- A moment that has been dealt with. -/
def spent (d : LevelChange) : LevelChange := { d with amounts := {} }

/-- A change that has been applied adds nothing any more. -/
theorem sumWhere_spent (ds : List LevelChange) : sumWhere P (ds.map spent) = 0 := by
  induction ds with
  | nil => rfl
  | cons d ds ih =>
    rw [List.map_cons, sumWhere_cons, ih, add_zero]
    exact ite_self 0

theorem cycles_spent (ds : List LevelChange) : (ds.map spent).map (·.cycle) = ds.map (·.cycle) := by
  rw [List.map_map]
  rfl

section

variable (h : inOrder ds = before ++ late :: after)

include h

theorem before_lt : ∀ d ∈ before, d.cycle < late.cycle := by
  have hp := inOrder_pairwise ds
  rw [h] at hp
  exact fun d hd => (List.pairwise_append.mp hp).2.2 d hd late List.mem_cons_self

theorem lt_after : ∀ d ∈ after, late.cycle < d.cycle := by
  have hp := inOrder_pairwise ds
  rw [h] at hp
  exact (List.pairwise_cons.mp (List.pairwise_append.mp hp).2.1).1

theorem amounts_late : late.amounts = sumWhere (· = late.cycle) ds :=
  amounts_of_mem (h ▸ List.mem_append_right before List.mem_cons_self)

/-- The moments before a moment are those of the changes before it. -/
theorem inOrder_cut : before = inOrder (ds.filter fun d => d.cycle < late.cycle) := by
  have hbefore : before.filter (fun d => d.cycle < late.cycle) = before :=
    List.filter_eq_self.mpr fun d hd => decide_eq_true (before_lt h d hd)
  have hafter : after.filter (fun d => d.cycle < late.cycle) = [] :=
    List.filter_eq_nil_iff.mpr fun d hd => by
      rw [decide_eq_true_eq]
      exact Nat.lt_asymm (lt_after h d hd)
  have hlate : (late :: after).filter (fun d => d.cycle < late.cycle) = [] := by
    rw [List.filter_cons_of_neg (by simp), hafter]
  rw [inOrder_filter (P := (· < late.cycle)), h, List.filter_append, hbefore, hlate, List.append_nil]

/-- The moments after it amount to the changes after it. -/
theorem sumWhere_after : sumWhere P after = sumWhere (fun cycle => P cycle ∧ late.cycle < cycle) ds := by
  have hnone : ∀ d ∈ before, ¬ (P d.cycle ∧ late.cycle < d.cycle) :=
    fun d hd hlt => Nat.lt_asymm hlt.2 (before_lt h d hd)
  have hzero := sumWhere_eq_zero (P := fun cycle => P cycle ∧ late.cycle < cycle) hnone
  rw [← sumWhere_inOrder ds, h, sumWhere_append, hzero, zero_add, sumWhere_cons,
    if_neg fun hlt => Nat.lt_irrefl _ hlt.2, zero_add]
  exact sumWhere_congr fun d hd => (and_iff_left (lt_after h d hd)).symm

end

end LevelChange

open LevelChange

namespace Mixer

variable {m q : Mixer} {time late : Nat}

/-! ## Where a frame stops

  A frame may be refused at a change that cannot be told or at its own end.  Both are told with all
  that has been done by then, as there is no way back from it. -/

/-- A change that cannot be told has moved the levels already. -/
theorem applyChange_error {d : LevelChange} {e : ResampleError} (h : m.applyChange d = (.error e, q)) :
    ¬ m.Reaches d.cycle ∧ q = { m with levels := m.levels + d.amounts } := by
  have hspec := (m.applyChange_spec d).2
  rw [h] at hspec
  rcases hspec with ⟨-, hok⟩ | ⟨hno, -⟩
  · cases hok
  · refine ⟨hno, ?_⟩
    rw [applyChange_eq] at h
    split at h
    · cases h
    · cases h
      rfl

/-- Moments are carried out up to the first that has no slots; that one only changes the levels, and those
    dealt with stay noted without their changes. -/
theorem applyChanges_error {past moments : List LevelChange} {e : ResampleError}
    (h : m.applyChanges past moments = (.error e, q)) : ∃ before late after p,
      moments = before ++ late :: after ∧ (∀ d ∈ before, m.Reaches d.cycle) ∧ ¬ m.Reaches late.cycle ∧
      m.applyChanges past before = (.ok (), p) ∧
      q = { p with
        levels := p.levels + late.amounts
        pending := (past.reverse ++ ((before ++ [late]).map spent ++ after)).toArray } := by
  induction moments generalizing m past with
  | nil => cases h
  | cons d rest ih =>
    rw [applyChanges] at h
    rcases hc : m.applyChange d with ⟨e' | ⟨⟩, p⟩
    · obtain ⟨hno, rfl⟩ := applyChange_error hc
      rw [hc] at h
      cases h
      refine ⟨[], d, rest, { m with pending := #[] }, rfl, fun d hd => (by cases hd), hno, rfl, ?_⟩
      rw [List.reverse_cons, List.append_assoc]
      rfl
    · obtain ⟨hk, ⟨hd, -⟩ | ⟨-, hd⟩⟩ := m.applyChange_spec d
      · rw [hc] at h hk
        obtain ⟨before, late, after, p', rfl, hbefore, hlate, hp', rfl⟩ := ih h
        have hr : ∀ cycle, p.Reaches cycle ↔ m.Reaches cycle :=
          fun _ => Resampler.reaches_congr hk.gauge
        refine ⟨d :: before, late, after, p', rfl, ?_, mt (hr _).mpr hlate, ?_, ?_⟩
        · exact List.forall_mem_cons.mpr ⟨hd, fun d' hd' => (hr _).mp (hbefore d' hd')⟩
        · rw [applyChanges, hc]
          exact hp'
        · rw [List.reverse_cons, List.append_assoc]
          rfl
      · rw [hc] at hd
        cases hd

/-- The first moment that the resampler has no slots for. -/
structure FirstLate (m : Mixer) (late : Nat) : Prop where
  mem : late ∈ m.noted
  out_of_reach : ¬ m.Reaches late
  early : ∀ cycle ∈ m.noted, cycle < late → m.Reaches cycle

/-- The changes before a cycle. -/
def before (m : Mixer) (cycle : Nat) : List LevelChange :=
  m.pending.toList.filter fun d => d.cycle < cycle

/-- What a frame leaves that stops at a moment. -/
structure StopsAt (m : Mixer) (late : Nat) (q : Mixer) : Prop where
  first : m.FirstLate late
  /-- The levels are those of the refused moment. -/
  levels : q.levels = m.levels.upTo m.pending.toList late
  /-- The resampler has the steps of the moments before, and stands where they lead. -/
  steps : m.resampler.addSteps (m.stepsOf (m.before late)) = .ok q.resampler
  lastOutput : q.lastOutput = m.lastLevel (m.before late)
  /-- Only the changes after the refused moment are still noted. -/
  amounts : ∀ (P : Nat → Prop) [DecidablePred P], sumWhere P q.pending.toList =
    sumWhere (fun cycle => P cycle ∧ late < cycle) m.pending.toList
  /-- But all cycles are. -/
  noted : ∀ cycle, cycle ∈ q.noted ↔ cycle ∈ m.noted
  rest : q.region = m.region ∧ q.settings = m.settings ∧ q.output = m.output

/-- What a frame leaves that stops at its end. -/
structure StopsAtEnd (m : Mixer) (time : Nat) (q : Mixer) : Prop where
  reached : ∀ cycle ∈ m.noted, m.Reaches cycle
  full : ¬ m.resampler.Holds (.ofNat time)
  levels : q.levels = m.levels + sumWhere (fun _ => True) m.pending.toList
  steps : m.resampler.addSteps (m.stepsOf m.pending.toList) = .ok q.resampler
  lastOutput : q.lastOutput = m.lastLevel m.pending.toList
  pending : q.pending = #[]
  rest : q.region = m.region ∧ q.settings = m.settings ∧ q.output = m.output

theorem sumWhere_before (m : Mixer) (cycle : Nat) :
    sumWhere (fun _ => True) (m.before cycle) = sumWhere (· < cycle) m.pending.toList := by
  rw [before, sumWhere_filter (Q := (· < cycle))]
  exact sumWhere_congr fun d _ => and_iff_right trivial

/-- The changes up to a cycle are those before it and its own. -/
theorem upTo_eq (l : Levels) (changes : List LevelChange) (cycle : Nat) :
    l.upTo changes cycle =
      l + sumWhere (· < cycle) changes + sumWhere (· = cycle) changes := by
  rw [Levels.upTo, sumWhere_split (· < cycle), add_assoc]
  congr 2
  · exact sumWhere_congr fun d _ => by omega
  · exact sumWhere_congr fun d _ => by omega

/-- Changes that cannot all be applied stop at the first that cannot be told. -/
theorem stopsAt_of_error {e : ResampleError}
    (h : m.applyChanges [] (inOrder m.pending.toList) = (.error e, q)) : ∃ late, StopsAt m late q := by
  obtain ⟨before, late, after, p, hcut, hbefore, hlate, hp, rfl⟩ := applyChanges_error h
  have hcycles := mem_cycles_inOrder m.pending.toList
  have hmem : late ∈ inOrder m.pending.toList := hcut ▸ List.mem_append_right before List.mem_cons_self
  obtain rfl : before = inOrder (m.before late.cycle) := inOrder_cut hcut
  obtain ⟨resampler, hsteps, rfl⟩ := applyChanges_inOrder.mp hp
  refine ⟨late.cycle, ⟨?_, hlate, ?_⟩, ?_, hsteps, rfl, ?_, ?_, rfl, rfl, rfl⟩
  · exact (hcycles _).mp (List.mem_map_of_mem hmem)
  · intro cycle hc hlt
    obtain ⟨d, hd, rfl⟩ := List.mem_map.mp ((hcycles cycle).mpr hc)
    rcases List.mem_append.mp (hcut ▸ hd) with hd | hd
    · exact hbefore d hd
    · rcases List.mem_cons.mp hd with rfl | hd
      · exact absurd hlt (Nat.lt_irrefl _)
      · exact absurd hlt (Nat.lt_asymm (lt_after hcut d hd))
  · rw [upTo_eq, ← amounts_late hcut, ← sumWhere_before]
  · intro P _
    show sumWhere P ((inOrder (m.before late.cycle) ++ [late]).map spent ++ after) = _
    rw [sumWhere_append, sumWhere_spent, zero_add, sumWhere_after hcut]
  · intro cycle
    refine Iff.trans ?_ (hcycles cycle)
    show cycle ∈ ((inOrder (m.before late.cycle) ++ [late]).map spent ++ after).map (·.cycle) ↔ _
    rw [List.map_append, cycles_spent, hcut]
    simp

/-- A frame that is refused stops at a change or at its end. -/
theorem endFrame_stops (h : m.endFrame time = (.error .overflow, q)) :
    (∃ late, StopsAt m late q) ∨ StopsAtEnd m time q := by
  rcases m.endFrame_cases time with ⟨e, p, hc, he⟩ | ⟨p, hc, hend⟩
  · cases h.symm.trans he
    exact .inl (stopsAt_of_error hc)
  · rcases hend with ⟨resampler, -, he⟩ | ⟨e, hr, he⟩
    · cases h.symm.trans he
    · cases h.symm.trans he
      have hk := m.applyChanges_keeps [] (inOrder m.pending.toList)
      have hspec := m.applyChanges_spec [] (inOrder m.pending.toList)
      rw [hc] at hk hspec
      have hfull := mt (Resampler.holds_congr hk.gauge).mpr (Resampler.not_holds_of_endFrame hr).1
      obtain ⟨resampler, hsteps, rfl⟩ := applyChanges_inOrder.mp hc
      rcases hspec with ⟨hreach, -, -⟩ | ⟨-, hno, -⟩
      · refine .inr ⟨fun cycle hcycle => ?_, hfull, rfl, hsteps, rfl, rfl, rfl, rfl, rfl⟩
        obtain ⟨d, hd, rfl⟩ := List.mem_map.mp ((mem_cycles_inOrder _ cycle).mpr hcycle)
        exact hreach d hd
      · cases hno

/-! ## What is as it was -/

/-- A mixer that is where it was, with the same changes noted at the same cycles. -/
structure Unchanged (m q : Mixer) : Prop where
  levels : q.levels = m.levels
  lastOutput : q.lastOutput = m.lastOutput
  resampler : q.resampler = m.resampler
  amounts : ∀ cycle, sumWhere (· = cycle) q.pending.toList = sumWhere (· = cycle) m.pending.toList
  noted : ∀ cycle, cycle ∈ q.noted ↔ cycle ∈ m.noted
  rest : q.region = m.region ∧ q.settings = m.settings ∧ q.output = m.output

/-- There is nothing to be done up to the first moment without slots: its changes and all before it amount
    to nothing, and if there are any before it, the resampler stands at the mixed level. -/
def Idle (m : Mixer) (late : Nat) : Prop :=
  (∀ cycle ≤ late, sumWhere (· = cycle) m.pending.toList = 0) ∧
    ((∀ cycle ∈ m.noted, late ≤ cycle) ∨ m.Level)

/-- The moments before the refused one, carried out by themselves. -/
theorem StopsAt.carried (h : StopsAt m late q) :
    m.applyChanges [] (inOrder (m.before late)) = (.ok (), { m with
      pending := #[], levels := m.levels + sumWhere (· < late) m.pending.toList
      lastOutput := q.lastOutput, resampler := q.resampler }) := by
  refine applyChanges_inOrder.mpr ⟨q.resampler, h.steps, ?_⟩
  rw [h.lastOutput, sumWhere_before]

/-- There are no moments before the first cycle that is noted. -/
theorem inOrder_before_eq_nil : inOrder (m.before late) = [] ↔ ∀ cycle ∈ m.noted, late ≤ cycle := by
  constructor
  · intro hnil cycle hc
    refine Nat.not_lt.mp fun hlt => ?_
    obtain ⟨d, hd, rfl⟩ := List.mem_map.mp hc
    have hbefore : d ∈ m.before late := List.mem_filter.mpr ⟨hd, decide_eq_true hlt⟩
    have hmem := (mem_cycles_inOrder (m.before late) d.cycle).mpr (List.mem_map_of_mem hbefore)
    rw [hnil] at hmem
    cases hmem
  · intro h
    have hnil : m.before late = [] := by
      refine List.filter_eq_nil_iff.mpr fun d hd => ?_
      rw [decide_eq_true_eq]
      exact Nat.not_lt.mpr (h d.cycle (List.mem_map_of_mem hd))
    rw [hnil, inOrder_nil]

theorem StopsAt.idle (h : StopsAt m late q) (hu : Unchanged m q) : m.Idle late := by
  have hzero : ∀ cycle ≤ late, sumWhere (· = cycle) m.pending.toList = 0 := by
    intro cycle hle
    rw [← hu.amounts, h.amounts]
    exact sumWhere_eq_zero fun d _ hd => Nat.not_lt.mpr hle (hd.1 ▸ hd.2)
  refine ⟨hzero, ?_⟩
  by_cases hnil : inOrder (m.before late) = []
  · exact .inl (inOrder_before_eq_nil.mp hnil)
  · -- a moment before has brought the resampler to the mixed level, and there it was already
    have hlevel := applyChanges_level h.carried (.inl hnil)
    have hsum : sumWhere (· < late) m.pending.toList = 0 :=
      sumWhere_of_zero fun cycle hlt => hzero cycle (Nat.le_of_lt hlt)
    refine .inr ?_
    unfold Level outputVolume at *
    dsimp only at hlevel
    rwa [hsum, add_zero, hu.lastOutput] at hlevel

/-- Where nothing is to be done, the moments before the refused one leave no trace. -/
theorem StopsAt.still (h : StopsAt m late q) (hidle : m.Idle late) :
    q.lastOutput = m.lastOutput ∧ q.resampler = m.resampler := by
  have hcarried : m.applyChanges [] [] = (.ok (), { m with
      pending := #[], levels := m.levels + sumWhere (· < late) m.pending.toList
      lastOutput := q.lastOutput, resampler := q.resampler }) := by
    rcases hidle.2 with hfirst | hlevel
    · rw [← h.carried, inOrder_before_eq_nil.mpr hfirst]
    · have hbefore : ∀ cycle, sumWhere (· = cycle) (m.before late) = sumWhere (· = cycle) [] := by
        intro cycle
        rw [before, sumWhere_cycle_filter (P := (· < late))]
        split
        · next hlt => exact hidle.1 cycle (Nat.le_of_lt hlt)
        · rfl
      have heffective : m.applyChanges [] (effective (m.before late)) = _ :=
        applyChanges_effective hlevel h.carried
      rwa [effective_congr hbefore, effective, inOrder_nil] at heffective
  exact ⟨(congrArg (·.2.lastOutput) hcarried).symm, (congrArg (·.2.resampler) hcarried).symm⟩

/-- Stopping at a change leaves the mixer as it was only if nothing has been applied and the change is
    none. -/
theorem StopsAt.unchanged_iff (h : StopsAt m late q) : Unchanged m q ↔ m.Idle late := by
  refine ⟨h.idle, fun hidle => ?_⟩
  obtain ⟨hlast, hresampler⟩ := h.still hidle
  refine ⟨?_, hlast, hresampler, fun cycle => ?_, h.noted, h.rest⟩
  · rw [h.levels, Levels.upTo, sumWhere_of_zero hidle.1, add_zero]
  · rw [h.amounts]
    by_cases hle : cycle ≤ late
    · rw [hidle.1 cycle hle]
      exact sumWhere_eq_zero fun d _ hd => Nat.not_lt.mpr hle (hd.1 ▸ hd.2)
    · exact sumWhere_congr fun d _ => and_iff_left_of_imp fun hd => hd ▸ Nat.not_le.mp hle

/-- Stopping at the end does so only if there are no changes. -/
theorem StopsAtEnd.unchanged_iff (h : StopsAtEnd m time q) : Unchanged m q ↔ m.pending = #[] := by
  constructor
  · intro hu
    refine Array.toList_eq_nil_iff.mp (List.eq_nil_iff_forall_not_mem.mpr fun d hd => ?_)
    have hq := (hu.noted d.cycle).mpr (List.mem_map_of_mem hd)
    rw [noted, h.pending] at hq
    cases hq
  · intro hp
    have hcarried : m.applyChanges [] (inOrder m.pending.toList) = (.ok (), _) :=
      applyChanges_inOrder.mpr ⟨q.resampler, h.steps, rfl⟩
    rw [hp, inOrder_nil] at hcarried
    have hlast : m.lastLevel #[].toList = m.lastOutput := (congrArg (·.2.lastOutput) hcarried).symm
    have hresampler : q.resampler = m.resampler := (congrArg (·.2.resampler) hcarried).symm
    refine ⟨?_, ?_, hresampler, fun cycle => ?_, fun cycle => ?_, h.rest⟩
    · rw [h.levels, hp]
      exact add_zero _
    · rw [h.lastOutput, hp, hlast]
    · rw [h.pending, hp]
    · rw [noted, noted, h.pending, hp]

/-! ## Trying again -/

/-- Mixers with changes noted at the same cycles stop at the same cycles. -/
theorem stops_of_noted (h : ∀ cycle, cycle ∈ q.noted ↔ cycle ∈ m.noted) :
    stops q.pending.toList = stops m.pending.toList :=
  (stops_pairwise _).eq_of_mem_iff (stops_pairwise _) fun cycle => by
    rw [mem_stops, mem_stops]
    exact h cycle

/-- Whatever room is made for an unchanged mixer, it replays the frame as the mixer would have before. -/
theorem Unchanged.endFrame (h : Unchanged m q) (resampler : Resampler) (time : Nat) (p : Mixer) :
    { q with resampler }.endFrame time = (.ok (), p) ↔
      { m with resampler }.endFrame time = (.ok (), p) := by
  rw [endFrame_eq_ok_iff, endFrame_eq_ok_iff]
  dsimp only
  rw [reference_congr (stops_of_noted h.noted) fun P _ => sumWhere_of_cycles fun cycle _ => h.amounts cycle]
  -- what is noted is passed to the reference, which looks at nothing else but the levels
  obtain ⟨hregion, hsettings, houtput⟩ := h.rest
  unfold reference stepsOf lastLevel levelAt
  dsimp only
  rw [h.levels, h.lastOutput, hregion, hsettings, houtput]

/-- Tried again after it has stopped at a moment, a frame takes the levels of that moment for all cycles
    before it, from the first on. -/
theorem StopsAt.stepsOf (h : StopsAt m late q) : q.stepsOf q.pending.toList =
    stepsTo (fun cycle => m.levelAt m.pending.toList (max late cycle)) (m.lastLevel (m.before late))
      (stops m.pending.toList) := by
  have hlevel : q.levelAt q.pending.toList = fun cycle => m.levelAt m.pending.toList (max late cycle) := by
    funext cycle
    unfold levelAt
    congr 1
    rw [Levels.upTo, h.levels, h.amounts, Levels.upTo, Levels.upTo,
      sumWhere_split (P := (· ≤ max late cycle)) (· ≤ late), add_assoc]
    congr 2
    · exact sumWhere_congr fun d _ => by omega
    · exact sumWhere_congr fun d _ => by omega
  rw [Mixer.stepsOf, stops_of_noted h.noted, hlevel, h.lastOutput]

/-! ## Together -/

theorem FirstLate.unique {late' : Nat} (h : m.FirstLate late) (h' : m.FirstLate late') : late = late' := by
  rcases Nat.lt_trichotomy late late' with hlt | heq | hlt
  · exact absurd (h'.early late h.mem hlt) h.out_of_reach
  · exact heq
  · exact absurd (h.early late' h'.mem hlt) h'.out_of_reach

/-- What a refused frame comes to. -/
structure Refused (m : Mixer) (time : Nat) (q : Mixer) : Prop where
  /-- It stops at the first moment without slots, or at its end. -/
  stops : (∃ late, StopsAt m late q) ∨ StopsAtEnd m time q
  /-- It changes nothing iff nothing is noted, or nothing was to be done up to that moment. -/
  unchanged : Unchanged m q ↔ m.pending = #[] ∨ ∃ late, m.FirstLate late ∧ m.Idle late
  /-- Then it can be replayed as it was, whatever room is made. -/
  replay : Unchanged m q → ∀ resampler time p, { q with resampler }.endFrame time = (.ok (), p) ↔
    { m with resampler }.endFrame time = (.ok (), p)
  /-- In general all changes up to that moment are replayed at the first cycle noted. -/
  moved : ∀ late, StopsAt m late q → q.stepsOf q.pending.toList =
    stepsTo (fun cycle => m.levelAt m.pending.toList (max late cycle)) (m.lastLevel (m.before late))
      (LevelChange.stops m.pending.toList)

/-- What every refused frame comes to. -/
theorem endFrame_refusal (h : m.endFrame time = (.error .overflow, q)) : Refused m time q := by
  have hstops := endFrame_stops h
  refine ⟨hstops, ?_, Unchanged.endFrame, fun late => StopsAt.stepsOf⟩
  rcases hstops with ⟨late, hlate⟩ | hend
  · rw [hlate.unchanged_iff]
    have hnoted : m.pending ≠ #[] := by
      intro hp
      have hmem := hlate.first.mem
      rw [noted, hp] at hmem
      cases hmem
    constructor
    · exact fun hidle => .inr ⟨late, hlate.first, hidle⟩
    · rintro (hp | ⟨late', hfirst, hidle⟩)
      · exact absurd hp hnoted
      · rwa [hlate.first.unique hfirst]
  · rw [hend.unchanged_iff]
    constructor
    · exact .inl
    · rintro (hp | ⟨late, hfirst, -⟩)
      · exact hp
      · exact absurd (hend.reached late hfirst.mem) hfirst.out_of_reach

/-- A silent mixer with room for one sample, told of a change far ahead. -/
def far : Mixer := tiny.addDelta .pulse1 9000 15

theorem not_accepts_far : ¬ far.Accepts 0 := by
  intro h
  exact absurd (h.moments 9000 (by decide)) (by unfold Reaches Resampler.Reaches; decide +kernel)

theorem endFrame_far : far.endFrame 0 = (.error .overflow, (far.endFrame 0).2) :=
  endFrame_of_not_accepts not_accepts_far

theorem endFrame_refusal_far : ∃ q, far.endFrame 0 = (.error .overflow, q) ∧ Refused far 0 q :=
  ⟨_, endFrame_far, endFrame_refusal endFrame_far⟩

/-- A change that is refused is in the levels all the same, and no longer noted. -/
theorem refused_change_stays : ∃ (m q : Mixer), Reachable m ∧ m.endFrame 0 = (.error .overflow, q) ∧
    m.outputVolume = 0 ∧ q.outputVolume = 744 ∧
    sumWhere (· = 9000) m.pending.toList = .single .pulse1 15 ∧
    sumWhere (· = 9000) q.pending.toList = 0 ∧ ¬ Unchanged m q := by
  have hlevels : (far.endFrame 0).2.outputVolume = 744 := by decide +kernel
  refine ⟨far, _, .addDelta .pulse1 9000 15 (.new new_oneSample), endFrame_far, by decide, hlevels,
    by decide, by decide +kernel, fun h => ?_⟩
  unfold outputVolume at hlevels
  rw [h.levels] at hlevels
  exact absurd hlevels (by decide)

end Mixer

end Famicom
