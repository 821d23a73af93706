/-
  The mixer's replay of a frame, against a reference that knows no order.

  Changes of level may be noted in any order, several to a cycle.  When a frame ends they are sorted, put
  together and carried out one moment after the other, each as one step of the mixed level.

  1. **Sums** (`LevelChange.sumWhere`): levels add up channel by channel, each in its sixteen bits.  Neither
     sorting nor putting together changes what the changes of some cycles amount to (`sumWhere_inOrder`).
  2. **The reference** (`Mixer.reference`): at every cycle with a change the mixed level is that of the old
     levels and all changes up to that cycle, whatever their order; each such cycle sends one step.
  3. **The replay**: a frame is taken iff the reference is, and leaves what it leaves
     (`endFrame_eq_ok_iff`).
  4. **What follows** (`Replayed`): the order of calls does not matter; what the steps add up to; and if
     the resampler stands at the mixed level (`Level`), changes that cancel leave no trace.
  5. **A mixer that does not stand there** (`cancelled_changes_heard`): after a refused frame it is heard
     when two changes cancel.
-/
import Mathlib.Algebra.BigOperators.Group.List.Basic
import Mathlib.Algebra.Ring.Int.Defs
import Mathlib.Data.Finset.Sort
import Famicom.Proofs.Mixer.Balance

namespace Famicom

/-! ## Levels add up

  Changes of one channel are added in a word of sixteen bits, so their sums are sums modulo that word
  and can be taken in any order. -/

namespace Levels

instance : Zero Levels := ⟨{}⟩

theorem get_zero (c : Channel) : (0 : Levels).get c = 0 := by cases c <;> rfl

/-- Levels are told by their channels. -/
theorem eq_of_get {k l : Levels} (h : ∀ c, k.get c = l.get c) : k = l := by
  obtain ⟨p, q, t, n, d⟩ := k
  have h1 := h .pulse1
  have h2 := h .pulse2
  have h3 := h .triangle
  have h4 := h .noise
  have h5 := h .dmc
  dsimp only [get] at h1 h2 h3 h4 h5
  subst h1 h2 h3 h4 h5
  rfl

instance : AddCommMonoid Levels where
  add_assoc a b c := eq_of_get fun ch => by
    rw [get_add, get_add, get_add, get_add]
    exact Int16.add_assoc _ _ _
  zero_add a := eq_of_get fun ch => by
    rw [get_add, get_zero]
    exact Int16.zero_add _
  add_zero a := eq_of_get fun ch => by
    rw [get_add, get_zero]
    exact Int16.add_zero _
  add_comm a b := eq_of_get fun ch => by
    rw [get_add, get_add]
    exact Int16.add_comm _ _
  nsmul := nsmulRec

/-- The mixed level that goes to the resampler. -/
def composite (l : Levels) : Int := 4 * l.volume.toInt

end Levels

namespace LevelChange

/-- What the changes of some cycles amount to. -/
def sumWhere (P : Nat → Prop) [DecidablePred P] (changes : List LevelChange) : Levels :=
  ((changes.filter fun d => P d.cycle).map (·.amounts)).sum

variable {P : Nat → Prop} [DecidablePred P] {d e : LevelChange} {ds es : List LevelChange}

theorem sumWhere_cons (d : LevelChange) (ds : List LevelChange) :
    sumWhere P (d :: ds) = (if P d.cycle then d.amounts else 0) + sumWhere P ds := by
  unfold sumWhere
  rw [List.filter_cons]
  by_cases h : P d.cycle
  · rw [if_pos h, if_pos (decide_eq_true h), List.map_cons, List.sum_cons]
  · rw [if_neg h, if_neg (by simpa using h), zero_add]

/-- A sum of changes does not depend on their order. -/
theorem sumWhere_perm (h : ds.Perm es) : sumWhere P ds = sumWhere P es :=
  ((h.filter _).map _).sum_eq

/-- The sum of two lists is that of the lists put together. -/
theorem sumWhere_append (ds es : List LevelChange) :
    sumWhere P (ds ++ es) = sumWhere P ds + sumWhere P es := by
  unfold sumWhere
  rw [List.filter_append, List.map_append, List.sum_append]

/-- Changes of which none is meant add up to nothing. -/
theorem sumWhere_eq_zero (h : ∀ d ∈ ds, ¬ P d.cycle) : sumWhere P ds = 0 := by
  unfold sumWhere
  rw [List.filter_eq_nil_iff.mpr fun d hd => by simpa using h d hd]
  rfl

/-- Putting neighbours together changes no sum. -/
theorem sumWhere_merge (ds : List LevelChange) : sumWhere P (merge ds) = sumWhere P ds := by
  induction ds with
  | nil => rfl
  | cons d ds ih =>
    rw [merge, sumWhere_cons, ← ih]
    cases merge ds with
    | nil => rw [sumWhere_cons]
    | cons e rest =>
      dsimp only
      split
      · next heq =>
        rw [sumWhere_cons, sumWhere_cons e, ← add_assoc]
        dsimp only
        rw [← heq]
        split
        · rfl
        · rw [add_zero]
      · rw [sumWhere_cons d]

/-- Sorting changes by their cycles leaves a sum as it is. -/
theorem sumWhere_inOrder (ds : List LevelChange) : sumWhere P (inOrder ds) = sumWhere P ds := by
  rw [inOrder, sumWhere_merge]
  exact sumWhere_perm (List.mergeSort_perm ds _)

/-- The moments come one after the other. -/
theorem inOrder_pairwise (ds : List LevelChange) :
    (inOrder ds).Pairwise fun d e => d.cycle < e.cycle := by
  have hsorted : Timely (ds.mergeSort fun d e => d.cycle ≤ e.cycle) := by
    refine (List.pairwise_mergeSort ?_ ?_ ds).imp fun hle => of_decide_eq_true hle
    · intro a b c hab hbc
      exact decide_eq_true (Nat.le_trans (of_decide_eq_true hab) (of_decide_eq_true hbc))
    · intro a b
      rw [Bool.or_eq_true, decide_eq_true_eq, decide_eq_true_eq]
      exact Nat.le_total _ _
  exact hsorted.merge_pairwise

/-- The cycles with changes, each once, in order. -/
def stops (changes : List LevelChange) : List Nat :=
  (changes.map (·.cycle)).toFinset.sort (· ≤ ·)

/-- The output stops at just the cycles that have a change. -/
theorem mem_stops (changes : List LevelChange) (cycle : Nat) :
    cycle ∈ stops changes ↔ cycle ∈ changes.map (·.cycle) := by
  rw [stops, Finset.mem_sort, List.mem_toFinset]

theorem stops_eq_nil {changes : List LevelChange} : stops changes = [] ↔ changes = [] := by
  constructor
  · intro h
    refine List.eq_nil_iff_forall_not_mem.mpr fun d hd => ?_
    have hstop := (mem_stops changes d.cycle).mpr (List.mem_map_of_mem hd)
    rw [h] at hstop
    cases hstop
  · rintro rfl
    refine List.eq_nil_iff_forall_not_mem.mpr fun cycle hc => ?_
    cases (mem_stops [] cycle).mp hc

/-- The stops come one after the other. -/
theorem stops_pairwise (changes : List LevelChange) : (stops changes).Pairwise (· < ·) :=
  (Finset.sortedLT_sort _).pairwise

/-- Moments in order stand at the cycles with changes. -/
theorem cycles_inOrder (ds : List LevelChange) : (inOrder ds).map (·.cycle) = stops ds := by
  refine List.Pairwise.eq_of_mem_iff (r := (· < ·)) ?_ (stops_pairwise ds) fun cycle => ?_
  · exact List.pairwise_map.mpr (inOrder_pairwise ds)
  · rw [mem_cycles_inOrder, mem_stops]

end LevelChange

/-! ## The reference

  The reference plays a list of changes at once, in the order of their cycles.  It has no queue, so it
  says what a frame comes to without saying how the mixer gets there. -/

open LevelChange

/-- The levels at a cycle: the old ones and all changes up to it. -/
def Levels.upTo (l : Levels) (changes : List LevelChange) (cycle : Nat) : Levels :=
  l + sumWhere (· ≤ cycle) changes

/-- The steps from a mixed level to those at some cycles, one after the other. -/
def stepsTo (level : Nat → Int) (previous : Int) : List Nat → List (Nat × Int)
  | [] => []
  | cycle :: rest => (cycle, level cycle - previous) :: stepsTo level (level cycle) rest

/-- Adds steps at their cycles. -/
def Resampler.addSteps (r : Resampler) : List (Nat × Int) → Except ResampleError Resampler
  | [] => .ok r
  | (cycle, step) :: rest => do
    let r ← r.addStep (.ofNat cycle) (Int32.ofInt step)
    r.addSteps rest

namespace Mixer

/-- The mixed level at a cycle, of a mixer with these changes in front of it. -/
def levelAt (m : Mixer) (changes : List LevelChange) (cycle : Nat) : Int :=
  (m.levels.upTo changes cycle).composite

/-- The steps of a frame with these changes. -/
def stepsOf (m : Mixer) (changes : List LevelChange) : List (Nat × Int) :=
  stepsTo (m.levelAt changes) m.lastOutput (stops changes)

/-- The mixed level that a frame with these changes brings the resampler to. -/
def lastLevel (m : Mixer) (changes : List LevelChange) : Int :=
  ((stops changes).map (m.levelAt changes)).getLastD m.lastOutput

/-- What a frame with these changes comes to. -/
def reference (m : Mixer) (changes : List LevelChange) (time : Nat) : Except ResampleError Mixer := do
  let resampler ← m.resampler.addSteps (m.stepsOf changes)
  let resampler ← resampler.endFrame (.ofNat time)
  return { m with
    pending := #[], levels := m.levels + sumWhere (fun _ => True) changes
    lastOutput := m.lastLevel changes, resampler }

end Mixer

/-! ## The replay -/

section

variable {d : LevelChange} {ds : List LevelChange} {level level' : Nat → Int} {previous : Int}

/-- The steps depend on the levels at their cycles only. -/
theorem stepsTo_congr {cycles : List Nat} (h : ∀ cycle ∈ cycles, level cycle = level' cycle) :
    stepsTo level previous cycles = stepsTo level' previous cycles := by
  induction cycles generalizing previous with
  | nil => rfl
  | cons cycle rest ih =>
    rw [stepsTo, stepsTo, h cycle List.mem_cons_self]
    exact congrArg _ (ih fun c hc => h c (List.mem_cons_of_mem cycle hc))

/-- At the first moment only its own changes have come. -/
theorem upTo_first (l : Levels) (h : ∀ e ∈ ds, d.cycle < e.cycle) :
    l.upTo (d :: ds) d.cycle = l + d.amounts := by
  unfold Levels.upTo
  have hrest : sumWhere (· ≤ d.cycle) ds = 0 :=
    sumWhere_eq_zero fun e he => Nat.not_le.mpr (h e he)
  rw [sumWhere_cons, if_pos (Nat.le_refl _), hrest, add_zero]

/-- At a later one they have come before all others. -/
theorem upTo_later (l : Levels) {cycle : Nat} (h : d.cycle ≤ cycle) :
    l.upTo (d :: ds) cycle = (l + d.amounts).upTo ds cycle := by
  unfold Levels.upTo
  rw [sumWhere_cons, if_pos h, add_assoc]

end

namespace Mixer

variable {m q : Mixer} {changes : List LevelChange} {time : Nat}

/-- One moment: its changes, and one step of the mixed level. -/
theorem applyChange_eq (m : Mixer) (d : LevelChange) :
    m.applyChange d =
      match m.resampler.addStep (.ofNat d.cycle)
        (Int32.ofInt ((m.levels + d.amounts).composite - m.lastOutput)) with
      | .ok resampler => (.ok (), { m with
          levels := m.levels + d.amounts, resampler
          lastOutput := (m.levels + d.amounts).composite })
      | .error e => (.error e, { m with levels := m.levels + d.amounts }) := by
  unfold applyChange outputVolume Levels.composite
  dsimp only
  rewrite [Int.mul_comm]
  rfl

/-- Moments one after the other are carried out like the reference. -/
theorem applyChanges_eq_ok_iff {past moments : List LevelChange}
    (h : moments.Pairwise fun d e => d.cycle < e.cycle) :
    m.applyChanges past moments = (.ok (), q) ↔ ∃ resampler,
      m.resampler.addSteps
        (stepsTo (m.levelAt moments) m.lastOutput (moments.map (·.cycle))) = .ok resampler ∧
      q = { m with
        pending := #[], levels := m.levels + sumWhere (fun _ => True) moments
        lastOutput := ((moments.map (·.cycle)).map (m.levelAt moments)).getLastD m.lastOutput
        resampler } := by
  induction moments generalizing m past with
  | nil =>
    have hsum : m.levels + sumWhere (fun _ => True) [] = m.levels := add_zero m.levels
    constructor
    · intro hq
      cases hq
      exact ⟨m.resampler, rfl, by rw [hsum]; rfl⟩
    · rintro ⟨resampler, hr, rfl⟩
      cases hr
      rw [hsum]
      rfl
  | cons d rest ih =>
    obtain ⟨hd, hrest⟩ := List.pairwise_cons.mp h
    have hfirst : m.levelAt (d :: rest) d.cycle = (m.levels + d.amounts).composite :=
      congrArg Levels.composite (upTo_first m.levels hd)
    rw [applyChanges, List.map_cons, stepsTo, Resampler.addSteps, applyChange_eq, hfirst]
    cases m.resampler.addStep (.ofNat d.cycle)
        (Int32.ofInt ((m.levels + d.amounts).composite - m.lastOutput)) with
    | error e =>
      refine ⟨fun hq => (by cases hq), ?_⟩
      rintro ⟨resampler, hr, -⟩
      cases hr
    | ok resampler =>
      -- the mixer after the first moment has the rest in front of it, and sees it as it was seen before
      have hlater : ∀ cycle ∈ rest.map (·.cycle), m.levelAt (d :: rest) cycle =
          levelAt { m with
            levels := m.levels + d.amounts, resampler
            lastOutput := (m.levels + d.amounts).composite } rest cycle := by
        intro cycle hc
        obtain ⟨e, he, rfl⟩ := List.mem_map.mp hc
        exact congrArg Levels.composite (upTo_later m.levels (Nat.le_of_lt (hd e he)))
      have hsum : m.levels + sumWhere (fun _ => True) (d :: rest) =
          m.levels + d.amounts + sumWhere (fun _ => True) rest := by
        rw [sumWhere_cons, if_pos trivial, add_assoc]
      rw [stepsTo_congr hlater, hsum, List.map_cons, List.map_congr_left hlater, List.getLastD_cons,
        hfirst]
      exact ih hrest

/-- The moments of a frame take the steps of the reference. -/
theorem applyChanges_inOrder {past : List LevelChange} :
    m.applyChanges past (inOrder changes) = (.ok (), q) ↔ ∃ resampler,
      m.resampler.addSteps (m.stepsOf changes) = .ok resampler ∧
      q = { m with
        pending := #[], levels := m.levels + sumWhere (fun _ => True) changes
        lastOutput := m.lastLevel changes, resampler } := by
  have hlevel : m.levelAt (inOrder changes) = m.levelAt changes := by
    funext cycle
    unfold levelAt Levels.upTo
    rw [sumWhere_inOrder]
  have h : m.applyChanges past (inOrder changes) = (.ok (), q) ↔ _ :=
    applyChanges_eq_ok_iff (inOrder_pairwise changes)
  rw [cycles_inOrder, hlevel, sumWhere_inOrder] at h
  exact h

/-- The reference plays a frame if it can apply all changes in order and then close the frame. -/
theorem reference_eq_ok_iff : m.reference changes time = .ok q ↔ ∃ p resampler,
    m.applyChanges [] (inOrder changes) = (.ok (), p) ∧
      p.resampler.endFrame (.ofNat time) = .ok resampler ∧ q = { p with resampler } := by
  constructor
  · intro h
    unfold reference at h
    cases hr : m.resampler.addSteps (m.stepsOf changes) with
    | error e =>
      rw [hr] at h
      cases h
    | ok resampler =>
      rw [hr] at h
      dsimp only [bind, Except.bind] at h
      cases he : resampler.endFrame (.ofNat time) with
      | error e =>
        rw [he] at h
        cases h
      | ok resampler' =>
        rw [he] at h
        cases h
        exact ⟨_, resampler', applyChanges_inOrder.mpr ⟨resampler, hr, rfl⟩, he, rfl⟩
  · rintro ⟨p, resampler', hp, he, rfl⟩
    obtain ⟨resampler, hr, rfl⟩ := applyChanges_inOrder.mp hp
    unfold reference
    rw [hr]
    dsimp only [bind, Except.bind]
    rw [he]
    rfl

/-- A frame is taken iff the reference takes its changes, and leaves what the reference leaves. -/
theorem endFrame_eq_ok_iff :
    m.endFrame time = (.ok (), q) ↔ m.reference m.pending.toList time = .ok q :=
  endFrame_ok_iff.trans reference_eq_ok_iff.symm

/-- The reference goes by what the changes amount to and by the cycles that have some. -/
theorem reference_congr {ds es : List LevelChange} (hstops : stops ds = stops es)
    (hsum : ∀ (P : Nat → Prop) [DecidablePred P], sumWhere P ds = sumWhere P es) :
    m.reference ds time = m.reference es time := by
  have hlevel : m.levelAt ds = m.levelAt es := by
    funext cycle
    unfold levelAt Levels.upTo
    rw [hsum]
  unfold reference stepsOf lastLevel
  rw [hstops, hlevel, hsum]

/-- The reference does not depend on the order in which the changes are listed. -/
theorem reference_perm {ds es : List LevelChange} (h : ds.Perm es) :
    m.reference ds time = m.reference es time := by
  refine reference_congr ?_ fun P _ => sumWhere_perm h
  refine (stops_pairwise ds).eq_of_mem_iff (stops_pairwise es) fun cycle => ?_
  rw [mem_stops, mem_stops, (h.map _).mem_iff]

end Mixer

/-! ## Changes that cancel

  Changes of one cycle that add up to nothing leave a moment without effect: the output is brought to
  the level where it stands. -/

namespace Resampler

/-- Taps of no height add nothing. -/
theorem addTaps_zero {n : Nat} (slots : Vector Int32 n) (i : Nat) (taps : List Int32)
    (h : i + taps.length ≤ n) (hz : ∀ t ∈ taps, t = 0) : addTaps slots i taps h = slots := by
  induction taps generalizing i slots with
  | nil => rfl
  | cons t ts ih =>
    have ht : t = 0 := hz t List.mem_cons_self
    rw [addTaps, ih _ _ _ fun u hu => hz u (List.mem_cons_of_mem t hu)]
    simp only [ht, Int32.add_zero, Vector.set_getElem_self]

theorem stepTaps_zero (fixed : UInt32) : ∀ t ∈ stepTaps fixed 0, t = 0 := by
  intro t ht
  obtain ⟨i, hi, rfl⟩ := List.getElem_of_mem ht
  simp only [stepTaps, Int32.zero_mul, Int32.zero_shiftRight, Int32.sub_zero, List.getElem_zipWith,
    Int32.mul_zero, Int32.add_zero]

/-- A step of nothing leaves the resampler as it is. -/
theorem addStep_zero {r q : Resampler} {clocks : UInt32} (h : r.addStep clocks 0 = .ok q) : q = r := by
  unfold addStep at h
  dsimp only at h
  split at h
  · cases h
    rw [addTaps_zero _ _ _ _ (stepTaps_zero _)]
  · cases h

end Resampler

namespace LevelChange

/-- A moment amounts to the changes of its cycle. -/
theorem amounts_of_mem {d : LevelChange} {ds : List LevelChange} (h : d ∈ inOrder ds) :
    d.amounts = sumWhere (· = d.cycle) ds := by
  have hmoments : ∀ moments : List LevelChange,
      (moments.Pairwise fun d e => d.cycle < e.cycle) → d ∈ moments →
      sumWhere (· = d.cycle) moments = d.amounts := by
    intro moments hp hd
    induction moments with
    | nil => cases hd
    | cons e rest ih =>
      obtain ⟨he, hrest⟩ := List.pairwise_cons.mp hp
      rw [sumWhere_cons]
      rcases List.mem_cons.mp hd with rfl | hd
      · have hnone : sumWhere (· = d.cycle) rest = 0 :=
          sumWhere_eq_zero fun e' he' => Nat.ne_of_gt (he e' he')
        rw [if_pos rfl, hnone, add_zero]
      · rw [if_neg (Nat.ne_of_lt (he d hd)), zero_add]
        exact ih hrest hd
  rw [← hmoments _ (inOrder_pairwise ds) h, sumWhere_inOrder]

/-- There is a moment for each cycle with changes. -/
theorem mem_inOrder {d : LevelChange} {ds : List LevelChange} :
    d ∈ inOrder ds ↔ d.cycle ∈ ds.map (·.cycle) ∧ d.amounts = sumWhere (· = d.cycle) ds := by
  refine ⟨fun h => ⟨(mem_cycles_inOrder ds d.cycle).mp (List.mem_map_of_mem h), amounts_of_mem h⟩, ?_⟩
  rintro ⟨hcycle, hsum⟩
  obtain ⟨e, he, heq⟩ := List.mem_map.mp ((mem_cycles_inOrder ds d.cycle).mpr hcycle)
  have hde : d = e := by
    obtain ⟨cycle, amounts⟩ := d
    obtain ⟨cycle', amounts'⟩ := e
    have hsame := amounts_of_mem he
    dsimp only at heq hsum hsame
    subst heq
    rw [hsum, hsame]
  exact hde ▸ he

/-- The moments that change anything. -/
def effective (changes : List LevelChange) : List LevelChange :=
  (inOrder changes).filter fun d => d.amounts ≠ 0

/-- An effective change is the sum of those of its cycle, unless that is nothing. -/
theorem mem_effective {d : LevelChange} {ds : List LevelChange} :
    d ∈ effective ds ↔ d.amounts = sumWhere (· = d.cycle) ds ∧ d.amounts ≠ 0 := by
  rw [effective, List.mem_filter, decide_eq_true_eq, mem_inOrder]
  refine and_congr_left fun hne => ⟨fun h => h.2, fun hsum => ⟨?_, hsum⟩⟩
  -- a cycle whose changes amount to something has a change, and so a moment
  by_contra hno
  rw [hsum] at hne
  exact hne (sumWhere_eq_zero fun e he heq => hno (heq ▸ List.mem_map_of_mem he))

/-- Moments one after the other are told by which they are. -/
theorem eq_of_mem_iff {ds es : List LevelChange} (hd : ds.Pairwise fun d e => d.cycle < e.cycle)
    (he : es.Pairwise fun d e => d.cycle < e.cycle) (h : ∀ d, d ∈ ds ↔ d ∈ es) : ds = es := by
  have hirrefl : Std.Irrefl fun d e : LevelChange => d.cycle < e.cycle :=
    ⟨fun d => Nat.lt_irrefl d.cycle⟩
  have hantisymm : Std.Antisymm fun d e : LevelChange => d.cycle < e.cycle :=
    ⟨fun d e hde hed => absurd hde (Nat.lt_asymm hed)⟩
  exact hd.eq_of_mem_iff he h

/-- They are told by what the changes of each cycle amount to. -/
theorem effective_congr {ds es : List LevelChange}
    (h : ∀ cycle, sumWhere (· = cycle) ds = sumWhere (· = cycle) es) : effective ds = effective es := by
  refine eq_of_mem_iff ((inOrder_pairwise ds).filter _) ((inOrder_pairwise es).filter _) fun d => ?_
  exact mem_effective.trans (by rw [h d.cycle]; exact mem_effective.symm)

end LevelChange

namespace Mixer

variable {m q : Mixer} {d : LevelChange} {changes : List LevelChange} {time : Nat}

/-- At the mixed level a moment without a change is no step. -/
theorem applyChange_still (hm : m.Level) (hd : d.amounts = 0) (h : m.applyChange d = (.ok (), q)) :
    q = m := by
  have hcomposite : (m.levels + d.amounts).composite = m.lastOutput := by
    rw [hd, add_zero]
    exact hm.symm
  rw [applyChange_eq, hcomposite, Int.sub_self] at h
  split at h
  · next resampler hr =>
    cases h
    rw [Resampler.addStep_zero hr, hd, add_zero]
  · cases h

/-- At the mixed level only the moments that change anything count. -/
theorem applyChanges_effective {past past' moments : List LevelChange} (hm : m.Level)
    (h : m.applyChanges past moments = (.ok (), q)) :
    m.applyChanges past' (moments.filter fun d => d.amounts ≠ 0) = (.ok (), q) := by
  induction moments generalizing m past past' with
  | nil => exact h
  | cons d rest ih =>
    rw [applyChanges] at h
    rcases hd : m.applyChange d with ⟨e | ⟨⟩, p⟩
    · rw [hd] at h
      cases h
    · rw [hd] at h
      have hp := (applyChange_ok hd).2
      by_cases hzero : d.amounts = 0
      · obtain rfl := applyChange_still hm hzero hd
        rw [List.filter_cons_of_neg (by simpa using hzero)]
        exact ih hm h
      · rw [List.filter_cons_of_pos (by simpa using hzero), applyChanges, hd]
        exact ih hp h

/-- At the mixed level it only matters what the changes of each cycle amount to. -/
theorem reference_effective {ds es : List LevelChange} {p : Mixer} (hm : m.Level)
    (h : ∀ cycle, sumWhere (· = cycle) ds = sumWhere (· = cycle) es)
    (hq : m.reference ds time = .ok q) (hp : m.reference es time = .ok p) : p = q := by
  obtain ⟨q', resampler, hq', hr, rfl⟩ := reference_eq_ok_iff.mp hq
  obtain ⟨p', resampler', hp', hr', rfl⟩ := reference_eq_ok_iff.mp hp
  have hsame : m.applyChanges [] (effective ds) = (.ok (), q') := applyChanges_effective hm hq'
  rw [effective_congr h] at hsame
  cases hsame.symm.trans (applyChanges_effective hm hp')
  cases hr.symm.trans hr'
  rfl

end Mixer

/-! ## What the steps add up to -/

/-- The steps lead from the one mixed level to the other. -/
theorem sum_stepsTo (level : Nat → Int) (previous : Int) (cycles : List Nat) :
    ((stepsTo level previous cycles).map (·.2)).sum =
      (cycles.map level).getLastD previous - previous := by
  induction cycles generalizing previous with
  | nil => exact (Int.sub_self previous).symm
  | cons cycle rest ih =>
    rw [stepsTo, List.map_cons, List.sum_cons, ih, List.map_cons, List.getLastD_cons]
    omega

/-- A step between two mixed levels fits into the word that it is sent in. -/
theorem exact_stepsTo {level : Nat → Int} {previous : Int} {cycles : List Nat}
    (hlevel : ∀ cycle, ∃ v : Int16, level cycle = 4 * v.toInt) (hp : ∃ v : Int16, previous = 4 * v.toInt) :
    ∀ step ∈ stepsTo level previous cycles, (Int32.ofInt step.2).toInt = step.2 := by
  induction cycles generalizing previous with
  | nil => exact fun step hs => absurd hs List.not_mem_nil
  | cons cycle rest ih =>
    intro step hs
    rcases List.mem_cons.mp hs with rfl | hs
    · obtain ⟨v, hv⟩ := hlevel cycle
      obtain ⟨w, hw⟩ := hp
      have hv₀ := v.le_toInt
      have hv₁ := v.toInt_lt
      have hw₀ := w.le_toInt
      have hw₁ := w.toInt_lt
      have hsize : (Int32.size : Int) = 4294967296 := rfl
      dsimp only
      rw [Int32.toInt_ofInt]
      exact Int.bmod_eq_of_le (by omega) (by omega)
    · exact ih (hlevel cycle) step hs

namespace Mixer

variable {m q : Mixer} {changes : List LevelChange} {time : Nat}

/-- The resampler was last brought to some mixed level. -/
def Sounds (m : Mixer) : Prop := ∃ level : Int16, m.lastOutput = 4 * level.toInt

theorem Sounds.applyChange (h : m.Sounds) (d : LevelChange) : (m.applyChange d).2.Sounds := by
  rw [applyChange_eq]
  split
  · exact ⟨_, rfl⟩
  · exact h

/-- Applying changes brings the resampler to mixed levels and to no others. -/
theorem Sounds.applyChanges (h : m.Sounds) (past moments : List LevelChange) :
    (m.applyChanges past moments).2.Sounds := by
  induction moments generalizing m past with
  | nil => exact h
  | cons d rest ih =>
    have hd := h.applyChange d
    rw [Mixer.applyChanges]
    rcases hc : m.applyChange d with ⟨e | ⟨⟩, p⟩
    · rw [hc] at hd
      exact hd
    · rw [hc] at hd
      exact ih hd _

/-- So does the end of a frame. -/
theorem Sounds.endFrame (h : m.Sounds) (time : Nat) : (m.endFrame time).2.Sounds := by
  have hc := h.applyChanges [] (inOrder m.pending.toList)
  rcases m.endFrame_cases time with ⟨e, p, hp, he⟩ | ⟨p, hp, ⟨resampler, -, he⟩ | ⟨e, -, he⟩⟩
  · rw [hp] at hc
    rw [he]
    exact hc
  · rw [hp] at hc
    rw [he]
    exact hc
  · rw [hp] at hc
    rw [he]
    exact hc

theorem Sounds.retune (h : m.Sounds) : m.retune.2.Sounds := by
  unfold Mixer.retune
  split
  · exact h
  · exact h

/-- So it was in every mixer that can come about. -/
theorem Reachable.sounds (h : Reachable m) : m.Sounds := by
  induction h with
  | new hm =>
    obtain ⟨-, -, -, units, -, rfl⟩ := new_eq_ok_iff.mp hm
    exact ⟨0, rfl⟩
  | addDelta channel cycle amount _ ih =>
    unfold Mixer.addDelta
    split
    · exact ih
    · exact ih
  | endFrame time _ ih => exact ih.endFrame time
  | @playFrame m time _ ih =>
    have h := ih.endFrame time
    rcases m.playFrame_cases time with ⟨e, p, hp, he⟩ | ⟨p, hp, he⟩
    · rw [hp] at h
      rw [he]
      exact h
    · rw [hp] at h
      rw [he]
      exact h
  | takeSamples _ ih => exact ih
  | setRegion region _ ih => exact Sounds.retune ih
  | reset _ _ => exact Sounds.retune ⟨0, rfl⟩

/-- Where there are moments, the last of them brings the resampler to the mixed level. -/
theorem applyChanges_level {past moments : List LevelChange}
    (h : m.applyChanges past moments = (.ok (), q)) (hm : moments ≠ [] ∨ m.Level) : q.Level := by
  cases moments with
  | nil =>
    cases h
    exact hm.resolve_left fun h => h rfl
  | cons d rest =>
    rw [applyChanges] at h
    rcases hd : m.applyChange d with ⟨e | ⟨⟩, p⟩
    · rw [hd] at h
      cases h
    · rw [hd] at h
      exact (applyChanges_ok h (applyChange_ok hd).2).2.2

/-- With a change in it, or from a mixer that stood there, a frame brings the resampler to the mixed level. -/
theorem reference_level (h : m.reference changes time = .ok q) (hm : stops changes ≠ [] ∨ m.Level) :
    q.Level := by
  obtain ⟨p, resampler, hp, -, rfl⟩ := reference_eq_ok_iff.mp h
  have hmoments : inOrder changes ≠ [] ∨ m.Level := by
    refine hm.imp_left fun hne hnil => hne ?_
    rw [← cycles_inOrder, hnil]
    rfl
  have hlevel : p.Level := applyChanges_level hp hmoments
  exact hlevel

/-- The steps of a frame add up to what the output has moved by. -/
theorem sum_stepsOf (h : m.reference changes time = .ok q) :
    ((m.stepsOf changes).map (·.2)).sum = q.lastOutput - m.lastOutput := by
  obtain ⟨p, resampler, hp, -, rfl⟩ := reference_eq_ok_iff.mp h
  obtain ⟨resampler', -, rfl⟩ := applyChanges_inOrder.mp hp
  exact sum_stepsTo _ _ _

/-- The steps add up to the change of the mixed level only from a mixer that stood there. -/
theorem sum_stepsOf_iff (h : m.reference changes time = .ok q) :
    ((m.stepsOf changes).map (·.2)).sum = 4 * q.outputVolume.toInt - 4 * m.outputVolume.toInt ↔
      stops changes = [] ∨ m.Level := by
  constructor
  · intro hsum
    by_cases hnil : stops changes = []
    · exact .inl hnil
    · have hlevel : q.lastOutput = 4 * q.outputVolume.toInt := reference_level h (.inl hnil)
      rw [sum_stepsOf h] at hsum
      refine .inr ?_
      unfold Level
      omega
  · rintro (hnil | hm)
    · obtain rfl := stops_eq_nil.mp hnil
      obtain ⟨p, resampler, hp, -, rfl⟩ := reference_eq_ok_iff.mp h
      obtain ⟨resampler', -, rfl⟩ := applyChanges_inOrder.mp hp
      have hlevels : m.levels + sumWhere (fun _ => True) [] = m.levels := add_zero m.levels
      rw [stepsOf, hnil]
      unfold outputVolume
      dsimp only
      rw [hlevels, Int.sub_self]
      rfl
    · have hlevel : q.lastOutput = 4 * q.outputVolume.toInt := reference_level h (.inr hm)
      have hold : m.lastOutput = 4 * m.outputVolume.toInt := hm
      rw [sum_stepsOf h, hlevel, hold]

/-! ## Calls -/

/-- A change as the mixer is told of it. -/
structure Delta where
  channel : Channel
  cycle : Nat
  amount : Int16

/-- The mixer after it is told of changes. -/
def tell (m : Mixer) (deltas : List Delta) : Mixer :=
  deltas.foldl (fun m d => m.addDelta d.channel d.cycle d.amount) m

/-- What is noted of changes. -/
def told (deltas : List Delta) : List LevelChange :=
  (deltas.filter fun d => d.amount ≠ 0).map fun d => ⟨d.cycle, .single d.channel d.amount⟩

/-- What the changes of a channel amount to, at some cycles, in sixteen bits. -/
def Delta.total (P : Nat → Prop) [DecidablePred P] (c : Channel) (deltas : List Delta) : Int16 :=
  ((deltas.filter fun d => d.channel = c ∧ P d.cycle).map (·.amount)).sum

/-- The changes in front of a mixer that is told of more. -/
def ahead (m : Mixer) (deltas : List Delta) : List LevelChange := m.pending.toList ++ told deltas

/-- Deltas within the frame are all noted. -/
theorem tell_eq {deltas : List Delta} (h : ∀ d ∈ deltas, d.cycle < m.settings.cycleLength.toNat) :
    m.tell deltas = m.note (told deltas) := by
  induction deltas generalizing m with
  | nil => exact m.note_nil.symm
  | cons d deltas ih =>
    have hd := Nat.not_le.mpr (h d List.mem_cons_self)
    have hrest : ∀ e ∈ deltas, e.cycle < m.settings.cycleLength.toNat :=
      fun e he => h e (List.mem_cons_of_mem d he)
    show (m.addDelta d.channel d.cycle d.amount).tell deltas = _
    by_cases hzero : d.amount = 0
    · rw [addDelta, if_pos (.inl hzero), ih hrest, told, told,
        List.filter_cons_of_neg (by simpa using hzero)]
    · rw [addDelta, if_neg (not_or.mpr ⟨hzero, hd⟩), Array.push_eq_append]
      refine (ih (m := m.note [⟨d.cycle, .single d.channel d.amount⟩]) hrest).trans ?_
      rw [note_note, told, told, List.filter_cons_of_pos (by simpa using hzero)]
      rfl

theorem Delta.total_cons (P : Nat → Prop) [DecidablePred P] (c : Channel) (d : Delta)
    (deltas : List Delta) : Delta.total P c (d :: deltas) =
      (if d.channel = c ∧ P d.cycle then d.amount else 0) + Delta.total P c deltas := by
  unfold Delta.total
  rw [List.filter_cons]
  by_cases h : d.channel = c ∧ P d.cycle
  · rw [if_pos h, if_pos (decide_eq_true h), List.map_cons, List.sum_cons]
  · rw [if_neg h, if_neg (by simpa using h), Int16.zero_add]

/-- What is noted of changes amounts to what they amount to, channel by channel. -/
theorem get_sumWhere_told (P : Nat → Prop) [DecidablePred P] (c : Channel) (deltas : List Delta) :
    (sumWhere P (told deltas)).get c = Delta.total P c deltas := by
  induction deltas with
  | nil => exact Levels.get_zero c
  | cons d deltas ih =>
    rw [Delta.total_cons, ← ih]
    by_cases hzero : d.amount = 0
    · -- a change that is none is not noted, and adds nothing
      rw [told, List.filter_cons_of_neg (by simpa using hzero), hzero, ite_self, Int16.zero_add]
      rfl
    · rw [told, List.filter_cons_of_pos (by simpa using hzero), List.map_cons, sumWhere_cons,
        Levels.get_add]
      congr 1
      by_cases hP : P d.cycle
      · rw [if_pos hP, Levels.get_single]
        simp only [hP, and_true, eq_comm]
      · rw [if_neg hP, if_neg fun h => hP h.2, Levels.get_zero]

/-- Deltas told one by one end a frame as the reference does with all of them at hand. -/
theorem endFrame_tell {deltas : List Delta} (h : ∀ d ∈ deltas, d.cycle < m.settings.cycleLength.toNat) :
    (m.tell deltas).endFrame time = (.ok (), q) ↔ m.reference (m.ahead deltas) time = .ok q := by
  have hpending : (m.note (told deltas)).pending.toList = m.ahead deltas := by
    simp only [note, ahead, Array.toList_append]
  rw [tell_eq h, endFrame_eq_ok_iff, hpending]
  exact Iff.rfl

/-- The order in which deltas are told does not matter to what is ahead. -/
theorem ahead_perm {deltas others : List Delta} (h : deltas.Perm others) :
    (m.ahead deltas).Perm (m.ahead others) :=
  ((h.filter _).map _).append_left m.pending.toList

/-- What is ahead is what was pending and what has been told. -/
theorem sumWhere_ahead (P : Nat → Prop) [DecidablePred P] (c : Channel) (deltas : List Delta) :
    (sumWhere P (m.ahead deltas)).get c =
      (sumWhere P m.pending.toList).get c + Delta.total P c deltas := by
  rw [ahead, sumWhere_append, Levels.get_add, get_sumWhere_told]

/-! ## Together -/

/-- What a frame has come to, of a mixer that was told of changes before its end. -/
structure Replayed (m : Mixer) (deltas : List Delta) (time : Nat) (q : Mixer) : Prop where
  /-- It is what the reference comes to, with the changes noted before in front. -/
  reference : m.reference (m.ahead deltas) time = .ok q
  /-- There a channel is at its old level and all its changes up to a cycle. -/
  levels : ∀ cycle c, (m.levels.upTo (m.ahead deltas) cycle).get c = m.levels.get c +
    ((sumWhere (· ≤ cycle) m.pending.toList).get c + Delta.total (· ≤ cycle) c deltas)
  /-- And there is one step for each cycle with a change. -/
  steps : (m.stepsOf (m.ahead deltas)).map (·.1) = stops (m.ahead deltas) ∧
    ∀ cycle, cycle ∈ stops (m.ahead deltas) ↔
      cycle ∈ m.noted ∨ ∃ d ∈ deltas, d.amount ≠ 0 ∧ d.cycle = cycle
  /-- The order in which the mixer is told does not matter. -/
  permuted : ∀ others, deltas.Perm others → (m.tell others).endFrame time = (.ok (), q)
  /-- If the resampler stood at the mixed level, it only matters what the changes of each cycle amount to:
      those that cancel are not heard. -/
  cancelled : m.Level → ∀ others : List Delta, (∀ d ∈ others, d.cycle < m.settings.cycleLength.toNat) →
    (∀ cycle c, Delta.total (· = cycle) c others = Delta.total (· = cycle) c deltas) →
    ∀ p, (m.tell others).endFrame time = (.ok (), p) → p = q
  /-- The steps fit into the words they are sent in. -/
  exact : Reachable m → ∀ step ∈ m.stepsOf (m.ahead deltas), (Int32.ofInt step.2).toInt = step.2
  /-- They lead from where the resampler stood to the new mixed level. -/
  total : ((m.stepsOf (m.ahead deltas)).map (·.2)).sum = q.lastOutput - m.lastOutput
  /-- They add up to the change of the mixed level iff there are none, or the resampler stood at the mixed
      level. -/
  balanced : ((m.stepsOf (m.ahead deltas)).map (·.2)).sum =
    4 * q.outputVolume.toInt - 4 * m.outputVolume.toInt ↔ stops (m.ahead deltas) = [] ∨ m.Level
  /-- If it stood there, it stands there again. -/
  level : m.Level → q.Level

/-- There is a step for every stop. -/
theorem cycles_stepsTo (level : Nat → Int) (previous : Int) (cycles : List Nat) :
    (stepsTo level previous cycles).map (·.1) = cycles := by
  induction cycles generalizing previous with
  | nil => rfl
  | cons cycle rest ih => rw [stepsTo, List.map_cons, ih]

/-- Changes told in any order, any number to a cycle, come to what the reference comes to. -/
theorem endFrame_replayed {deltas : List Delta}
    (h : ∀ d ∈ deltas, d.cycle < m.settings.cycleLength.toNat)
    (hq : (m.tell deltas).endFrame time = (.ok (), q)) : Replayed m deltas time q := by
  have hreference := (endFrame_tell h).mp hq
  constructor
  · exact hreference
  · intro cycle c
    rw [Levels.upTo, Levels.get_add, sumWhere_ahead]
  · refine ⟨cycles_stepsTo _ _ _, fun cycle => ?_⟩
    rw [mem_stops, ahead, List.map_append, List.mem_append]
    refine or_congr Iff.rfl ?_
    simp only [told, List.map_map, List.mem_map, List.mem_filter, decide_eq_true_eq, Function.comp,
      and_assoc]
  · intro others hperm
    have hothers : ∀ d ∈ others, d.cycle < m.settings.cycleLength.toNat :=
      fun d hd => h d (hperm.mem_iff.mpr hd)
    rw [endFrame_tell hothers, ← reference_perm (ahead_perm hperm)]
    exact hreference
  · intro hm others hothers htotal p hp
    refine reference_effective hm (fun cycle => Levels.eq_of_get fun c => ?_) hreference
      ((endFrame_tell hothers).mp hp)
    rw [sumWhere_ahead, sumWhere_ahead, htotal]
  · exact fun hm => exact_stepsTo (fun cycle => ⟨_, rfl⟩) hm.sounds
  · exact sum_stepsOf hreference
  · exact sum_stepsOf_iff hreference
  · exact fun hm => reference_level hreference (.inr hm)

/-- Changes of two channels, out of order, three of them at one cycle. -/
def fourDeltas : List Delta :=
  [⟨.pulse1, 50, 8⟩, ⟨.pulse1, 20, 4⟩, ⟨.pulse2, 50, 3⟩, ⟨.pulse1, 50, -8⟩]

theorem endFrame_replayed_tiny : ∃ q, tiny.Level ∧
    (∀ d ∈ fourDeltas, d.cycle < tiny.settings.cycleLength.toNat) ∧
    (tiny.tell fourDeltas).endFrame 19 = (.ok (), q) ∧ Replayed tiny fourDeltas 19 q := by
  have hcycles : ∀ d ∈ fourDeltas, d.cycle < tiny.settings.cycleLength.toNat := by decide
  have haccepts : (tiny.tell fourDeltas).Accepts 19 := by
    rw [tell_eq hcycles]
    refine ⟨?_, ?_⟩
    · unfold Reaches Resampler.Reaches
      decide +kernel
    · unfold Resampler.Holds
      decide +kernel
  have hq := endFrame_of_accepts haccepts
  exact ⟨_, by unfold Level; decide, hcycles, hq, endFrame_replayed hcycles hq⟩

/-! ## After a refused frame

A PAL mixer with room for two samples refuses a change of cycle 87, but has the new level from then on.  At
the clock of NTSC the cycle can be reached.  The step that is still owed comes with the first moment of the
next frame, whatever that moment is. -/

/-- Room for two samples, at the usual rate. -/
def twoSamples : MixerSettings := { bufferSamples := 2 }

/-- A mixer that was refused a change, at the clock of another region. -/
def owing : Mixer :=
  ((((silent .pal twoSamples 260040745785124 0x80000000).addDelta .pulse1 87 15).endFrame 0).2.setRegion
    .ntsc).2

theorem reachable_owing : Reachable owing := by
  have hnew : Mixer.new .pal twoSamples = .ok (silent .pal twoSamples 260040745785124 0x80000000) :=
    new_eq_ok_iff.mpr ⟨by decide, by decide, by decide, 260040745785124, by decide +kernel, rfl⟩
  exact .setRegion .ntsc (.endFrame 0 (.addDelta .pulse1 87 15 (.new hnew)))

/-- Up and down again. -/
def upAndDown : List Delta := [⟨.pulse2, 5, 1⟩, ⟨.pulse2, 5, -1⟩]

theorem total_upAndDown (cycle : Nat) (c : Channel) : Delta.total (· = cycle) c upAndDown = 0 := by
  rw [upAndDown, Delta.total_cons, Delta.total_cons]
  split
  · show (1 : Int16) + (-1 + 0) = 0
    decide
  · rfl

theorem inOrder_upAndDown :
    inOrder (owing.tell upAndDown).pending.toList = [⟨5, {}⟩, ⟨87, {}⟩] := by
  have hpending : (owing.tell upAndDown).pending =
      #[⟨87, {}⟩, ⟨5, .single .pulse2 1⟩, ⟨5, .single .pulse2 (-1)⟩] := by
    decide +kernel
  rw [hpending]
  simp [inOrder, List.mergeSort, List.MergeSort.Internal.splitInTwo, merge, Levels.single]
  decide

theorem accepts_owing : owing.Accepts 38 ∧ (owing.tell upAndDown).Accepts 38 := by
  refine ⟨⟨?_, ?_⟩, ?_, ?_⟩
  · unfold Reaches Resampler.Reaches
    decide +kernel
  · unfold Resampler.Holds
    decide +kernel
  · unfold Reaches Resampler.Reaches
    decide +kernel
  · unfold Resampler.Holds
    decide +kernel

/-- After a refused frame two changes that cancel are heard, and the steps of a frame with no change in it
    add up to the whole mixed level. -/
theorem cancelled_changes_heard : ∃ (m : Mixer) (deltas : List Delta) (q p : Mixer), Reachable m ∧
    (∀ d ∈ deltas, d.cycle < m.settings.cycleLength.toNat) ∧
    (∀ cycle c, Delta.total (· = cycle) c deltas = 0) ∧
    (m.tell deltas).endFrame 38 = (.ok (), q) ∧ m.endFrame 38 = (.ok (), p) ∧
    (q.resampler.read 2).1 = #[0, 4] ∧ (p.resampler.read 2).1 = #[0, 0] ∧
    ((m.stepsOf (m.ahead deltas)).map (·.2)).sum = 2976 ∧
    4 * q.outputVolume.toInt - 4 * m.outputVolume.toInt = 0 := by
  have hcycles : ∀ d ∈ upAndDown, d.cycle < owing.settings.cycleLength.toNat := by decide +kernel
  have hq := endFrame_of_accepts accepts_owing.2
  obtain ⟨p, resampler, hp, hr, hend⟩ := endFrame_ok_iff.mp hq
  rw [inOrder_upAndDown] at hp
  have hread : (p.resampler.endFrame (.ofNat 38)).toOption.map (·.read 2 |>.1) = some #[0, 4] := by
    rw [show p = _ from (Prod.ext_iff.mp hp).2.symm]
    decide +kernel
  have hlast : p.lastOutput = 2976 ∧ p.outputVolume = 744 := by
    rw [show p = _ from (Prod.ext_iff.mp hp).2.symm]
    decide +kernel
  rw [hr] at hread
  refine ⟨owing, upAndDown, _, _, reachable_owing, hcycles, total_upAndDown, hq,
    endFrame_of_accepts accepts_owing.1, ?_, by decide +kernel, ?_, ?_⟩
  · rw [hend]
    exact Option.some.inj hread
  · rw [sum_stepsOf ((endFrame_tell hcycles).mp hq), hend]
    show p.lastOutput - owing.lastOutput = 2976
    rw [hlast.1]
    decide +kernel
  · rw [hend]
    show 4 * p.outputVolume.toInt - 4 * owing.outputVolume.toInt = 0
    rw [hlast.2]
    decide +kernel

end Mixer

end Famicom
