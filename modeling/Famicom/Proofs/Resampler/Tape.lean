/-
  A resampler without ends: time that does not wrap and a tape of slots that does not stop.

  A step lands on the tape at a place that its moment alone decides; closing a frame moves a mark along;
  reading takes slots off the front.  On the tape these commute, which the buffer of a resampler allows
  only within bounds.

  1. **Steps** (`Step.share`): what a step adds to each slot.  A whole number of samples later it adds the
     same, so many slots on (`Step.share_add`).
  2. **Laws** (`add_add`, `pass_add`, `drop_add`, `drop_drop`): steps in either order, a step before or
     after the end of a frame, before or after reading, and reading in parts.
  3. **Frames** (`play_eq`): however time is cut into frames and whatever is read in between, the samples
     and what is left are those of one frame with all the steps.
-/
import Mathlib.Algebra.Group.Nat.Defs
import Mathlib.Data.List.Perm.Basic
import Famicom.Resampler.Basic

namespace Famicom

namespace Resampler

/-! ## Steps -/

/-- A step of the level, timed from the start of a frame. -/
structure Step where
  clocks : Nat
  delta : Int32
  /-- The step is only interpolated between two samples. -/
  fast : Bool := false
  deriving DecidableEq, Repr

namespace Step

/-- The same step, timed from a start so many clocks before. -/
def later (s : Step) (clocks : Nat) : Step := { s with clocks := clocks + s.clocks }

/-- The taps of a step at a position: what is below a sample decides. -/
def taps (s : Step) (position : Nat) : List Int32 :=
  let fixed := UInt32.ofNat (position / 2 ^ 32 % 2 ^ 20)
  if s.fast then fastTaps fixed s.delta else stepTaps fixed s.delta

/-- The slot of the first tap. -/
def start (s : Step) (position : Nat) : Nat := position / 2 ^ 52 + if s.fast then 7 else 0

/-- What a step at a position adds to a slot. -/
def share (s : Step) (position slot : Nat) : Int32 :=
  if slot < s.start position then 0 else (s.taps position).getD (slot - s.start position) 0

variable (s : Step) {position slot : Nat}

/-- A step has sixteen taps, or two with the fast kernel. -/
theorem length_taps : (s.taps position).length = if s.fast then 2 else 16 := by
  unfold taps
  dsimp only
  split
  · exact length_fastTaps _ _
  · exact length_stepTaps _ _

/-- A step adds nothing before its own place. -/
theorem share_of_lt (h : slot < position / 2 ^ 52) : s.share position slot = 0 :=
  if_pos (Nat.lt_of_lt_of_le h (Nat.le_add_right _ _))

/-- A step reaches over sixteen slots. -/
theorem share_of_ge (h : position / 2 ^ 52 + 16 ≤ slot) : s.share position slot = 0 := by
  unfold share
  split
  · rfl
  · have hlen : (s.taps position).length ≤ slot - s.start position := by
      rw [length_taps, start]
      split <;> omega
    rw [List.getD_eq_getElem?_getD, List.getElem?_eq_none hlen]
    rfl

/-- So many samples later a step adds the same, so many slots on. -/
theorem share_add (n : Nat) : s.share (position + n * 2 ^ 52) (slot + n) = s.share position slot := by
  have hstart : s.start (position + n * 2 ^ 52) = s.start position + n := by
    unfold start
    omega
  have htaps : s.taps (position + n * 2 ^ 52) = s.taps position := by
    unfold taps
    rw [show (position + n * 2 ^ 52) / 2 ^ 32 % 2 ^ 20 = position / 2 ^ 32 % 2 ^ 20 by omega]
  unfold share
  rw [hstart, htaps, Nat.add_sub_add_right]
  simp only [Nat.add_lt_add_iff_right]

end Step

/-- A stretch of time: its length, the steps in it, and how many samples are asked for after it. -/
structure Frame where
  clocks : Nat
  steps : List Step
  reads : List Nat

/-- The length of all frames. -/
def total : List Frame → Nat
  | [] => 0
  | f :: frames => f.clocks + total frames

/-- The steps of all frames, timed from the start of the first. -/
def allSteps : List Frame → List Step
  | [] => []
  | f :: frames => f.steps ++ (allSteps frames).map (·.later f.clocks)

/-! ## The tape -/

/-- The samples for a list of differences, and the level after them. -/
def sums (level : Int32) : List Int32 → List Int × Int32
  | [] => ([], level)
  | slot :: slots =>
    let (out, last) := sums (integrate level slot) slots
    ((outputOf level).toInt :: out, last)

/-- Sums go on from where they stood. -/
theorem sums_append (level : Int32) (as bs : List Int32) :
    sums level (as ++ bs) =
      ((sums level as).1 ++ (sums (sums level as).2 bs).1, (sums (sums level as).2 bs).2) := by
  induction as generalizing level with
  | nil => rfl
  | cons a as ih =>
    simp only [List.cons_append, sums, ih]

theorem length_sums (level : Int32) (slots : List Int32) : (sums level slots).1.length = slots.length := by
  induction slots generalizing level with
  | nil => rfl
  | cons slot slots ih => simp only [sums, List.length_cons, ih]

/-- A resampler without ends. -/
structure Tape where
  /-- The time since the first slot began, in units. -/
  position : Nat
  level : Int32
  slots : Nat → Int32

namespace Tape

variable (factor : Nat) (t : Tape)

/-- Adds a step. -/
def add (s : Step) : Tape :=
  { t with slots := fun j => t.slots j + s.share (t.position + s.clocks * factor) j }

/-- Adds steps. -/
def addAll (steps : List Step) : Tape := steps.foldl (add factor) t

/-- Lets time pass. -/
def pass (clocks : Nat) : Tape := { t with position := t.position + clocks * factor }

/-- The samples that can be read. -/
def available : Nat := t.position / 2 ^ 52

/-- The first differences. -/
def front (n : Nat) : List Int32 := (List.range n).map t.slots

/-- The first samples. -/
def heard (n : Nat) : List Int := (sums t.level (t.front n)).1

/-- The tape after they have been read. -/
def drop (n : Nat) : Tape where
  position := t.position - n * 2 ^ 52
  level := (sums t.level (t.front n)).2
  slots := fun j => t.slots (j + n)

variable {factor t}

/-! ## Laws -/

/-- The order in which two steps are put on the tape does not matter. -/
theorem add_add (a b : Step) : (t.add factor a).add factor b = (t.add factor b).add factor a := by
  unfold add
  simp only [Tape.mk.injEq, true_and]
  funext j
  rw [Int32.add_assoc, Int32.add_assoc, Int32.add_comm (a.share _ _)]

/-- Steps may be added in any order. -/
theorem addAll_perm {as bs : List Step} (h : as.Perm bs) : t.addAll factor as = t.addAll factor bs :=
  h.foldl_eq' (fun a _ b _ _ => add_add a b) t

/-- Two frames pass like one of both lengths. -/
theorem pass_pass (a b : Nat) : (t.pass factor a).pass factor b = t.pass factor (a + b) := by
  have h : t.position + a * factor + b * factor = t.position + (a + b) * factor := by
    rw [Nat.add_mul, Nat.add_assoc]
  exact congrArg (fun position => { t with position }) h

/-- A step after some time is that step timed from the start. -/
theorem pass_add (clocks : Nat) (s : Step) :
    (t.pass factor clocks).add factor s = (t.add factor (s.later clocks)).pass factor clocks := by
  have h : t.position + clocks * factor + s.clocks * factor =
      t.position + (clocks + s.clocks) * factor := by
    rw [Nat.add_mul, Nat.add_assoc]
  unfold pass add
  rw [h]
  rfl

/-- Steps after a frame are steps of later times before it. -/
theorem pass_addAll (clocks : Nat) (steps : List Step) :
    (t.pass factor clocks).addAll factor steps =
      (t.addAll factor (steps.map (·.later clocks))).pass factor clocks := by
  induction steps generalizing t with
  | nil => rfl
  | cons s steps ih =>
    show ((t.pass factor clocks).add factor s).addAll factor steps = _
    rw [pass_add, ih]
    rfl

theorem length_heard (n : Nat) : (t.heard n).length = n := by
  rw [heard, length_sums, front, List.length_map, List.length_range]

/-- A step does not reach the samples before it. -/
theorem front_add (s : Step) {n : Nat} (hn : n ≤ t.available) : (t.add factor s).front n = t.front n := by
  refine List.map_congr_left fun j hj => ?_
  have hj : j < n := List.mem_range.mp hj
  have hlt : j < (t.position + s.clocks * factor) / 2 ^ 52 :=
    Nat.lt_of_lt_of_le (Nat.lt_of_lt_of_le hj hn) (Nat.div_le_div_right (Nat.le_add_right _ _))
  show t.slots j + s.share _ j = t.slots j
  rw [s.share_of_lt hlt, Int32.add_zero]

/-- A step does not change samples that are made already. -/
theorem heard_add (s : Step) {n : Nat} (hn : n ≤ t.available) :
    (t.add factor s).heard n = t.heard n := by
  unfold heard
  rw [front_add s hn]
  rfl

theorem le_position {n : Nat} (hn : n ≤ t.available) : n * 2 ^ 52 ≤ t.position := by
  unfold available at hn
  omega

/-- A step may be added before samples are read or after. -/
theorem drop_add (s : Step) {n : Nat} (hn : n ≤ t.available) :
    (t.drop n).add factor s = (t.add factor s).drop n := by
  have hp := le_position hn
  have hslots : ∀ j, t.slots (j + n) + s.share (t.position - n * 2 ^ 52 + s.clocks * factor) j =
      t.slots (j + n) + s.share (t.position + s.clocks * factor) (j + n) := by
    intro j
    rw [← s.share_add n, show t.position - n * 2 ^ 52 + s.clocks * factor + n * 2 ^ 52 =
      t.position + s.clocks * factor by omega]
  have hlevel : (t.add factor s).drop n = { t.drop n with
      slots := fun j => t.slots (j + n) + s.share (t.position + s.clocks * factor) (j + n) } := by
    unfold drop
    rw [front_add s hn]
    rfl
  rw [hlevel, ← funext hslots]
  rfl

/-- Steps do not move the tape. -/
theorem position_addAll (steps : List Step) : (t.addAll factor steps).position = t.position := by
  induction steps generalizing t with
  | nil => rfl
  | cons s steps ih => exact ih (t := t.add factor s)

/-- Slots that no step reaches are as they were. -/
theorem slots_addAll {j : Nat} {steps : List Step}
    (h : ∀ s ∈ steps, (t.position + s.clocks * factor) / 2 ^ 52 + 16 ≤ j) :
    (t.addAll factor steps).slots j = t.slots j := by
  induction steps generalizing t with
  | nil => rfl
  | cons s steps ih =>
    have hs := h s List.mem_cons_self
    calc (t.addAll factor (s :: steps)).slots j
      _ = (t.add factor s).slots j := ih fun a ha => h a (List.mem_cons_of_mem s ha)
      _ = t.slots j + s.share (t.position + s.clocks * factor) j := rfl
      _ = t.slots j := by rw [s.share_of_ge hs, Int32.add_zero]

/-- Taking samples off and putting steps on do not depend on their order. -/
theorem drop_addAll {n : Nat} (hn : n ≤ t.available) (steps : List Step) :
    (t.drop n).addAll factor steps = (t.addAll factor steps).drop n := by
  induction steps generalizing t with
  | nil => rfl
  | cons s steps ih =>
    show ((t.drop n).add factor s).addAll factor steps = _
    rw [drop_add s hn, ih (t := t.add factor s) hn]
    rfl

theorem heard_addAll {n : Nat} (hn : n ≤ t.available) (steps : List Step) :
    (t.addAll factor steps).heard n = t.heard n := by
  induction steps generalizing t with
  | nil => rfl
  | cons s steps ih =>
    show ((t.add factor s).addAll factor steps).heard n = _
    rw [ih (t := t.add factor s) hn, heard_add s hn]

/-- Nor does passing a frame. -/
theorem drop_pass (clocks : Nat) {n : Nat} (hn : n ≤ t.available) :
    (t.drop n).pass factor clocks = (t.pass factor clocks).drop n := by
  have hp := le_position hn
  have h : t.position - n * 2 ^ 52 + clocks * factor = t.position + clocks * factor - n * 2 ^ 52 := by
    omega
  exact congrArg (fun position => { t.drop n with position }) h

/-- The front of the tape is taken off in any parts. -/
theorem front_add_length (n m : Nat) : t.front (n + m) = t.front n ++ (t.drop n).front m := by
  unfold front drop
  rw [List.range_add, List.map_append, List.map_map]
  congr 1
  refine List.map_congr_left fun j _ => ?_
  show t.slots (n + j) = t.slots (j + n)
  rw [Nat.add_comm]

/-- And heard in any parts. -/
theorem heard_heard (n m : Nat) : t.heard (n + m) = t.heard n ++ (t.drop n).heard m := by
  unfold heard
  rw [front_add_length, sums_append]
  rfl

/-- Samples are taken off one lot after the other. -/
theorem drop_drop (n m : Nat) : (t.drop n).drop m = t.drop (n + m) := by
  have hlevel : (sums t.level (t.front (n + m))).2 =
      (sums (sums t.level (t.front n)).2 ((t.drop n).front m)).2 := by
    rw [front_add_length, sums_append]
  have hposition : t.position - n * 2 ^ 52 - m * 2 ^ 52 = t.position - (n + m) * 2 ^ 52 := by
    omega
  have hslots : ∀ j, t.slots (j + m + n) = t.slots (j + (n + m)) := by
    intro j
    rw [Nat.add_assoc, Nat.add_comm m]
  unfold drop at *
  rw [hlevel, hposition, funext hslots]

theorem drop_zero : t.drop 0 = t := by
  have hposition : t.position - 0 * 2 ^ 52 = t.position := by omega
  exact congrArg (fun position => { t with position }) hposition

theorem available_drop (n : Nat) : (t.drop n).available = t.available - n := by
  unfold available drop
  dsimp only
  omega

/-! ## Frames -/

/-- Reads as many samples as are asked for, time after time, of those that there are. -/
def hear (t : Tape) : List Nat → List Int × Tape
  | [] => ([], t)
  | n :: ns =>
    let k := min n t.available
    let (out, q) := (t.drop k).hear ns
    (t.heard k ++ out, q)

/-- Reading in parts is reading once. -/
theorem hear_eq (ns : List Nat) : ∃ k ≤ t.available, t.hear ns = (t.heard k, t.drop k) := by
  induction ns generalizing t with
  | nil =>
    exact ⟨0, Nat.zero_le _, congrArg _ drop_zero.symm⟩
  | cons n ns ih =>
    obtain ⟨k, hk, he⟩ := ih (t := t.drop (min n t.available))
    rw [available_drop] at hk
    refine ⟨min n t.available + k, by omega, ?_⟩
    rw [hear, he, heard_heard, ← drop_drop]

/-- Plays frames one after the other, and reads what is left. -/
def play (factor : Nat) (t : Tape) : List Frame → List Int × Tape
  | [] => (t.heard t.available, t.drop t.available)
  | f :: frames =>
    let (out, q) := ((t.addAll factor f.steps).pass factor f.clocks).hear f.reads
    let (rest, last) := q.play factor frames
    (out ++ rest, last)

/-- The tape after all frames, with nothing read. -/
def whole (factor : Nat) (t : Tape) (frames : List Frame) : Tape :=
  (t.addAll factor (allSteps frames)).pass factor (total frames)

theorem whole_nil : t.whole factor [] = t := by
  have hposition : t.position + 0 * factor = t.position := by omega
  exact congrArg (fun position => { t with position }) hposition

/-- The first frame is played, and the others after it. -/
theorem whole_cons (f : Frame) (frames : List Frame) : t.whole factor (f :: frames) =
    ((t.addAll factor f.steps).pass factor f.clocks).whole factor frames := by
  unfold whole
  rw [pass_addAll, pass_pass, allSteps, addAll, List.foldl_append]
  rfl

/-- All frames together move the tape by their clocks. -/
theorem position_whole (frames : List Frame) :
    (t.whole factor frames).position = t.position + total frames * factor := by
  show (t.addAll factor (allSteps frames)).position + _ = _
  rw [position_addAll]

/-- Frames only make more samples available. -/
theorem available_le_whole (frames : List Frame) : t.available ≤ (t.whole factor frames).available := by
  unfold available
  rw [position_whole]
  exact Nat.div_le_div_right (Nat.le_add_right _ _)

/-- Taking samples off before the frames or after them comes to the same. -/
theorem whole_drop {n : Nat} (hn : n ≤ t.available) (frames : List Frame) :
    (t.drop n).whole factor frames = (t.whole factor frames).drop n := by
  have havailable : n ≤ (t.addAll factor (allSteps frames)).available := by
    rw [available, position_addAll]
    exact hn
  unfold whole
  rw [drop_addAll hn, drop_pass _ havailable]

/-- However time is cut, and whatever is read in between, what is heard and what is left is that of all
    the steps, all the time and one reading. -/
theorem play_eq (frames : List Frame) : t.play factor frames =
    ((t.whole factor frames).heard (t.whole factor frames).available,
      (t.whole factor frames).drop (t.whole factor frames).available) := by
  induction frames generalizing t with
  | nil => rw [whole_nil]; rfl
  | cons f frames ih =>
    obtain ⟨k, hk, hhear⟩ := hear_eq (t := (t.addAll factor f.steps).pass factor f.clocks) f.reads
    rw [whole_cons, play, hhear]
    dsimp only
    generalize (t.addAll factor f.steps).pass factor f.clocks = u at *
    have hheard : u.heard k = (u.whole factor frames).heard k := (heard_addAll hk _).symm
    have hle : k ≤ (u.whole factor frames).available := Nat.le_trans hk (available_le_whole frames)
    rw [ih, whole_drop hk, available_drop, drop_drop, hheard, ← heard_heard,
      Nat.add_sub_of_le hle]

/-- All steps in any order, all the time and one reading are as good as the frames. -/
theorem play_perm {frames : List Frame} {steps : List Step}
    (h : steps.Perm (allSteps frames)) :
    t.play factor [⟨total frames, steps, []⟩] = t.play factor frames := by
  have hwhole : t.whole factor [⟨total frames, steps, []⟩] = t.whole factor frames := by
    unfold whole
    rw [← addAll_perm h]
    simp only [allSteps, total, List.map_nil, List.append_nil, Nat.add_zero]
  rw [play_eq, play_eq, hwhole]

end Tape

end Resampler

end Famicom
