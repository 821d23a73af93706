/-
  Cutting time into frames, and reading in between, is not heard.

  A resampler keeps a window of a tape (`Resampler.tape`): its slots are the first of the tape's, and what
  lies past them is zero.  Each operation that is not refused does to the tape what the tape's own does,
  as long as time fits its format (`InTime`).

  1. **Steps and frame ends** (`put_of_le`, `endFrame_of_le`): the sample that a moment falls into decides
     whether they are taken, and only what is below a sample decides the taps.
  2. **Reading** (`Settled.read`): a reading moves the slots up to eighteen past those that wait.  That is
     taking samples off the tape if no step lies further on (`Quiet`), which the ends of frames see to
     when steps are at most two samples late (`Timely`).
  3. **Frames** (`Ready.close`, `Ready.hear`, `Ready.playsTape`): what is left after each is taken too.

  Main statement: what is heard of frames is what is heard of one frame with all the steps
  (`play_cut`).  A step from before the first frame that is still further off than two samples is the
  exception: it is left behind by a reading and sounds late (`play_cut_pending`).
-/
import Famicom.Proofs.Mixer.Reachable
import Famicom.Proofs.Resampler.Tape

namespace Famicom

namespace Resampler

variable {r q : Resampler} {clocks : Nat}

/-! ## Runs -/

/-- Adds a step. -/
def put (r : Resampler) (s : Step) : Except ResampleError Resampler :=
  if s.fast then r.addStepFast (.ofNat s.clocks) s.delta else r.addStep (.ofNat s.clocks) s.delta

/-- Reads so many samples, time after time. -/
def hear (r : Resampler) : List Nat → List Int × Resampler
  | [] => ([], r)
  | n :: ns =>
    let (samples, q) := r.read n
    let (rest, last) := q.hear ns
    (samples.toList ++ rest, last)

/-- Adds the steps of a frame and ends it. -/
def close (r : Resampler) (f : Frame) : Except ResampleError Resampler := do
  let q ← f.steps.foldlM put r
  q.endFrame (.ofNat f.clocks)

/-- Plays frames one after the other, and reads what is left. -/
def play (r : Resampler) : List Frame → Except ResampleError (List Int × Resampler)
  | [] => .ok (r.hear [r.available])
  | f :: frames => do
    let q ← r.close f
    let (out, q) := q.hear f.reads
    let (rest, last) ← q.play frames
    .ok (out ++ rest, last)

/-! ## Time

  A time is in time if the sum that says where it falls does not go round in its word.  Only then do
  the checks of the resampler say what they mean. -/

/-- A slot, and zero where there is none. -/
def slot (r : Resampler) (j : Nat) : Int32 := r.slots[j]?.getD 0

/-- What a resampler holds, as a tape. -/
def tape (r : Resampler) : Tape where
  position := r.available * 2 ^ 52 + r.offset.toNat
  level := r.level
  slots := r.slot

/-- The place on the tape is that of the samples made, and of the part of a sample after them. -/
theorem position_tape (r : Resampler) : r.tape.position = r.available * 2 ^ 52 + r.offset.toNat := rfl

/-- The sample that so many clocks on falls into. -/
def sampleAt (r : Resampler) (clocks : Nat) : Nat :=
  (r.tape.position + clocks * r.factor.toNat) / 2 ^ 52

/-- So many clocks on, time still fits its format. -/
structure InTime (r : Resampler) (clocks : Nat) : Prop where
  clocks_lt : clocks < 2 ^ 32
  units_lt : clocks * r.factor.toNat + r.offset.toNat < 2 ^ 64

instance : Decidable (r.InTime clocks) :=
  decidable_of_iff (clocks < 2 ^ 32 ∧ clocks * r.factor.toNat + r.offset.toNat < 2 ^ 64)
    ⟨fun h => ⟨h.1, h.2⟩, fun h => ⟨h.clocks_lt, h.units_lt⟩⟩

/-- In words, the units of clocks are counted as they are, if they fit. -/
theorem toNat_units {factor offset : UInt64} (hc : clocks < 2 ^ 32)
    (hu : clocks * factor.toNat + offset.toNat < 2 ^ 64) :
    ((UInt32.ofNat clocks).toUInt64 * factor + offset).toNat =
      clocks * factor.toNat + offset.toNat := by
  have hclocks : (UInt32.ofNat clocks).toUInt64.toNat = clocks := by
    rw [UInt32.toNat_toUInt64, UInt32.toNat_ofNat', Nat.mod_eq_of_lt hc]
  rw [UInt64.toNat_add, UInt64.toNat_mul, hclocks]
  generalize clocks * factor.toNat = x at *
  omega

namespace InTime

/-- The sum that says where a time falls does not go round. -/
theorem timeAt (h : r.InTime clocks) :
    (r.timeAt (.ofNat clocks)).toNat = clocks * r.factor.toNat + r.offset.toNat :=
  toNat_units h.clocks_lt h.units_lt

theorem fixedTime (h : r.InTime clocks) :
    (r.fixedTime (.ofNat clocks)).toNat = (clocks * r.factor.toNat + r.offset.toNat) / 2 ^ 32 := by
  rw [toNat_fixedTime, h.timeAt]

/-- So many samples will have been made by then. -/
theorem samplesIn (h : r.InTime clocks) :
    r.available + r.samplesIn (.ofNat clocks) = r.sampleAt clocks := by
  rw [samplesIn_eq, h.timeAt, sampleAt, position_tape]
  omega

/-- A step at that time begins at the sample that is reached by then. -/
theorem slotAt (h : r.InTime clocks) : r.slotAt (r.fixedTime (.ofNat clocks)) = r.sampleAt clocks := by
  rw [slotAt_eq, h.samplesIn]

/-- A step may lie two samples beyond what the resampler holds. -/
theorem reaches_iff (h : r.InTime clocks) :
    r.Reaches (.ofNat clocks) ↔ r.sampleAt clocks ≤ r.capacity + 2 := by
  rw [Reaches, h.slotAt]

/-- A frame may make as many samples as the resampler holds. -/
theorem holds_iff (h : r.InTime clocks) :
    r.Holds (.ofNat clocks) ↔ r.sampleAt clocks ≤ r.capacity := by
  rw [Holds, h.samplesIn]

end InTime

/-! ## Taps -/

/-- Only the part of a sample that has passed decides the taps. -/
theorem stepTaps_congr {a b : UInt32} (h : a.toNat % 2 ^ 20 = b.toNat % 2 ^ 20) (delta : Int32) :
    stepTaps a delta = stepTaps b delta := by
  have hweight : a &&& 0x7FFF = b &&& 0x7FFF := by
    apply UInt32.toNat_inj.mp
    rw [UInt32.toNat_and, UInt32.toNat_and]
    show a.toNat &&& (2 ^ 15 - 1) = b.toNat &&& (2 ^ 15 - 1)
    rw [Nat.and_two_pow_sub_one_eq_mod, Nat.and_two_pow_sub_one_eq_mod]
    omega
  have hphase : phaseAt a = phaseAt b := by
    unfold phaseAt
    rw [UInt32.toNat_shiftRight, UInt32.toNat_shiftRight]
    show a.toNat >>> 15 % 32 = b.toNat >>> 15 % 32
    rw [Nat.shiftRight_eq_div_pow, Nat.shiftRight_eq_div_pow]
    omega
  unfold stepTaps
  simp only [hweight, hphase]

/-- The fast kernel depends on twenty bits of the time only. -/
theorem fastTaps_congr {a b : UInt32} (h : a.toNat % 2 ^ 20 = b.toNat % 2 ^ 20) (delta : Int32) :
    fastTaps a delta = fastTaps b delta := by
  have hweight : (a >>> (5 : UInt32)) &&& 0x7FFF = (b >>> (5 : UInt32)) &&& 0x7FFF := by
    apply UInt32.toNat_inj.mp
    rw [UInt32.toNat_and, UInt32.toNat_and, UInt32.toNat_shiftRight, UInt32.toNat_shiftRight]
    show a.toNat >>> 5 &&& (2 ^ 15 - 1) = b.toNat >>> 5 &&& (2 ^ 15 - 1)
    rw [Nat.and_two_pow_sub_one_eq_mod, Nat.and_two_pow_sub_one_eq_mod,
      Nat.shiftRight_eq_div_pow, Nat.shiftRight_eq_div_pow]
    omega
  unfold fastTaps
  simp only [hweight]

/-- Taps add to the slots under them and leave the others alone. -/
theorem getElem_addTaps {n : Nat} (slots : Vector Int32 n) (i : Nat) (taps : List Int32)
    (h : i + taps.length ≤ n) (j : Nat) (hj : j < n) :
    (addTaps slots i taps h)[j] = slots[j] + if j < i then 0 else taps.getD (j - i) 0 := by
  induction taps generalizing slots i with
  | nil =>
    rw [List.getD_nil, ite_self, Int32.add_zero]
    rfl
  | cons t ts ih =>
    have hi : i < n := by simp only [List.length_cons] at h; omega
    rw [addTaps, ih, Vector.getElem_set]
    rcases Nat.lt_trichotomy j i with hlt | rfl | hlt
    · rw [if_neg (by omega), if_pos (by omega), if_pos hlt]
    · rw [if_pos rfl, if_pos (by omega), if_neg (by omega), Nat.sub_self, List.getD_cons_zero,
        Int32.add_zero]
    · rw [if_neg (by omega), if_neg (by omega), if_neg (by omega),
        show j - i = j - (i + 1) + 1 by omega, List.getD_cons_succ]

/-! ## The operations on the tape

  The tape has no end and its samples no word, so on it the operations are sums and commute.  Each
  operation of the resampler is one of the tape, as long as there is room. -/

/-- A slot after taps have been added. -/
theorem slot_addTaps (i : Nat) (taps : List Int32) (h : i + taps.length ≤ r.capacity + extraSlots)
    (j : Nat) :
    ({ r with slots := addTaps r.slots i taps h } : Resampler).slot j =
      r.slot j + if j < i then 0 else taps.getD (j - i) 0 := by
  unfold slot
  dsimp only
  by_cases hj : j < r.capacity + extraSlots
  · rw [Vector.getElem?_eq_getElem hj, Vector.getElem?_eq_getElem hj, Option.getD_some,
      Option.getD_some, getElem_addTaps]
  · rw [Vector.getElem?_eq_none (by omega), Vector.getElem?_eq_none (by omega), if_neg (by omega),
      List.getD_eq_getElem?_getD, List.getElem?_eq_none (by omega)]
    rfl

theorem InTime.fixedTime_mod (h : r.InTime clocks) : (r.fixedTime (.ofNat clocks)).toNat % 2 ^ 20 =
    (UInt32.ofNat ((r.tape.position + clocks * r.factor.toNat) / 2 ^ 32 % 2 ^ 20)).toNat % 2 ^ 20 := by
  rw [h.fixedTime, UInt32.toNat_ofNat', position_tape]
  omega

/-- A step has the same taps in the resampler as on the tape. -/
theorem InTime.taps {s : Step} (h : r.InTime s.clocks) :
    s.taps (r.tape.position + s.clocks * r.factor.toNat) =
      if s.fast then fastTaps (r.fixedTime (.ofNat s.clocks)) s.delta
      else stepTaps (r.fixedTime (.ofNat s.clocks)) s.delta := by
  rw [Step.taps, fastTaps_congr h.fixedTime_mod, stepTaps_congr h.fixedTime_mod]

/-- And it has them at the same place. -/
theorem InTime.start {s : Step} (h : r.InTime s.clocks) :
    s.start (r.tape.position + s.clocks * r.factor.toNat) =
      r.slotAt (r.fixedTime (.ofNat s.clocks)) + if s.fast then 7 else 0 := by
  rw [h.slotAt, Step.start, sampleAt]

/-- Taps that are those of a step make the slots those of the tape with the step on it. -/
theorem tape_addTaps {s : Step} {i : Nat} {taps : List Int32}
    (h : i + taps.length ≤ r.capacity + extraSlots)
    (hi : i = s.start (r.tape.position + s.clocks * r.factor.toNat))
    (htaps : taps = s.taps (r.tape.position + s.clocks * r.factor.toNat)) :
    ({ r with slots := addTaps r.slots i taps h } : Resampler).tape = r.tape.add r.factor.toNat s := by
  have hslots : ({ r with slots := addTaps r.slots i taps h } : Resampler).slot =
      fun j => r.slot j + s.share (r.tape.position + s.clocks * r.factor.toNat) j := by
    funext j
    rw [slot_addTaps, Step.share, ← hi, ← htaps]
  unfold Tape.add
  rw [tape, hslots]
  rfl

/-- A step whose slots exist lands on the tape. -/
theorem put_of_le {s : Step} (h : r.InTime s.clocks) (hle : r.sampleAt s.clocks ≤ r.capacity + 2) :
    ∃ q, r.put s = .ok q ∧ q.gauge = r.gauge ∧ q.tape = r.tape.add r.factor.toNat s := by
  have hreach := h.reaches_iff.mpr hle
  obtain ⟨n, delta, fast⟩ := s
  cases fast with
  | false => exact ⟨_, dif_pos hreach, rfl, tape_addTaps _ h.start.symm h.taps.symm⟩
  | true => exact ⟨_, dif_pos hreach, rfl, tape_addTaps _ h.start.symm h.taps.symm⟩

/-- A step that the resampler takes lies at most two samples beyond what it holds. -/
theorem le_of_put {s : Step} (h : r.InTime s.clocks) (hput : r.put s = .ok q) :
    r.sampleAt s.clocks ≤ r.capacity + 2 ∧ q.gauge = r.gauge := by
  have hreach : r.sampleAt s.clocks ≤ r.capacity + 2 := by
    by_contra hn
    rw [← h.reaches_iff] at hn
    unfold put at hput
    split at hput
    · exact nomatch hput.symm.trans (dif_neg hn)
    · exact nomatch hput.symm.trans (dif_neg hn)
  obtain ⟨q', hq', hgauge, -⟩ := put_of_le h hreach
  cases hput.symm.trans hq'
  exact ⟨hreach, hgauge⟩

/-- Time that fits passes on the tape. -/
theorem endFrame_of_le (h : r.InTime clocks) (hle : r.sampleAt clocks ≤ r.capacity) :
    ∃ q, r.endFrame (.ofNat clocks) = .ok q ∧ q.capacity = r.capacity ∧ q.factor = r.factor ∧
      q.offset.toNat < 2 ^ 52 ∧ q.tape = r.tape.pass r.factor.toNat clocks := by
  have hholds := h.holds_iff.mpr hle
  have hoffset : (r.timeAt (.ofNat clocks) &&& 0xFFFFFFFFFFFFF).toNat =
      (clocks * r.factor.toNat + r.offset.toNat) % 2 ^ 52 := by
    rw [UInt64.toNat_and, h.timeAt]
    exact Nat.and_two_pow_sub_one_eq_mod _ 52
  refine ⟨_, dif_pos hholds, rfl, rfl, ?_, ?_⟩
  · show (r.timeAt (.ofNat clocks) &&& 0xFFFFFFFFFFFFF).toNat < _
    rw [hoffset]
    exact Nat.mod_lt _ (by decide)
  · have hposition : (r.available + r.samplesIn (.ofNat clocks)) * 2 ^ 52 +
        (r.timeAt (.ofNat clocks) &&& 0xFFFFFFFFFFFFF).toNat =
        r.tape.position + clocks * r.factor.toNat := by
      rw [h.samplesIn, hoffset, sampleAt, position_tape]
      omega
    exact congrArg (fun position => { r.tape with position }) hposition

/-- A frame that it closes makes no more samples than it holds. -/
theorem le_of_endFrame (h : r.InTime clocks) (hend : r.endFrame (.ofNat clocks) = .ok q) :
    r.sampleAt clocks ≤ r.capacity := by
  by_contra hn
  rw [← h.holds_iff] at hn
  cases hend.symm.trans (endFrame_of_not_holds hn)

/-! ## Reading -/

/-- No step lies more than two samples past the given one, so the slots that a reading up to there
    moves are all that hold differences. -/
def Quiet (r : Resampler) (sample : Nat) : Prop := ∀ j, sample + extraSlots ≤ j → r.slot j = 0

/-- What the end of a frame sees to, if the steps are in time. -/
structure Settled (r : Resampler) : Prop where
  offset_lt : r.offset.toNat < 2 ^ 52
  quiet : r.Quiet r.available

/-- As many whole samples are on the tape as the resampler has made. -/
theorem Settled.available_tape (h : r.Settled) : r.tape.available = r.available := by
  have := h.offset_lt
  rw [Tape.available, position_tape]
  omega

theorem Settled.offset_eq (h : r.Settled) : r.offset.toNat = r.tape.position % 2 ^ 52 := by
  have := h.offset_lt
  rw [position_tape]
  omega

/-- Summing up the slots in place is summing up their list. -/
theorem sumUp_eq (level : Int32) (slots : Array Int32) :
    ((sumUp level slots).1.toList, (sumUp level slots).2) = sums level slots.toList := by
  have hwalk : ∀ (slots : List Int32) (level : Int32) (out : Array Int),
      let walked := slots.foldl (fun (s : Array Int × Int32) slot =>
        (s.1.push (outputOf s.2).toInt, integrate s.2 slot)) (out, level)
      (walked.1.toList, walked.2) = (out.toList ++ (sums level slots).1, (sums level slots).2) := by
    intro slots
    induction slots with
    | nil => simp [sums]
    | cons slot slots ih =>
      intro level out
      simp only [List.foldl_cons, ih, sums, Array.toList_push, List.append_assoc, List.singleton_append]
  unfold sumUp
  rw [← Array.foldl_toList]
  exact hwalk slots.toList level (Array.mkEmpty slots.size)

theorem toList_extract {n : Nat} (hn : n ≤ r.available) :
    (r.slots.toArray.extract 0 n).toList = r.tape.front n := by
  have hle := r.available_le
  apply List.ext_getElem
  · rw [Array.length_toList, Array.size_extract, Vector.size_toArray, Tape.front, List.length_map,
      List.length_range]
    omega
  · intro j hj hj'
    have hjn : j < n := by simpa [Tape.front] using hj'
    have hlt : j < r.capacity + extraSlots := by omega
    have hslot : r.slot j = r.slots[j] := by
      rw [slot, Vector.getElem?_eq_getElem hlt, Option.getD_some]
    simp [Tape.front, tape, hslot]

/-- Taking samples off moves every later slot forward. -/
theorem slot_dropSlots (h : r.Settled) {n : Nat} (hn : n ≤ r.available) (j : Nat) :
    (r.dropSlots n hn).slot j = r.slot (j + n) := by
  have hle := r.available_le
  by_cases hj : j < r.capacity + extraSlots
  · have hdrop : (r.dropSlots n hn).slot j =
        if hj : j + n < r.available + extraSlots then r.slots[j + n]
        else if j < r.available + extraSlots then 0 else r.slots[j] := by
      unfold slot dropSlots
      rw [Vector.getElem?_eq_getElem hj, Option.getD_some, Vector.getElem_ofFn]
    rw [hdrop]
    -- past the slots that move up both sides are zero
    split
    · next hmoved =>
      rw [slot, Vector.getElem?_eq_getElem (by omega), Option.getD_some]
    · next hend =>
      rw [h.quiet (j + n) (by omega)]
      split
      · rfl
      · next hrest =>
        have := h.quiet j (by omega)
        rwa [slot, Vector.getElem?_eq_getElem hj] at this
  · rw [h.quiet (j + n) (by omega), slot, Vector.getElem?_eq_none (by simpa [dropSlots] using hj)]
    rfl

/-- The samples that reading takes off the tape. -/
theorem heard_eq {n : Nat} (hn : n ≤ r.available) :
    (sumUp r.level (r.slots.toArray.extract 0 n)).1.toList = r.tape.heard n ∧
      (sumUp r.level (r.slots.toArray.extract 0 n)).2 = (r.tape.drop n).level := by
  have hsums := sumUp_eq r.level (r.slots.toArray.extract 0 n)
  rw [toList_extract hn] at hsums
  exact Prod.mk.inj hsums

/-- What reading leaves. -/
theorem Settled.drop (h : r.Settled) {n : Nat} (hn : n ≤ r.available) {level : Int32}
    (hlevel : level = (r.tape.drop n).level) :
    ({ r.dropSlots n hn with level } : Resampler).tape = r.tape.drop n ∧
      ({ r.dropSlots n hn with level } : Resampler).Settled := by
  have hslot : ∀ j, ({ r.dropSlots n hn with level } : Resampler).slot j = r.slot (j + n) :=
    slot_dropSlots h hn
  constructor
  · have hposition : (r.available - n) * 2 ^ 52 + r.offset.toNat =
        r.available * 2 ^ 52 + r.offset.toNat - n * 2 ^ 52 := by
      omega
    unfold tape
    rw [funext hslot, hlevel]
    exact congrArg (fun position => { r.tape.drop n with position }) hposition
  · refine ⟨h.offset_lt, fun j hj => ?_⟩
    have hj : r.available - n + extraSlots ≤ j := hj
    rw [hslot, h.quiet (j + n) (by omega)]

/-- A settled resampler with the room and the clock of another, and a tape. -/
structure Becomes (r : Resampler) (t : Tape) (q : Resampler) : Prop where
  settled : q.Settled
  tape : q.tape = t
  capacity : q.capacity = r.capacity
  factor : q.factor = r.factor

/-- What becomes of a tape in two stages. -/
theorem Becomes.trans {p : Resampler} {t u : Tape} (h : r.Becomes t q) (h' : q.Becomes u p) :
    r.Becomes u p :=
  ⟨h'.settled, h'.tape, h'.capacity.trans h.capacity, h'.factor.trans h.factor⟩

/-- The tape decides the rest. -/
theorem Becomes.unique {p : Resampler} {t : Tape} (h : r.Becomes t q) (h' : r.Becomes t p) : q = p := by
  have hcapacity : q.capacity = p.capacity := h.capacity.trans h'.capacity.symm
  have hfactor : q.factor = p.factor := h.factor.trans h'.factor.symm
  have htape : q.tape = p.tape := h.tape.trans h'.tape.symm
  have hq := h.settled.offset_lt
  have hp := h'.settled.offset_lt
  obtain ⟨capacity, factor, offset, available, hle, level, slots⟩ := q
  obtain ⟨capacity', factor', offset', available', hle', level', slots'⟩ := p
  obtain ⟨hposition, hlevel, hslots⟩ := Tape.mk.inj htape
  dsimp only at *
  subst hcapacity hfactor hlevel
  -- a position is whole samples and a part of one in one way only
  have havailable : available = available' := by omega
  have hoffset : offset = offset' := by
    apply UInt64.toNat_inj.mp
    omega
  have hvector : slots = slots' := by
    ext j hj
    have := congrFun hslots j
    simp only [slot, Vector.getElem?_eq_getElem hj, Option.getD_some] at this
    rw [this]
  cases havailable
  cases hoffset
  cases hvector
  rfl

/-- Reading takes samples off the tape. -/
theorem Settled.read (h : r.Settled) (count : Nat) :
    ∃ samples q, r.read count = (samples, q) ∧
      samples.toList = r.tape.heard (min count r.available) ∧
      r.Becomes (r.tape.drop (min count r.available)) q := by
  have hn : min count r.available ≤ r.available := Nat.min_le_right ..
  obtain ⟨hout, hlevel⟩ := heard_eq hn
  obtain ⟨htape, hsettled⟩ := h.drop hn hlevel
  unfold Resampler.read
  dsimp only
  split
  · next h0 =>
    rw [h0]
    exact ⟨_, _, rfl, rfl, h, Tape.drop_zero.symm, rfl, rfl⟩
  · exact ⟨_, _, rfl, hout, hsettled, htape, rfl, rfl⟩

/-- The samples that are taken are those that the tape has at the front. -/
theorem Settled.hear (h : r.Settled) (ns : List Nat) :
    ∃ q, r.hear ns = ((r.tape.hear ns).1, q) ∧ r.Becomes (r.tape.hear ns).2 q := by
  induction ns generalizing r with
  | nil => exact ⟨r, rfl, h, rfl, rfl, rfl⟩
  | cons n ns ih =>
    obtain ⟨samples, q, hread, hsamples, hq⟩ := h.read n
    obtain ⟨p, hhear, hp⟩ := ih hq.settled
    rw [hq.tape] at hhear hp
    refine ⟨p, ?_, ?_⟩
    · rw [Resampler.hear, hread]
      dsimp only
      rw [hhear, hsamples, Tape.hear, h.available_tape]
    · rw [Tape.hear, h.available_tape]
      exact hq.trans hp

/-! ## Room -/

/-- A moment is in time, and its sample at most so many past the capacity. -/
structure Room (r : Resampler) (clocks past : Nat) : Prop where
  inTime : r.InTime clocks
  sampleAt_le : r.sampleAt clocks ≤ r.capacity + past

variable {past n : Nat}

/-- Samples do not get fewer in time. -/
theorem sampleAt_mono (r : Resampler) (hn : n ≤ clocks) : r.sampleAt n ≤ r.sampleAt clocks :=
  Nat.div_le_div_right (Nat.add_le_add_left (Nat.mul_le_mul_right _ hn) _)

/-- Where a later time has room, an earlier one has too. -/
theorem Room.mono (h : r.Room clocks past) (hn : n ≤ clocks) : r.Room n past := by
  have hmul := Nat.mul_le_mul_right r.factor.toNat hn
  have hclocks := h.inTime.clocks_lt
  have hunits := h.inTime.units_lt
  exact ⟨⟨by omega, by omega⟩, Nat.le_trans (r.sampleAt_mono hn) h.sampleAt_le⟩

/-- Whether a time is in time depends on the gauge alone. -/
theorem InTime.congr (h : r.InTime clocks) (hq : q.gauge = r.gauge) : q.InTime clocks := by
  obtain ⟨-, hf, ho, -⟩ := Gauge.mk.inj hq
  obtain ⟨hclocks, hunits⟩ := h
  refine ⟨hclocks, ?_⟩
  rwa [hf, ho]

/-- So does whether it has room. -/
theorem Room.congr (h : r.Room clocks past) (hq : q.gauge = r.gauge) : q.Room clocks past := by
  obtain ⟨hc, hf, ho, ha⟩ := Gauge.mk.inj hq
  obtain ⟨htime, hle⟩ := h
  refine ⟨htime.congr hq, ?_⟩
  unfold sampleAt tape at *
  rwa [ha, ho, hc, hf]

/-- After some time, and some samples read, the time that is left has room. -/
theorem Room.later (h : r.Room (clocks + n) past) {t : Tape} (hq : r.Becomes t q) (samples : Nat)
    (ht : t.position + samples * 2 ^ 52 = r.tape.position + clocks * r.factor.toNat) :
    q.Room n past := by
  have hclocks := h.inTime.clocks_lt
  have hunits := h.inTime.units_lt
  have hle := h.sampleAt_le
  have hposition := r.position_tape
  unfold sampleAt at hle
  rw [Nat.add_mul] at hunits hle
  refine ⟨⟨by omega, ?_⟩, ?_⟩
  · rw [hq.settled.offset_eq, hq.tape, hq.factor]
    omega
  · unfold sampleAt
    rw [hq.tape, hq.factor, hq.capacity]
    omega

/-- The steps of each frame are at most two samples past its end. -/
def Timely (factor position : Nat) : List Frame → Prop
  | [] => True
  | f :: frames =>
    (∀ s ∈ f.steps, (position + s.clocks * factor) / 2 ^ 52 ≤
      (position + f.clocks * factor) / 2 ^ 52 + 2) ∧
    Timely factor (position + f.clocks * factor) frames

instance decidableTimely (factor : Nat) : ∀ position frames, Decidable (Timely factor position frames)
  | _, [] => .isTrue trivial
  | position, f :: frames =>
    have := decidableTimely factor (position + f.clocks * factor) frames
    inferInstanceAs (Decidable (_ ∧ _))

/-- Samples that have been made already do not matter to what is in time. -/
theorem timely_add {factor position : Nat} (samples : Nat) {frames : List Frame} :
    Timely factor (position + samples * 2 ^ 52) frames ↔ Timely factor position frames := by
  induction frames generalizing position with
  | nil => exact ⟨fun _ => trivial, fun _ => trivial⟩
  | cons f frames ih =>
    have hshift : position + samples * 2 ^ 52 + f.clocks * factor =
        position + f.clocks * factor + samples * 2 ^ 52 := by
      omega
    rw [Timely, Timely, hshift, ih]
    refine and_congr (forall₂_congr fun s _ => ?_) Iff.rfl
    omega

/-- The steps of timely frames are at most two samples past the end of the last. -/
theorem Timely.step_le {factor position : Nat} {frames : List Frame} (h : Timely factor position frames)
    {s : Step} (hs : s ∈ allSteps frames) : (position + s.clocks * factor) / 2 ^ 52 ≤
      (position + total frames * factor) / 2 ^ 52 + 2 := by
  induction frames generalizing position s with
  | nil => exact absurd hs (List.not_mem_nil)
  | cons f frames ih =>
    have htotal : total (f :: frames) = f.clocks + total frames := rfl
    rw [htotal, Nat.add_mul]
    rcases List.mem_append.mp hs with hs | hs
    · have := h.1 s hs
      omega
    · obtain ⟨a, ha, rfl⟩ := List.mem_map.mp hs
      have := ih h.2 ha
      rw [Step.later, Nat.add_mul]
      omega

/-- A resampler takes all that frames hold. -/
structure Ready (r : Resampler) (frames : List Frame) : Prop where
  time : r.Room (total frames) 0
  steps : ∀ s ∈ allSteps frames, r.Room s.clocks 2
  timely : Timely r.factor.toNat r.tape.position frames

/-! ## Frames

  By induction over the frames: each is put on the tape and passed, and samples may be taken between
  any two. -/

/-- Steps that all have room are all taken, and come onto the tape. -/
theorem putAll_of_room {steps : List Step} (h : ∀ s ∈ steps, r.Room s.clocks 2) :
    ∃ q, steps.foldlM put r = .ok q ∧ q.gauge = r.gauge ∧
      q.tape = r.tape.addAll r.factor.toNat steps := by
  induction steps generalizing r with
  | nil => exact ⟨r, rfl, rfl, rfl⟩
  | cons s steps ih =>
    have hs := h s List.mem_cons_self
    obtain ⟨q, hput, hgauge, htape⟩ := put_of_le hs.inTime hs.sampleAt_le
    obtain ⟨p, hsteps, hgauge', htape'⟩ := ih (r := q) fun a ha =>
      (h a (List.mem_cons_of_mem s ha)).congr hgauge
    obtain ⟨-, hfactor, -, -⟩ := Gauge.mk.inj hgauge
    refine ⟨p, ?_, hgauge'.trans hgauge, ?_⟩
    · rw [List.foldlM_cons, hput]
      exact hsteps
    · rw [htape', htape, hfactor]
      rfl

/-- A frame with room and with the steps before it in their places is closed, and the tape goes past
    it. -/
theorem Ready.close {f : Frame} {frames : List Frame} (h : r.Ready (f :: frames))
    (hquiet : r.Quiet (r.sampleAt f.clocks)) :
    ∃ q, r.close f = .ok q ∧ q.Ready frames ∧
      r.Becomes ((r.tape.addAll r.factor.toNat f.steps).pass r.factor.toNat f.clocks) q := by
  obtain ⟨p, hput, hgauge, htape⟩ := putAll_of_room fun s hs =>
    h.steps s (List.mem_append_left _ hs)
  obtain ⟨hcapacity, hfactor, -, -⟩ := Gauge.mk.inj hgauge
  have hroom : p.Room f.clocks 0 := (h.time.mono (Nat.le_add_right _ _)).congr hgauge
  obtain ⟨q, hend, hcapacity', hfactor', hoffset, hpass⟩ :=
    endFrame_of_le hroom.inTime hroom.sampleAt_le
  rw [htape, hfactor] at hpass
  have hposition : q.tape.position = r.tape.position + f.clocks * r.factor.toNat := by
    rw [hpass]
    show (r.tape.addAll _ _).position + _ = _
    rw [Tape.position_addAll]
  have havailable : q.available = r.sampleAt f.clocks := by
    rw [sampleAt, ← hposition, position_tape]
    omega
  have hbecomes : r.Becomes ((r.tape.addAll r.factor.toNat f.steps).pass r.factor.toNat f.clocks) q := by
    refine ⟨⟨hoffset, fun j hj => ?_⟩, hpass, hcapacity'.trans hcapacity, hfactor'.trans hfactor⟩
    rw [havailable] at hj
    show q.tape.slots j = 0
    rw [hpass]
    show (r.tape.addAll _ _).slots j = 0
    rw [Tape.slots_addAll fun s hs => ?_]
    · exact hquiet j hj
    · have := h.timely.1 s hs
      unfold sampleAt extraSlots at hj
      omega
  have hlater : ∀ {n past}, r.Room (f.clocks + n) past → q.Room n past := fun hn =>
    hn.later hbecomes 0 (by rw [← hbecomes.tape, hposition, Nat.zero_mul, Nat.add_zero])
  refine ⟨q, ?_, ⟨hlater h.time, fun s hs => ?_, ?_⟩, hbecomes⟩
  · rw [Resampler.close, hput]
    exact hend
  · exact hlater (h.steps _ (List.mem_append_right _ (List.mem_map_of_mem hs)))
  · rw [hbecomes.factor, hposition]
    exact h.timely.2

/-- Samples can be taken at any point between frames. -/
theorem Ready.hear {frames : List Frame} (h : r.Ready frames) (hr : r.Settled) (ns : List Nat) :
    ∃ q, r.hear ns = ((r.tape.hear ns).1, q) ∧ q.Ready frames ∧ r.Becomes (r.tape.hear ns).2 q := by
  obtain ⟨q, hhear, hbecomes⟩ := hr.hear ns
  obtain ⟨k, hk, htape⟩ := Tape.hear_eq (t := r.tape) ns
  have hposition : (r.tape.hear ns).2.position + k * 2 ^ 52 = r.tape.position := by
    have := Tape.le_position hk
    rw [htape]
    show r.tape.position - k * 2 ^ 52 + k * 2 ^ 52 = _
    omega
  have hlater : ∀ {n past}, r.Room n past → q.Room n past := by
    intro n past hn
    rw [← Nat.zero_add n] at hn
    exact hn.later hbecomes k (by omega)
  refine ⟨q, hhear, ⟨hlater h.time, fun s hs => hlater (h.steps s hs), ?_⟩, hbecomes⟩
  have htimely := h.timely
  rwa [← hposition, timely_add, ← hbecomes.tape, ← hbecomes.factor] at htimely

/-- Frames are taken, and the samples and what is left are those of the tape. -/
def PlaysTape (r : Resampler) (frames : List Frame) : Prop :=
  ∃ q, r.play frames = .ok ((r.tape.play r.factor.toNat frames).1, q) ∧
    r.Becomes (r.tape.play r.factor.toNat frames).2 q

/-- With no frames to come there is nothing to play. -/
theorem Settled.playsTape_nil (h : r.Settled) : r.PlaysTape [] := by
  obtain ⟨q, hhear, hq⟩ := h.hear [r.available]
  have hall : r.tape.hear [r.available] = r.tape.play r.factor.toNat [] := by
    simp only [Tape.hear, Tape.play, h.available_tape, Nat.min_self, List.append_nil]
  rw [hall] at hhear hq
  exact ⟨q, congrArg Except.ok hhear, hq⟩

/-- A frame is played if it can be closed and the rest is played after it. -/
theorem Ready.playsTape_cons {f : Frame} {frames : List Frame} (h : r.Ready (f :: frames))
    (hquiet : r.Quiet (r.sampleAt f.clocks))
    (hrest : ∀ p : Resampler, p.Settled → p.Ready frames → p.PlaysTape frames) :
    r.PlaysTape (f :: frames) := by
  obtain ⟨q, hclose, hready, hq⟩ := h.close hquiet
  obtain ⟨p, hhear, hready', hp⟩ := hready.hear hq.settled f.reads
  obtain ⟨last, hplay, hlast⟩ := hrest p hp.settled hready'
  rw [hq.tape] at hhear hp
  rw [hp.tape, hp.factor, hq.factor] at hplay hlast
  refine ⟨last, ?_, hq.trans (hp.trans hlast)⟩
  simp only [play, hclose, hhear, hplay, Tape.play, bind, Except.bind]

/-- What is quiet from some sample on is quiet from a later one on. -/
theorem Quiet.mono {a b : Nat} (h : r.Quiet a) (hab : a ≤ b) : r.Quiet b := fun j hj =>
  h j (Nat.le_trans (Nat.add_le_add_right hab _) hj)

/-- A settled resampler plays frames that it has room for as the tape does. -/
theorem Ready.playsTape {frames : List Frame} (h : r.Ready frames) (hr : r.Settled) :
    r.PlaysTape frames := by
  induction frames generalizing r with
  | nil => exact hr.playsTape_nil
  | cons f frames ih =>
    have hle : r.available ≤ r.sampleAt f.clocks := by
      rw [← hr.available_tape]
      exact Nat.div_le_div_right (Nat.le_add_right _ _)
    exact h.playsTape_cons (hr.quiet.mono hle) fun p hp hready => ih hready hp

/-- What was taken had room. -/
theorem room_of_putAll {steps : List Step} (htimes : ∀ s ∈ steps, r.InTime s.clocks)
    (hput : steps.foldlM put r = .ok q) : (∀ s ∈ steps, r.Room s.clocks 2) ∧ q.gauge = r.gauge := by
  induction steps generalizing r with
  | nil =>
    cases hput
    exact ⟨fun s hs => absurd hs List.not_mem_nil, rfl⟩
  | cons s steps ih =>
    have hs := htimes s List.mem_cons_self
    rw [List.foldlM_cons] at hput
    cases hfirst : r.put s with
    | error e =>
      rw [hfirst] at hput
      cases hput
    | ok p =>
      rw [hfirst] at hput
      -- a step leaves the gauge alone, so what has room after it has room before
      obtain ⟨hle, hgauge⟩ := le_of_put hs hfirst
      obtain ⟨hrooms, hgauge'⟩ := ih (fun a ha =>
        (htimes a (List.mem_cons_of_mem s ha)).congr hgauge) hput
      refine ⟨?_, hgauge'.trans hgauge⟩
      intro a ha
      rcases List.mem_cons.mp ha with rfl | ha
      · exact ⟨hs, hle⟩
      · exact (hrooms a ha).congr hgauge.symm

/-- A frame that is closed had room for all its steps. -/
theorem room_of_close {f : Frame} (htimes : ∀ s ∈ f.steps, r.InTime s.clocks)
    (htime : r.InTime f.clocks) (hclose : r.close f = .ok q) :
    (∀ s ∈ f.steps, r.Room s.clocks 2) ∧ r.Room f.clocks 0 := by
  unfold close at hclose
  cases hput : f.steps.foldlM put r with
  | error e =>
    rw [hput] at hclose
    cases hclose
  | ok p =>
    rw [hput] at hclose
    obtain ⟨hrooms, hgauge⟩ := room_of_putAll htimes hput
    have htime' := htime.congr hgauge
    have hroom : p.Room f.clocks 0 := ⟨htime', le_of_endFrame htime' hclose⟩
    exact ⟨hrooms, hroom.congr hgauge.symm⟩

/-! ## Cutting time -/

/-- A resampler that has heard nothing is quiet from everywhere on. -/
theorem quiet_empty (h : r.slots = .replicate _ 0) (sample : Nat) : r.Quiet sample := by
  intro j _
  rw [slot, h]
  by_cases hj : j < r.capacity + extraSlots
  · rw [Vector.getElem?_eq_getElem hj, Vector.getElem_replicate, Option.getD_some]
  · rw [Vector.getElem?_eq_none (by omega), Option.getD_none]

/-- A new resampler holds no step. -/
theorem quiet_new {capacity : Nat} (h : Resampler.new capacity = .ok r) (sample : Nat) :
    r.Quiet sample := by
  unfold Resampler.new at h
  split at h
  · cases h
  · split at h
    · cases h
      exact quiet_empty rfl sample
    · cases h

/-- To add steps in any order, end one frame and read everything, and to cut the time into frames, with
    the steps of each timed from its start and any readings after its end, come out the same: the samples
    and what is left of the resampler.  No time is lost at the ends of frames.  The steps are at most two
    samples past the end of their frames, and so are those that the resampler holds already when the
    first frame ends. -/
theorem play_cut {f : Frame} {frames : List Frame} {steps : List Step} {out : List Int}
    (hsteps : steps.Perm (allSteps (f :: frames)))
    (htime : r.InTime (total (f :: frames))) (htimes : ∀ s ∈ steps, r.InTime s.clocks)
    (htimely : Timely r.factor.toNat r.offset.toNat (f :: frames))
    (hquiet : r.Quiet (r.sampleAt f.clocks))
    (h : r.play [⟨total (f :: frames), steps, []⟩] = .ok (out, q)) :
    r.play (f :: frames) = .ok (out, q) ∧
      out.length = r.available + (total (f :: frames) * r.factor.toNat + r.offset.toNat) / 2 ^ 52 := by
  obtain ⟨hrooms, hroom⟩ : (∀ s ∈ steps, r.Room s.clocks 2) ∧ r.Room (total (f :: frames)) 0 := by
    cases hclose : r.close ⟨total (f :: frames), steps, []⟩ with
    | error e =>
      simp only [play, hclose, bind, Except.bind] at h
      cases h
    | ok p => exact room_of_close htimes htime hclose
  have htimely' : Timely r.factor.toNat r.tape.position (f :: frames) := by
    rw [← timely_add r.available, Nat.add_comm] at htimely
    exact htimely
  have hcut : r.Ready (f :: frames) :=
    ⟨hroom, fun s hs => hrooms s (hsteps.mem_iff.mpr hs), htimely'⟩
  have hwhole : r.Ready [⟨total (f :: frames), steps, []⟩] := by
    refine ⟨hroom, fun s hs => hrooms s ?_, fun s hs => ?_, trivial⟩
    · simpa [allSteps] using hs
    · exact htimely'.step_le (hsteps.mem_iff.mp hs)
  have hlater : r.sampleAt f.clocks ≤ r.sampleAt (total (f :: frames)) :=
    r.sampleAt_mono (Nat.le_add_right _ _)
  -- both are played as on the tape, which does not tell them apart
  obtain ⟨q₁, hplay₁, hq₁⟩ := hcut.playsTape_cons hquiet fun p hp hready => hready.playsTape hp
  obtain ⟨q₂, hplay₂, hq₂⟩ := hwhole.playsTape_cons (hquiet.mono hlater) fun p hp hready =>
    hready.playsTape hp
  rw [Tape.play_perm hsteps] at hplay₂ hq₂
  cases h.symm.trans hplay₂
  rw [hq₁.unique hq₂] at hplay₁
  refine ⟨hplay₁, ?_⟩
  rw [Tape.play_eq, Tape.length_heard, Tape.available, Tape.position_whole, position_tape]
  omega

/-- Two frames of little more than a sample, and the steps of both in another order.  One of the first is
    two samples past its end. -/
theorem play_cut_new : ∃ r out q, Resampler.new 4 = .ok r ∧
    r.play [⟨2 * 2 ^ 20 + 8, [⟨2 ^ 20 + 70, -900, false⟩, ⟨3 * 2 ^ 20, 500, false⟩, ⟨9, 40, true⟩],
      []⟩] = .ok (out, q) ∧
    r.play [⟨2 ^ 20 + 5, [⟨9, 40, true⟩, ⟨3 * 2 ^ 20, 500, false⟩], [1, 7]⟩,
      ⟨2 ^ 20 + 3, [⟨65, -900, false⟩], []⟩] = .ok (out, q) ∧ out.length = 2 := by
  obtain ⟨r, hr⟩ : ∃ r, Resampler.new 4 = .ok r := ⟨_, rfl⟩
  have htaken : (r.play [⟨2 * 2 ^ 20 + 8, [⟨2 ^ 20 + 70, -900, false⟩, ⟨3 * 2 ^ 20, 500, false⟩,
      ⟨9, 40, true⟩], []⟩]).toBool = true := by
    cases hr
    decide +kernel
  have htotal : 2 * 2 ^ 20 + 8 = total [⟨2 ^ 20 + 5, [⟨9, 40, true⟩, ⟨3 * 2 ^ 20, 500, false⟩], [1, 7]⟩,
      ⟨2 ^ 20 + 3, [⟨65, -900, false⟩], []⟩] := by
    decide
  rw [htotal] at htaken ⊢
  cases h : r.play [⟨total _, [⟨2 ^ 20 + 70, -900, false⟩, ⟨3 * 2 ^ 20, 500, false⟩,
      ⟨9, 40, true⟩], []⟩] with
  | error e =>
    rw [h] at htaken
    cases htaken
  | ok p =>
    obtain ⟨out, q⟩ := p
    obtain ⟨hcut, hlength⟩ := play_cut
      (by decide) (by cases hr; decide) (by cases hr; decide) (by cases hr; decide) (quiet_new hr _) h
    refine ⟨r, out, q, hr, h, hcut, hlength.trans ?_⟩
    cases hr
    decide

/-- A step that is pending thirteen samples on stays where it is when one sample is read. -/
theorem play_cut_pending :
    (do
      let r ← (← Resampler.new 23).put ⟨13 * 2 ^ 20, 1, true⟩
      let (out, _) ← r.play [⟨22 * 2 ^ 20, [], []⟩]
      return out) = .ok (List.replicate 21 0 ++ [1]) ∧
    (do
      let r ← (← Resampler.new 23).put ⟨13 * 2 ^ 20, 1, true⟩
      let (out, _) ← r.play [⟨2 ^ 20, [], [1]⟩, ⟨21 * 2 ^ 20, [], []⟩]
      return out) = .ok (List.replicate 22 0) := by
  decide +kernel

end Resampler

end Famicom
