/-
  No call of the resampler goes to a place that is not there, if its slots can be counted in a word.

  1. **Counts** (`sum64_eq`, `Sized.slotAt`): with as many slots as there can be, no sum of counts goes round.
  2. **Places** (`bump?_eq`, `window?_eq`, `fill?_eq`): within its bounds a checked access answers, with
     what the plain one gives.
  3. **Steps** (`addStep?_plain`, `addStepFast?_plain`): a step that is taken begins at most two slots past
     the capacity, so its window of sixteen ends with the last slot there is.  Going through it in pairs,
     from both ends of the kernel's rows, adds the taps of the step (`foldlM_addPair`).
  4. **Moving up** (`drop?_plain`): what is moved and what is filled behind it make up the samples that
     wait and the eighteen slots after them.
  5. **Reading** (`readInto?_plain`): as many samples are taken as there are places for them (`lt_room_iff`),
     so each is written to a place of the caller's (`foldlM_readSlot`), and no other place is
     (`getElem?_placed_of_ne`).
  6. **Every call** (`Plain.Reachable.exists_plain`): by induction, what calls lead to is always a resampler
     with its proofs, taken as plain data.
  7. **Without slots** (`Plain.exists_none_of_wraps`): for the last eighteen counts of samples the sum with the
     slots beyond them goes round, and eighteen samples, which such a resampler takes in, cannot be read.

  Main statement: `Plain.inBounds_or_stops`.
-/
import Famicom.Resampler.Plain
import Famicom.Proofs.Resampler.StepHeight

namespace Famicom.Resampler

/-! ## Counts -/

/-- Counts that fit a word add up. -/
theorem sum64_eq {a b : Nat} (h : a + b < 0x10000000000000000) : sum64 a b = a + b :=
  Nat.mod_eq_of_lt h

/-- The whole samples of a time are fewer than 4096. -/
theorem samples_lt (time : UInt64) : (time >>> (52 : UInt64)).toNat < 0x1000 := by
  have htime := time.toNat_lt
  show time.toNat >>> 52 < 0x1000
  rw [Nat.shiftRight_eq_div_pow]
  omega

/-- So are those of the upper half of one. -/
theorem fixedSamples_lt (fixed : UInt32) : (fixed >>> (20 : UInt32)).toNat < 0x1000 := by
  have hfixed := fixed.toNat_lt
  show fixed.toNat >>> 20 < 0x1000
  rw [Nat.shiftRight_eq_div_pow]
  omega

/-- There can be as many slots as the resampler is to have. -/
def Sized (r : Resampler) : Prop := r.capacity + extraSlots ≤ maxSlots

section

variable {r : Resampler} (h : r.Sized)

include h

/-- With room for what waits and for what a time brings, no sum of counts goes round. -/
theorem Sized.lt {n : Nat} (hn : n < 0x1000) : r.capacity + n < 0x10000000000000000 := by
  unfold Sized maxSlots at h
  omega

/-- A step begins in the slot that it begins in with proofs. -/
theorem Sized.slotAt (clocks : UInt32) :
    r.plain.slotAt clocks = r.slotAt (r.fixedTime clocks) := by
  have hle := r.available_le
  have hlt := h.lt (fixedSamples_lt (r.fixedTime clocks))
  exact sum64_eq (Nat.lt_of_le_of_lt (Nat.add_le_add_right hle _) hlt)

/-- The last slot in which a step may begin is two past the capacity. -/
theorem Sized.lastSlot : sum64 r.plain.capacity 2 = r.capacity + 2 :=
  sum64_eq (h.lt (by decide))

/-- What waits at the end of a frame is counted. -/
theorem Sized.endFrame (time : UInt64) : sum64 r.plain.available (time >>> (52 : UInt64)).toNat =
    r.available + (time >>> (52 : UInt64)).toNat := by
  have hle := r.available_le
  have hlt := h.lt (samples_lt time)
  exact sum64_eq (Nat.lt_of_le_of_lt (Nat.add_le_add_right hle _) hlt)

/-- So are the slots that may hold differences. -/
theorem Sized.used : sum64 r.plain.available extraSlots = r.available + extraSlots := by
  have hle := r.available_le
  have hlt := h.lt (show extraSlots < 0x1000 by decide)
  exact sum64_eq (Nat.lt_of_le_of_lt (Nat.add_le_add_right hle _) hlt)

end

/-! ## Places -/

section

variable {α : Type}

/-- A difference that does not go below zero is taken. -/
theorem sub?_eq {a b : Nat} (h : b ≤ a) : sub? a b = some (a - b) := if_pos h

/-- A place that is there is written. -/
theorem put?_eq {cells : List α} {i : Nat} (h : i < cells.length) (x : α) :
    put? cells i x = some (cells.set i x) := if_pos h

theorem bump?_eq {cells : List Int32} {i : Nat} (h : i < cells.length) (x : Int32) :
    bump? cells i x = some (cells.set i (cells[i] + x)) := by
  unfold bump?
  rw [List.getElem?_eq_getElem h]
  exact put?_eq h _

/-- A window within the cells is looked at. -/
theorem window?_eq {cells : List α} {start length : Nat} (h : start + length ≤ cells.length) :
    window? cells start length = some ((cells.drop start).take length) := if_pos h

/-- Values that fit into the cells are written there. -/
theorem fill?_eq {cells values : List α} {start : Nat} (h : start + values.length ≤ cells.length) :
    fill? cells start values =
      some (cells.take start ++ values ++ cells.drop (start + values.length)) := if_pos h

/-- Cells moved up and the filler behind them stay within the cells. -/
theorem moveUp?_eq {cells : List α} {count length : Nat} (h : count + length ≤ cells.length)
    (filler : α) : moveUp? cells count length filler =
      some ((cells.drop count).take length ++ .replicate count filler ++
        cells.drop (length + count)) := by
  have hmoved : ((cells.drop count).take length).length = length := by
    rw [List.length_take, List.length_drop]
    omega
  have hsame : ((cells.drop count).take length ++ cells.drop length).length = cells.length := by
    rw [List.length_append, hmoved, List.length_drop]
    omega
  have hbehind : ((cells.drop count).take length ++ cells.drop length).drop (length + count) =
      cells.drop (length + count) := by
    rw [← List.drop_drop, List.drop_left' hmoved, List.drop_drop]
  unfold moveUp?
  rw [window?_eq h, Option.bind_eq_bind, Option.bind_some,
    fill?_eq (by rw [hmoved]; omega), Option.bind_some, hmoved, Nat.zero_add, List.take_zero,
    List.nil_append, fill?_eq (by rw [hsame, List.length_replicate]; omega),
    List.length_replicate, List.take_left' hmoved, hbehind]

end

/-! ## Steps -/

section

variable {rows : Plain.Rows} {earlier later : Int32} {i : Nat} {slots taps : List Int32}
  {tap : Nat → Int32}

/-- Slots with taps added from slot `i` on. -/
def added (i : Nat) (taps slots : List Int32) : List Int32 :=
  slots.mapIdx fun j slot => slot + if j < i then 0 else taps.getD (j - i) 0

/-- After `n` pairs, as many taps of either half have been added. -/
def addedPairs (i n : Nat) (tap : Nat → Int32) (slots : List Int32) : List Int32 :=
  slots.mapIdx fun j slot =>
    if (i ≤ j ∧ j < i + n) ∨ (i + 8 ≤ j ∧ j < i + 8 + n) then slot + tap (j - i) else slot

/-- A pair of taps is added under its two places, of the sixteen from where the step begins. -/
theorem addPair?_eq {n : Nat} (hn : n < 8) (hroom : i + 16 ≤ slots.length)
    (hfirst : rows.first[n] * earlier + rows.firstNext[n] * later = tap n)
    (hsecond : rows.second[7 - n] * earlier + rows.secondNext[7 - n] * later = tap (8 + n)) :
    Plain.addPair? rows earlier later i (addedPairs i n tap slots) n =
      some (addedPairs i (n + 1) tap slots) := by
  have hlength : (addedPairs i n tap slots).length = slots.length := List.length_mapIdx
  -- neither place of this pair was one of an earlier pair
  have hfront : (addedPairs i n tap slots)[i + n] = slots[i + n] := by
    simp only [addedPairs, List.getElem_mapIdx]
    rw [if_neg (by omega)]
  have hback : (addedPairs i n tap slots)[i + 8 + n] = slots[i + 8 + n] := by
    simp only [addedPairs, List.getElem_mapIdx]
    rw [if_neg (by omega)]
  unfold Plain.addPair?
  rw [Vector.getElem?_eq_getElem hn, Vector.getElem?_eq_getElem hn, sub?_eq (by omega : n ≤ 7)]
  simp only [Option.bind_eq_bind, Option.bind_some, hfirst]
  rw [bump?_eq (by omega)]
  simp only [Option.bind_some]
  rw [Vector.getElem?_eq_getElem (by omega), Vector.getElem?_eq_getElem (by omega)]
  simp only [Option.bind_some, hsecond]
  rw [bump?_eq (by rw [List.length_set]; omega), List.getElem_set_ne (by omega), hfront, hback]
  refine congrArg some (List.ext_getElem ?_ ?_)
  · simp [addedPairs]
  · intro j hj hj'
    simp only [List.getElem_set, addedPairs, List.getElem_mapIdx]
    rcases eq_or_ne (i + 8 + n) j with rfl | hback
    · rw [if_pos rfl, if_pos (by omega), show i + 8 + n - i = 8 + n by omega]
    · rw [if_neg hback]
      rcases eq_or_ne (i + n) j with rfl | hfront
      · rw [if_pos rfl, if_pos (by omega), Nat.add_sub_cancel_left]
      · rw [if_neg hfront]
        exact if_congr (by omega) rfl rfl

/-- So are all pairs, one after the other. -/
theorem foldlM_addPair {n : Nat} (hn : n ≤ 8) (hroom : i + 16 ≤ slots.length)
    (hfirst : ∀ k (hk : k < 8), rows.first[k] * earlier + rows.firstNext[k] * later = tap k)
    (hsecond : ∀ k (hk : k < 8),
      rows.second[7 - k] * earlier + rows.secondNext[7 - k] * later = tap (8 + k)) :
    (List.range n).foldlM (Plain.addPair? rows earlier later i) slots =
      some (addedPairs i n tap slots) := by
  induction n with
  | zero =>
    refine congrArg some (List.ext_getElem ?_ ?_)
    · rw [addedPairs, List.length_mapIdx]
    · intro j hj hj'
      simp only [addedPairs, List.getElem_mapIdx]
      rw [if_neg (by omega)]
  | succ n ih =>
    rw [List.range_succ, List.foldlM_append, ih (by omega) hsecond, Option.bind_eq_bind,
      Option.bind_some, List.foldlM_cons,
      addPair?_eq (by omega) hroom (hfirst n (by omega)) (hsecond n (by omega))]
    rfl

/-- All pairs together are the sixteen taps. -/
theorem addedPairs_eight (hlength : taps.length = 16) :
    addedPairs i 8 (taps.getD · 0) slots = added i taps slots := by
  refine congrArg (List.mapIdx · slots) ?_
  funext j slot
  rcases Nat.lt_or_ge j i with hbefore | hfrom
  · rw [if_neg (by omega), if_pos hbefore, Int32.add_zero]
  · rw [if_neg (Nat.not_lt.mpr hfrom)]
    split
    · rfl
    · rw [List.getD_eq_getElem?_getD, List.getElem?_eq_none (by omega), Option.getD_none,
        Int32.add_zero]

/-- The two taps of the fast kernel are added side by side. -/
theorem added_pair {a b : Int32} (hroom : i + 1 < slots.length) : added i [a, b] slots =
    (slots.set i (slots[i] + a)).set (i + 1) (slots[i + 1] + b) := by
  apply List.ext_getElem
  · simp [added]
  · intro j hj hj'
    simp only [added, List.getElem_mapIdx, List.getElem_set]
    rcases Nat.lt_trichotomy j i with hlt | rfl | hgt
    · rw [if_pos hlt, if_neg (by omega), if_neg (by omega), Int32.add_zero]
    · rw [if_neg (by omega), if_neg (by omega), if_pos rfl, Nat.sub_self, List.getD_cons_zero]
    · rw [if_neg (by omega)]
      rcases eq_or_ne (i + 1) j with rfl | hne
      · rw [if_pos rfl, Nat.add_sub_cancel_left, List.getD_cons_succ, List.getD_cons_zero]
      · have hpast : [a, b].length ≤ j - i := by
          show 2 ≤ j - i
          omega
        rw [if_neg hne, if_neg (by omega), List.getD_eq_getElem?_getD, List.getElem?_eq_none hpast,
          Option.getD_none, Int32.add_zero]

end

/-- The taps at one position: its own row, and the mirrored one's backwards. -/
theorem getElem?_kernelTaps {phase k : Nat} (hphase : phase ≤ 32) (hk : k < 8) :
    (kernelTaps phase hphase)[k]? = some kernel[phase][k] ∧
      (kernelTaps phase hphase)[8 + k]? = some kernel[32 - phase][7 - k] := by
  unfold kernelTaps
  constructor
  · rw [List.getElem?_append_left (by rwa [Vector.length_toList]), Vector.getElem?_toList,
      Vector.getElem?_eq_getElem hk]
  · rw [List.getElem?_append_right (by rw [Vector.length_toList]; omega), Vector.length_toList,
      Nat.add_sub_cancel_left, List.getElem?_reverse (by rwa [Vector.length_toList]),
      Vector.getElem?_toList, Vector.length_toList]
    exact Vector.getElem?_eq_getElem (show 8 - 1 - k < 8 by omega)

/-- The rows for a step are there, and its taps are made of them. -/
theorem exists_rows (fixed : UInt32) (delta : Int32) :
    let later := (delta * (fixed &&& 0x7FFF).toInt32) >>> (15 : Int32)
    ∃ rows, Plain.rows? (phaseAt fixed) = some rows ∧
      (∀ k (hk : k < 8), rows.first[k] * (delta - later) + rows.firstNext[k] * later =
        (stepTaps fixed delta).getD k 0) ∧
      ∀ k (hk : k < 8), rows.second[7 - k] * (delta - later) + rows.secondNext[7 - k] * later =
        (stepTaps fixed delta).getD (8 + k) 0 := by
  intro later
  have hphase : phaseAt fixed < 32 := Nat.mod_lt _ (by decide)
  have hnext : phaseAt fixed + 1 ≤ 32 := hphase
  refine ⟨⟨kernel[phaseAt fixed], kernel[phaseAt fixed + 1], kernel[32 - phaseAt fixed],
    kernel[32 - phaseAt fixed - 1]⟩, ?_, ?_, ?_⟩
  · unfold Plain.rows?
    rw [Vector.getElem?_eq_getElem (by omega), Vector.getElem?_eq_getElem (by omega),
      sub?_eq (by omega)]
    simp only [Option.bind_eq_bind, Option.bind_some]
    rw [Vector.getElem?_eq_getElem (by omega), sub?_eq (by omega)]
    simp only [Option.bind_some]
    rw [Vector.getElem?_eq_getElem (by omega)]
    rfl
  · intro k hk
    unfold stepTaps
    dsimp only
    rw [List.getD_eq_getElem?_getD, List.getElem?_zipWith, (getElem?_kernelTaps hphase.le hk).1,
      (getElem?_kernelTaps hnext hk).1]
    rfl
  · intro k hk
    unfold stepTaps
    dsimp only
    rw [List.getD_eq_getElem?_getD, List.getElem?_zipWith, (getElem?_kernelTaps hphase.le hk).2,
      (getElem?_kernelTaps hnext hk).2]
    rfl

/-- The taps are added as they are to the slots. -/
theorem toList_addTaps {n : Nat} (slots : Vector Int32 n) (i : Nat) (taps : List Int32)
    (h : i + taps.length ≤ n) : (addTaps slots i taps h).toList = added i taps slots.toList := by
  unfold added
  apply List.ext_getElem
  · rw [List.length_mapIdx, Vector.length_toList, Vector.length_toList]
  · intro j hj hj'
    rw [List.getElem_mapIdx, Vector.getElem_toList, Vector.getElem_toList, getElem_addTaps]

/-- With sixteen slots from its own on, a step finds every place that it goes to. -/
theorem Plain.addStep?_eq {p : Plain} {clocks : UInt32} (hle : p.slotAt clocks ≤ sum64 p.capacity 2)
    (hroom : p.slotAt clocks + 16 ≤ p.slots.length) (delta : Int32) : p.addStep? clocks delta =
      some (.ok { p with
        slots := added (p.slotAt clocks) (stepTaps (p.fixedTime clocks) delta) p.slots }) := by
  obtain ⟨rows, hrows, hfirst, hsecond⟩ := exists_rows (p.fixedTime clocks) delta
  unfold Plain.addStep?
  dsimp only
  rw [if_neg (Nat.not_lt.mpr hle), hrows, window?_eq hroom]
  simp only [Option.bind_eq_bind, Option.bind_some]
  rw [foldlM_addPair (Nat.le_refl 8) hroom hfirst hsecond, addedPairs_eight (length_stepTaps _ _)]
  rfl

/-- A quick step goes to two of the sixteen. -/
theorem Plain.addStepFast?_eq {p : Plain} {clocks : UInt32}
    (hle : p.slotAt clocks ≤ sum64 p.capacity 2) (hroom : p.slotAt clocks + 16 ≤ p.slots.length)
    (delta : Int32) :
    p.addStepFast? clocks delta = some (.ok { p with
        slots := added (p.slotAt clocks + 7) (fastTaps (p.fixedTime clocks) delta) p.slots }) := by
  unfold Plain.addStepFast?
  dsimp only
  rw [if_neg (Nat.not_lt.mpr hle), bump?_eq (by omega), Option.bind_eq_bind, Option.bind_some,
    bump?_eq (by rw [List.length_set]; omega), Option.bind_some, List.getElem_set_ne (by omega),
    fastTaps, added_pair (by omega)]
  rfl

section

variable {r : Resampler} (h : r.Sized)

include h

/-- From the slot of a step that is taken there are sixteen, up to the last one there is. -/
theorem Sized.room {clocks : UInt32} (hle : r.plain.slotAt clocks ≤ sum64 r.plain.capacity 2) :
    r.plain.slotAt clocks + 16 ≤ r.plain.slots.length := by
  have hlength : r.plain.slots.length = r.capacity + extraSlots := Vector.length_toList
  rw [h.lastSlot] at hle
  rw [hlength]
  exact Nat.add_le_add_right hle 16

/-- A step goes to no slot that is not there, and does what it is meant to. -/
theorem addStep?_plain (clocks : UInt32) (delta : Int32) :
    r.plain.addStep? clocks delta = some ((r.addStep clocks delta).map plain) := by
  by_cases hreach : r.slotAt (r.fixedTime clocks) ≤ r.capacity + 2
  · have hle : r.plain.slotAt clocks ≤ sum64 r.plain.capacity 2 := by
      rwa [h.slotAt, h.lastSlot]
    have hadded : r.addStep clocks delta = .ok _ := dif_pos hreach
    have hslots := toList_addTaps r.slots (r.slotAt (r.fixedTime clocks))
      (stepTaps (r.fixedTime clocks) delta) (by rw [length_stepTaps, extraSlots]; omega)
    rw [hadded, Plain.addStep?_eq hle (h.room hle), h.slotAt]
    exact congrArg (fun slots => some (Except.ok { r.plain with slots })) hslots.symm
  · have hrefused : r.addStep clocks delta = .error .overflow := dif_neg hreach
    rw [hrefused]
    exact if_pos (by rw [h.slotAt, h.lastSlot]; exact Nat.lt_of_not_le hreach)

/-- Neither does a quick step. -/
theorem addStepFast?_plain (clocks : UInt32) (delta : Int32) :
    r.plain.addStepFast? clocks delta = some ((r.addStepFast clocks delta).map plain) := by
  by_cases hreach : r.slotAt (r.fixedTime clocks) ≤ r.capacity + 2
  · have hle : r.plain.slotAt clocks ≤ sum64 r.plain.capacity 2 := by
      rwa [h.slotAt, h.lastSlot]
    have hadded : r.addStepFast clocks delta = .ok _ := dif_pos hreach
    have hslots := toList_addTaps r.slots (r.slotAt (r.fixedTime clocks) + 7)
      (fastTaps (r.fixedTime clocks) delta) (by rw [length_fastTaps, extraSlots]; omega)
    rw [hadded, Plain.addStepFast?_eq hle (h.room hle), h.slotAt]
    exact congrArg (fun slots => some (Except.ok { r.plain with slots })) hslots.symm
  · have hrefused : r.addStepFast clocks delta = .error .overflow := dif_neg hreach
    rw [hrefused]
    exact if_pos (by rw [h.slotAt, h.lastSlot]; exact Nat.lt_of_not_le hreach)

end

/-! ## Moving up -/

/-- What is moved and what is filled behind it make up the samples that wait and the slots after them. -/
theorem drop?_plain {r : Resampler} (h : r.Sized) {n : Nat} (hn : n ≤ r.available) :
    r.plain.drop? n = some (r.dropSlots n hn).plain := by
  have hle := r.available_le
  have hremain : n ≤ r.available + extraSlots := Nat.le_add_right_of_le hn
  have hlength : r.plain.slots.length = r.capacity + extraSlots := Vector.length_toList
  have hmoved : moveUp? r.plain.slots n (r.available + extraSlots - n) 0 = some _ :=
    moveUp?_eq (by omega) 0
  have hslots : (r.plain.slots.drop n).take (r.available + extraSlots - n) ++ .replicate n 0 ++
      r.plain.slots.drop (r.available + extraSlots - n + n) = (r.dropSlots n hn).slots.toList := by
    rw [toList_dropSlots hn, List.drop_take, Nat.sub_add_cancel hremain]
    rfl
  rw [hslots] at hmoved
  unfold Plain.drop?
  rw [h.used, sub?_eq hremain, sub?_eq (show n ≤ r.plain.available from hn)]
  simp only [Option.bind_eq_bind, Option.bind_some]
  exact congrArg (Option.bind · _) hmoved

/-! ## Reading -/

/-- A list with values written to every `stride`th place from the given one on. -/
def placed (stride : Nat) : List Int → Nat → List Int → List Int
  | out, _, [] => out
  | out, i, v :: vs => placed stride (out.set i v) (i + stride) vs

/-- Samples are placed as they are in the output. -/
theorem toList_place (out values : Array Int) (start stride : Nat) :
    (place out start stride values).toList = placed stride out.toList start values.toList := by
  unfold place
  rw [← Array.foldl_toList]
  generalize values.toList = values
  induction values generalizing out start with
  | nil => rfl
  | cons v values ih =>
    rw [List.foldl_cons, ih, Array.toList_setIfInBounds]
    rfl

/-- Placing samples does not make the output longer. -/
theorem length_placed (stride : Nat) (out : List Int) (start : Nat) (values : List Int) :
    (placed stride out start values).length = out.length := by
  induction values generalizing out start with
  | nil => rfl
  | cons v values ih => rw [placed, ih, List.length_set]

/-- Other places are left alone. -/
theorem getElem?_placed_of_ne {stride : Nat} {out : List Int} {start : Nat} {values : List Int}
    {j : Nat} (h : ∀ k < values.length, j ≠ start + k * stride) :
    (placed stride out start values)[j]? = out[j]? := by
  induction values generalizing out start with
  | nil => rfl
  | cons v values ih =>
    have hfirst : j ≠ start := by simpa using h 0 (Nat.zero_lt_succ _)
    rw [placed, ih, List.getElem?_set_ne (Ne.symm hfirst)]
    intro k hk
    have := h (k + 1) (Nat.succ_lt_succ hk)
    rwa [Nat.succ_mul, Nat.add_comm (k * stride), ← Nat.add_assoc] at this

/-- Each of the places holds its value. -/
theorem getElem?_placed {stride : Nat} (hstride : 0 < stride) {out : List Int} {start : Nat}
    {values : List Int} {k : Nat} (hk : k < values.length) (hroom : start + k * stride < out.length) :
    (placed stride out start values)[start + k * stride]? = values[k]? := by
  induction values generalizing out start k with
  | nil => cases hk
  | cons v values ih =>
    rw [placed]
    cases k with
    | zero =>
      have hother : ∀ k < values.length, start + 0 * stride ≠ start + stride + k * stride := by
        intro k _
        omega
      rw [getElem?_placed_of_ne hother, Nat.zero_mul, Nat.add_zero]
      exact List.getElem?_set_self (by omega)
    | succ k =>
      rw [Nat.succ_mul, Nat.add_comm (k * stride), ← Nat.add_assoc] at hroom ⊢
      rw [ih (Nat.lt_of_succ_lt_succ hk) (by rwa [List.length_set])]
      rfl

/-- Samples for which there are places are written to them. -/
theorem foldlM_readSlot {stride : Nat} (slots : List Int32) (out : List Int) (start : Nat)
    (level : Int32) (hroom : ∀ k < slots.length, start + k * stride < out.length) :
    slots.foldlM (Plain.readSlot? stride) (out, start, level) =
      some (placed stride out start (sums level slots).1, start + slots.length * stride,
        (sums level slots).2) := by
  induction slots generalizing out start level with
  | nil => simp [sums, placed]
  | cons slot slots ih =>
    have hfirst : start < out.length := by simpa using hroom 0 (Nat.zero_lt_succ _)
    rw [List.foldlM_cons, Plain.readSlot?, put?_eq hfirst]
    simp only [Option.bind_eq_bind, Option.bind_some, Option.pure_def]
    rw [ih]
    · rw [sums, placed, List.length_cons, Nat.succ_mul, Nat.add_comm (slots.length * stride),
        ← Nat.add_assoc]
    · intro k hk
      have := hroom (k + 1) (Nat.succ_lt_succ hk)
      rwa [Nat.succ_mul, Nat.add_comm (k * stride), ← Nat.add_assoc, ← List.length_set] at this

theorem stride_pos (stereo : Bool) : 0 < Plain.stride stereo := by cases stereo <;> decide

/-- The room there is counts the places from the given one on. -/
theorem lt_room_iff (size start k : Nat) (stereo : Bool) :
    k < Plain.room size start stereo ↔
      start + k * Plain.stride stereo < size := by
  cases stereo with
  | false =>
    show k < (size - start + 1 - 1) / 1 ↔ start + k * 1 < size
    omega
  | true =>
    show k < (size - start + 2 - 1) / 2 ↔ start + k * 2 < size
    omega

/-- No samples are read. -/
theorem read_zero {r : Resampler} {count : Nat} (h : min count r.available = 0) :
    r.read count = (#[], r) := if_pos h

/-- Some samples are read. -/
theorem read_pos {r : Resampler} {count n : Nat} (hn : min count r.available = n) (h0 : n ≠ 0) :
    r.read count = ((sumUp r.level (r.slots.toArray.extract 0 n)).1,
      { r.dropSlots n (hn ▸ Nat.min_le_right _ _) with
        level := (sumUp r.level (r.slots.toArray.extract 0 n)).2 }) := by
  subst hn
  exact if_neg h0

/-- Asking for more samples than wait is asking for those. -/
theorem read_congr {r : Resampler} {count n : Nat} (h : min count r.available = min n r.available) :
    r.read count = r.read n := by
  by_cases h0 : min n r.available = 0
  · rw [read_zero h0, read_zero (h.trans h0)]
  · rw [read_pos rfl h0, read_pos h h0]

/-- Samples that wait have their slots. -/
theorem le_length_slots {r : Resampler} {n : Nat} (hn : n ≤ r.available) : n ≤ r.slots.toList.length := by
  rw [Vector.length_toList]
  exact Nat.le_trans hn (Nat.le_add_right_of_le r.available_le)

/-- What is read when so many samples wait. -/
theorem read_of_le {r : Resampler} {n : Nat} (hn : n ≤ r.available) :
    (r.read n).1.toList = (sums r.level (r.slots.toList.take n)).1 ∧ (r.read n).1.size = n ∧
      (r.read n).2.level = (sums r.level (r.slots.toList.take n)).2 := by
  obtain ⟨hsamples, hlevel, -⟩ := r.read_eq n
  rw [Nat.min_eq_left hn] at hsamples hlevel
  refine ⟨hsamples, ?_, hlevel⟩
  rw [← Array.length_toList, hsamples, length_sums, List.length_take,
    Nat.min_eq_left (le_length_slots hn)]

section

variable (r : Resampler) (out : Array Int) (start count : Nat) (stereo : Bool)

/-- So many samples are read as are asked for, wait, and have places. -/
def readCount : Nat := min (min count r.available) (Plain.room out.size start stereo)

/-- No more samples are read than there are. -/
theorem readCount_le : r.readCount out start count stereo ≤ r.available :=
  Nat.le_trans (Nat.min_le_left _ _) (Nat.min_le_right _ _)

/-- Each of them has its place. -/
theorem place_lt {k : Nat} (hk : k < r.readCount out start count stereo) :
    start + k * Plain.stride stereo < out.size :=
  (lt_room_iff out.size start k stereo).mp (Nat.lt_of_lt_of_le hk (Nat.min_le_right _ _))

/-- What reading gives, and what it leaves behind. -/
theorem readInto_eq :
    let n := r.readCount out start count stereo
    (r.readInto out start count stereo).1 = n ∧
      (r.readInto out start count stereo).2.1.toList =
        placed (Plain.stride stereo) out.toList start (r.read n).1.toList ∧
      (r.readInto out start count stereo).2.2 = (r.read n).2 := by
  intro n
  have hle : n ≤ r.available := r.readCount_le out start count stereo
  have hasked : min (min count (Plain.room out.size start stereo)) r.available = n :=
    Nat.min_right_comm _ _ _
  have hread : r.read (min count (Plain.room out.size start stereo)) = r.read n :=
    read_congr (by rw [hasked, Nat.min_eq_left hle])
  have hinto : r.readInto out start count stereo =
      ((r.read n).1.size, place out start (Plain.stride stereo) (r.read n).1, (r.read n).2) := by
    rw [← hread]
    rfl
  rw [hinto]
  exact ⟨(read_of_le hle).2.1, toList_place _ _ _ _, rfl⟩

/-- Reading goes to no place that is not there, neither of the resampler's nor of the caller's. -/
theorem readInto?_plain {r : Resampler} (h : r.Sized) : r.plain.readInto? out.toList start count stereo =
    some ((r.readInto out start count stereo).1, (r.readInto out start count stereo).2.1.toList,
      (r.readInto out start count stereo).2.2.plain) := by
  obtain ⟨hcount, hout, hleft⟩ := r.readInto_eq out start count stereo
  have hplace : ∀ k < r.readCount out start count stereo,
      start + k * Plain.stride stereo < out.toList.length :=
    fun _ hk => r.place_lt out start count stereo hk
  rw [hcount, hout, hleft]
  unfold Plain.readInto?
  dsimp only
  rw [Array.length_toList,
    show min (min count r.plain.available) _ = r.readCount out start count stereo from rfl]
  have hle := r.readCount_le out start count stereo
  generalize r.readCount out start count stereo = n at hle hplace ⊢
  obtain ⟨hsamples, -, hlevel⟩ := read_of_le hle
  by_cases h0 : n = 0
  · rw [if_pos h0, h0, read_zero (Nat.zero_min _)]
    rfl
  · have hwaiting : n ≤ r.plain.slots.length := le_length_slots hle
    have hlength : (r.plain.slots.take n).length = n := by
      rw [List.length_take, Nat.min_eq_left hwaiting]
    have hdrop := drop?_plain (r := { r with level := (r.read n).2.level }) h hle
    have hrest : (r.read n).2.plain =
        (dropSlots { r with level := (r.read n).2.level } n hle).plain := by
      rw [read_pos (Nat.min_eq_left hle) h0]
      rfl
    rw [if_neg h0, window?_eq (by rwa [Nat.zero_add])]
    simp only [Option.bind_eq_bind, Option.bind_some, List.drop_zero]
    rw [foldlM_readSlot _ _ _ _ (by rwa [hlength])]
    simp only [Option.bind_some]
    rw [hsamples, hrest, hlevel]
    rw [hlevel] at hdrop
    exact congrArg (Option.bind · _) hdrop

end

/-! ## Every call -/

/-- A new resampler has its slots, if they can be counted. -/
theorem exists_of_new {capacity : UInt64} {p : Plain}
    (hfits : capacity.toNat + extraSlots < 0x10000000000000000)
    (hnew : Plain.new capacity = some (.ok p)) : ∃ r : Resampler, r.Sized ∧ r.plain = p := by
  unfold Plain.new at hnew
  dsimp only at hnew
  rw [sum64_eq hfits] at hnew
  split at hnew
  · cases hnew
  · split at hnew
    · next hslots =>
      obtain rfl := Except.ok.inj (Option.some.inj hnew)
      refine ⟨⟨capacity.toNat, 0x100000000, 0x80000000, 0, Nat.zero_le _, 0, .replicate _ 0⟩, hslots, ?_⟩
      simp only [plain, Vector.toList_replicate]
    · cases hnew

theorem clear_plain (r : Resampler) : r.plain.clear = r.clear.plain := by
  have hlength : r.slots.toList.length = r.capacity + extraSlots := Vector.length_toList
  simp only [Plain.clear, clear, plain, hlength, Vector.toList_replicate]

/-- New rates are taken or refused alike. -/
theorem setRates_plain (r : Resampler) (clockRate sampleRate : UInt32) :
    r.plain.setRates clockRate sampleRate = (r.setRates clockRate sampleRate).map plain := by
  unfold Plain.setRates setRates
  split
  · rfl
  · cases unitsPerClock? clockRate.toNat sampleRate.toNat <;> rfl

/-- A frame is closed or refused alike. -/
theorem endFrame_plain {r : Resampler} (h : r.Sized) (clocks : UInt32) :
    r.plain.endFrame clocks = (r.endFrame clocks).map plain := by
  unfold Plain.endFrame
  dsimp only
  rw [h.endFrame]
  by_cases hfits : r.available + (r.timeAt clocks >>> (52 : UInt64)).toNat ≤ r.capacity
  · have hended : r.endFrame clocks = .ok _ := dif_pos hfits
    rw [hended]
    exact if_neg (Nat.not_lt.mpr hfits)
  · have hrefused : r.endFrame clocks = .error .overflow := dif_neg hfits
    rw [hrefused]
    exact if_pos (Nat.lt_of_not_le hfits)

section

variable {r q : Resampler} {clocks : UInt32} {delta : Int32}

/-- A change of rates leaves the capacity alone. -/
theorem capacity_of_setRates {clockRate sampleRate : UInt32}
    (h : r.setRates clockRate sampleRate = .ok q) : q.capacity = r.capacity := by
  unfold setRates at h
  split at h
  · cases h
  · split at h
    · cases h
      rfl
    · cases h

/-- So does a step. -/
theorem capacity_of_addStep (h : r.addStep clocks delta = .ok q) : q.capacity = r.capacity := by
  unfold addStep at h
  dsimp only at h
  split at h
  · cases h
    rfl
  · cases h

/-- So does a quick one. -/
theorem capacity_of_addStepFast (h : r.addStepFast clocks delta = .ok q) :
    q.capacity = r.capacity := by
  unfold addStepFast at h
  dsimp only at h
  split at h
  · cases h
    rfl
  · cases h

/-- With the same capacity there are as many slots. -/
theorem Sized.of_capacity (h : r.Sized) (hq : q.capacity = r.capacity) : q.Sized := by
  unfold Sized
  rwa [hq]

end

/-- What a call makes of a resampler with its proofs is one again. -/
theorem exists_of_map {r : Resampler} (h : r.Sized) {result : Except ResampleError Resampler} {p : Plain}
    (hcapacity : ∀ q, result = .ok q → q.capacity = r.capacity) (hp : result.map plain = .ok p) :
    ∃ q : Resampler, q.Sized ∧ q.plain = p := by
  cases result with
  | error e => cases hp
  | ok q => exact ⟨q, h.of_capacity (hcapacity q rfl), Except.ok.inj hp⟩

/-- What calls lead to is always a resampler with its proofs, taken as plain data. -/
theorem Plain.Reachable.exists_plain {capacity : UInt64} {p : Plain}
    (hfits : capacity.toNat + extraSlots < 0x10000000000000000) (h : Plain.Reachable capacity p) :
    ∃ r : Resampler, r.Sized ∧ r.plain = p := by
  induction h with
  | new hnew => exact exists_of_new hfits hnew
  | setRates _ hset ih =>
    obtain ⟨r, hr, rfl⟩ := ih
    rw [setRates_plain] at hset
    exact exists_of_map hr (fun _ => capacity_of_setRates) hset
  | clear _ ih =>
    obtain ⟨r, hr, rfl⟩ := ih
    exact ⟨r.clear, hr, (clear_plain r).symm⟩
  | endFrame _ hend ih =>
    obtain ⟨r, hr, rfl⟩ := ih
    rw [endFrame_plain hr] at hend
    exact exists_of_map hr (fun _ hq => (holds_of_endFrame hq).2.1) hend
  | addStep _ hadd ih =>
    obtain ⟨r, hr, rfl⟩ := ih
    rw [addStep?_plain hr] at hadd
    exact exists_of_map hr (fun _ => capacity_of_addStep) (Option.some.inj hadd)
  | addStepFast _ hadd ih =>
    obtain ⟨r, hr, rfl⟩ := ih
    rw [addStepFast?_plain hr] at hadd
    exact exists_of_map hr (fun _ => capacity_of_addStepFast) (Option.some.inj hadd)
  | @readInto _ _ out _ start count _ stereo _ hread ih =>
    obtain ⟨r, hr, rfl⟩ := ih
    rw [show out = out.toArray.toList from rfl, readInto?_plain _ _ _ _ hr] at hread
    refine ⟨_, hr.of_capacity ?_, congrArg (·.2.2) (Option.some.inj hread)⟩
    rw [(r.readInto_eq out.toArray start count stereo).2.2]
    exact (r.read_clock _).1

/-- A reading puts its samples into places of the caller's, into as many as there are for them, and leaves
    all others alone. -/
structure ReadsInto (r : Resampler) (out : Array Int) (start count : Nat) (stereo : Bool) (n : Nat)
    (read : Array Int) : Prop where
  count_eq : ∃ places, (∀ k, k < places ↔ start + k * Plain.stride stereo < out.size) ∧
    n = min (min count r.available) places
  size_eq : read.size = out.size
  written : ∀ k < n, start + k * Plain.stride stereo < out.size ∧
    read[start + k * Plain.stride stereo]? = (r.read n).1[k]?
  untouched : ∀ j, (∀ k < n, j ≠ start + k * Plain.stride stereo) → read[j]? = out[j]?

/-- Reading writes its samples at their places and leaves the rest of the output alone. -/
theorem readsInto (r : Resampler) (out : Array Int) (start count : Nat) (stereo : Bool) :
    r.ReadsInto out start count stereo (r.readInto out start count stereo).1
      (r.readInto out start count stereo).2.1 := by
  obtain ⟨hcount, hout, -⟩ := r.readInto_eq out start count stereo
  have hlength : (r.read (r.readCount out start count stereo)).1.toList.length =
      r.readCount out start count stereo := (read_of_le (r.readCount_le out start count stereo)).2.1
  rw [hcount]
  refine ⟨⟨_, fun k => lt_room_iff out.size start k stereo, rfl⟩, ?_, ?_, ?_⟩
  · rw [← Array.length_toList, hout, length_placed, Array.length_toList]
  · intro k hk
    have hplace := r.place_lt out start count stereo hk
    refine ⟨hplace, ?_⟩
    rw [← Array.getElem?_toList, hout, ← Array.getElem?_toList]
    exact getElem?_placed (stride_pos stereo) (by rwa [hlength]) hplace
  · intro j hj
    rw [← Array.getElem?_toList, hout, ← Array.getElem?_toList]
    exact getElem?_placed_of_ne (by rwa [hlength])

/-- No call on a resampler goes to a place that is not there, and each does what it does with proofs. -/
structure Plain.InBounds (p : Plain) (r : Resampler) : Prop where
  plain_eq : r.plain = p
  available_le : p.available ≤ p.capacity
  length_slots : p.slots.length = p.capacity + extraSlots
  addStep : ∀ clocks delta, p.addStep? clocks delta = some ((r.addStep clocks delta).map plain)
  addStep_window : ∀ clocks delta q, p.addStep? clocks delta = some (.ok q) →
    p.slotAt clocks + 16 ≤ p.capacity + extraSlots
  addStepFast : ∀ clocks delta, p.addStepFast? clocks delta =
    some ((r.addStepFast clocks delta).map plain)
  addStepFast_last : ∀ clocks delta q, p.addStepFast? clocks delta = some (.ok q) →
    p.slotAt clocks + 8 < p.capacity + extraSlots
  drop : ∀ count (h : count ≤ r.available), p.drop? count = some (r.dropSlots count h).plain
  readInto : ∀ out start count stereo, p.readInto? out.toList start count stereo =
    some ((r.readInto out start count stereo).1, (r.readInto out start count stereo).2.1.toList,
      (r.readInto out start count stereo).2.2.plain)
  reads : ∀ out start count stereo, r.ReadsInto out start count stereo
    (r.readInto out start count stereo).1 (r.readInto out start count stereo).2.1

/-- A step that is taken begins at most two slots past the capacity. -/
theorem Plain.slotAt_le_of_taken {p q : Plain} {clocks : UInt32}
    {step : Option (Except ResampleError Plain)}
    (h : (if sum64 p.capacity 2 < p.slotAt clocks then some (.error .overflow) else step) =
      some (.ok q)) : p.slotAt clocks ≤ sum64 p.capacity 2 := by
  by_contra hpast
  rw [if_pos (Nat.not_le.mp hpast)] at h
  cases h

/-- With its proofs and its slots, a resampler keeps every call in its memory. -/
theorem Sized.inBounds {r : Resampler} (h : r.Sized) : r.plain.InBounds r where
  plain_eq := rfl
  available_le := r.available_le
  length_slots := Vector.length_toList
  addStep := addStep?_plain h
  addStep_window _ _ _ hadd := by
    have hle := Plain.slotAt_le_of_taken hadd
    rw [h.lastSlot] at hle
    exact Nat.add_le_add_right hle 16
  addStepFast := addStepFast?_plain h
  addStepFast_last _ _ _ hadd := by
    have hle := Plain.slotAt_le_of_taken hadd
    rw [h.lastSlot] at hle
    show _ < r.capacity + 18
    omega
  drop _ hle := drop?_plain h hle
  readInto out start count stereo := readInto?_plain out start count stereo h
  reads := readsInto r

/-! ## Without slots -/

/-- Where the sum with the slots beyond the samples goes round, there are fewer than eighteen slots. -/
theorem Plain.new_of_wraps {capacity : UInt64}
    (h : 0x10000000000000000 ≤ capacity.toNat + extraSlots) :
    ∃ slots < extraSlots, Plain.new capacity =
      some (.ok ⟨capacity.toNat, 0x100000000, 0x80000000, 0, 0, .replicate slots 0⟩) := by
  have hlt := capacity.toNat_lt
  have hslots : sum64 capacity.toNat extraSlots < extraSlots := by
    unfold sum64 extraSlots at *
    omega
  have h0 : capacity ≠ 0 := by
    rintro rfl
    exact absurd h (by decide)
  have hfew : sum64 capacity.toNat extraSlots ≤ maxSlots :=
    Nat.le_trans hslots.le (by decide)
  refine ⟨_, hslots, ?_⟩
  unfold Plain.new
  dsimp only
  rw [if_neg h0, if_pos hfew]

/-- Such a resampler lets eighteen samples wait, and has not the slots that they are read from. -/
theorem Plain.exists_none_of_wraps {capacity : UInt64}
    (h : 0x10000000000000000 ≤ capacity.toNat + extraSlots) : ∃ p, Plain.Reachable capacity p ∧
      p.readInto? (.replicate extraSlots 0) 0 extraSlots false = none := by
  have hroom : ¬ capacity.toNat < 18 := by
    unfold extraSlots at h
    omega
  obtain ⟨slots, hslots, hnew⟩ := Plain.new_of_wraps h
  -- the frame of 18 * 2^20 clocks
  have hsamples : sum64 0 (((0x1200000 : UInt32).toUInt64 * 0x100000000 + 0x80000000) >>>
      (52 : UInt64)).toNat = 18 := by decide
  have hend : Plain.endFrame ⟨capacity.toNat, 0x100000000, 0x80000000, 0, 0, .replicate slots 0⟩ 0x1200000 =
      .ok ⟨capacity.toNat, 0x100000000, 0x80000000, 18, 0, .replicate slots 0⟩ := by
    unfold Plain.endFrame Plain.timeAt
    dsimp only
    rw [hsamples, if_neg hroom]
    rfl
  refine ⟨_, .endFrame (.new hnew) hend, ?_⟩
  have hmissing : window? (List.replicate slots (0 : Int32)) 0 18 = none := by
    refine if_neg ?_
    rw [List.length_replicate]
    exact Nat.not_le.mpr hslots
  show (window? (List.replicate slots (0 : Int32)) 0 18).bind _ = none
  rw [hmissing]
  rfl

/-- If the slots for so many samples can be counted in a word, then whatever calls lead to a resampler for
    them, no call on it goes to a place that is not there.  If they cannot, there is a resampler of hardly
    a slot, and reading what it lets wait goes past the last. -/
theorem Plain.inBounds_or_stops (capacity : UInt64) :
    if capacity.toNat + extraSlots < 0x10000000000000000 then
      ∀ p, Plain.Reachable capacity p → ∃ r, p.InBounds r
    else ∃ p, Plain.Reachable capacity p ∧
      p.readInto? (.replicate extraSlots 0) 0 extraSlots false = none := by
  split
  · next hfits =>
    intro p hp
    obtain ⟨r, hr, rfl⟩ := hp.exists_plain hfits
    exact ⟨r, hr.inBounds⟩
  · next hwraps => exact Plain.exists_none_of_wraps (Nat.le_of_not_lt hwraps)

/-- For the first such number of samples there is no slot at all, and the first step finds none. -/
theorem Plain.new_without_slots : ∃ p, Plain.new 0xFFFFFFFFFFFFFFEE = some (.ok p) ∧
    p.slots = [] ∧ p.addStep? 0 1 = none :=
  ⟨_, rfl, rfl, by decide⟩

/-- With one slot fewer than it has, a full resampler for one sample would not have the window of the last
    step that is taken. -/
example : (Plain.addStep? ⟨1, 0x100000000, 0x80000000, 1, 0, .replicate 18 0⟩ 0x200000 1).isNone := by
  decide

end Famicom.Resampler
