/-
  A step settles at its height, whichever way it is added.

  The slots hold differences, so what they add up to is how far the level still has to go.  All sums are
  taken as whole numbers modulo 2^32, in which the words of the slots wrap around.

  1. **Taps** (`charge_stepTaps`, `charge_fastTaps`): the taps of a step add up to its height in units of
     2^-15, for every position between two samples.  The rounding of the interpolation cancels, since
     what it takes from one position of the kernel it gives to the next, and both have the same sum.
  2. **Slots** (`AltersSlots`, `charge_addTaps`): adding taps changes the slots from the first on, as many
     as there are taps, and the sum by the sum of the taps.
  3. **Readings** (`height_read`): what is read leaves the slots for the level, and the level leaks by 64
     times the samples heard.
  4. **Courses** (`Course.height_eq`): by induction, whatever is done to a resampler without clearing it,
     its height is what it was, and the steps taken, less what was heard.

  Main statement: both kernels put the same into the slots, each into its own, so to exchange them anywhere
  changes nothing of where the output settles, and a step and its opposite leave nothing
  (`kernels_settle_alike`).
-/
import Mathlib.Data.Int.ModEq
import Mathlib.Tactic.Ring
import Famicom.Proofs.Resampler.Reel

namespace Famicom

namespace Resampler

/-! ## Words -/

theorem toInt_add_modEq (a b : Int32) : (a + b).toInt ≡ a.toInt + b.toInt [ZMOD 2 ^ 32] := by
  rw [Int32.toInt_add]
  exact Int.bmod_emod

theorem toInt_sub_modEq (a b : Int32) : (a - b).toInt ≡ a.toInt - b.toInt [ZMOD 2 ^ 32] := by
  rw [Int32.toInt_sub]
  exact Int.bmod_emod

theorem toInt_mul_modEq (a b : Int32) : (a * b).toInt ≡ a.toInt * b.toInt [ZMOD 2 ^ 32] := by
  rw [Int32.toInt_mul]
  exact Int.bmod_emod

theorem toInt_neg_modEq (a : Int32) : (-a).toInt ≡ -a.toInt [ZMOD 2 ^ 32] := by
  rw [Int32.toInt_neg]
  exact Int.bmod_emod

/-- A shift by six places is a product. -/
theorem shiftLeft_six (a : Int32) : a <<< (6 : Int32) = 64 * a := by
  have h : a.toBitVec <<< (6#32).toNat = 64#32 * a.toBitVec := by
    rw [BitVec.shiftLeft_eq_mul_twoPow, BitVec.mul_comm]
    rfl
  apply Int32.toBitVec_inj.mp
  rw [Int32.toBitVec_shiftLeft, Int32.toBitVec_mul]
  exact h

/-! ## Taps -/

/-- What a list of differences adds up to. -/
def charge (slots : List Int32) : Int := (slots.map Int32.toInt).sum

@[simp] theorem charge_nil : charge [] = 0 := rfl

@[simp] theorem charge_cons (slot : Int32) (slots : List Int32) :
    charge (slot :: slots) = slot.toInt + charge slots := rfl

@[simp] theorem charge_append (as bs : List Int32) : charge (as ++ bs) = charge as + charge bs := by
  simp [charge]

@[simp] theorem charge_zeros (n : Nat) : charge (List.replicate n 0) = 0 := by
  simp [charge]

/-- At each position the kernel has the same sum. -/
theorem charge_kernelTaps : ∀ phase : Fin 33, charge (kernelTaps phase.val phase.is_le) = 2 ^ 15 := by
  decide

/-- Two rows of taps, each with a weight. -/
theorem charge_zipWith (x y : Int32) {as bs : List Int32} (h : as.length = bs.length) :
    charge (List.zipWith (fun a b => a * x + b * y) as bs) ≡
      charge as * x.toInt + charge bs * y.toInt [ZMOD 2 ^ 32] := by
  induction as generalizing bs with
  | nil =>
    obtain rfl : bs = [] := List.length_eq_zero_iff.mp h.symm
    simp
  | cons a as ih =>
    obtain _ | ⟨b, bs⟩ := bs
    · cases h
    have hhead : (a * x + b * y).toInt ≡ a.toInt * x.toInt + b.toInt * y.toInt [ZMOD 2 ^ 32] :=
      (toInt_add_modEq _ _).trans ((toInt_mul_modEq a x).add (toInt_mul_modEq b y))
    calc charge (List.zipWith (fun a b => a * x + b * y) (a :: as) (b :: bs))
      _ ≡ a.toInt * x.toInt + b.toInt * y.toInt + (charge as * x.toInt + charge bs * y.toInt)
          [ZMOD 2 ^ 32] := hhead.add (ih (Nat.succ.inj h))
      _ = charge (a :: as) * x.toInt + charge (b :: bs) * y.toInt := by
          rw [charge_cons, charge_cons]
          ring

/-- The two parts of an interpolated step make up the step, whatever the rounding. -/
theorem charge_stepTaps (fixed : UInt32) (delta : Int32) :
    charge (stepTaps fixed delta) ≡ delta.toInt * 2 ^ 15 [ZMOD 2 ^ 32] := by
  have hphase : phaseAt fixed < 32 := Nat.mod_lt _ (by decide)
  have hfirst : charge (kernelTaps (phaseAt fixed) (by omega)) = 2 ^ 15 :=
    charge_kernelTaps ⟨phaseAt fixed, by omega⟩
  have hsecond : charge (kernelTaps (phaseAt fixed + 1) (by omega)) = 2 ^ 15 :=
    charge_kernelTaps ⟨phaseAt fixed + 1, by omega⟩
  have hlength : (kernelTaps (phaseAt fixed) (by omega)).length =
      (kernelTaps (phaseAt fixed + 1) (by omega)).length := by
    rw [length_kernelTaps, length_kernelTaps]
  unfold stepTaps
  dsimp only
  generalize (delta * (fixed &&& 0x7FFF).toInt32) >>> (15 : Int32) = later
  have hparts : (delta - later).toInt + later.toInt ≡ delta.toInt [ZMOD 2 ^ 32] := by
    have hsub := (toInt_sub_modEq delta later).add_right later.toInt
    rwa [Int.sub_add_cancel] at hsub
  refine (charge_zipWith _ _ hlength).trans ?_
  rw [hfirst, hsecond, ← Int.mul_add, Int.mul_comm]
  exact hparts.mul_right _

/-- The two samples of a quick step share it. -/
theorem charge_fastTaps (fixed : UInt32) (delta : Int32) :
    charge (fastTaps fixed delta) ≡ delta.toInt * 2 ^ 15 [ZMOD 2 ^ 32] := by
  unfold fastTaps
  dsimp only
  generalize delta * ((fixed >>> (5 : UInt32)) &&& 0x7FFF).toInt32 = later
  rw [charge_cons, charge_cons, charge_nil, Int.add_zero]
  have hsub := (toInt_sub_modEq (delta * 0x8000) later).add_right later.toInt
  rw [Int.sub_add_cancel] at hsub
  exact hsub.trans (toInt_mul_modEq delta 0x8000)

/-! ## Slots -/

variable {r q p : Resampler}

/-- What all slots add up to. -/
def slotSum (r : Resampler) : Int := charge r.slots.toList

/-- Only the `n` slots from the given one on are changed, and they are slots that there are. -/
def AltersSlots (r q : Resampler) (i n : Nat) : Prop :=
  i + n ≤ r.capacity + extraSlots ∧ ∃ slots, q = { r with slots } ∧
    ∀ j (hj : j < r.capacity + extraSlots), j < i ∨ i + n ≤ j → slots[j] = r.slots[j]

theorem charge_set (slots : List Int32) (i : Nat) (hi : i < slots.length) (t : Int32) :
    charge (slots.set i (slots[i] + t)) ≡ charge slots + t.toInt [ZMOD 2 ^ 32] := by
  induction slots generalizing i with
  | nil => cases hi
  | cons slot slots ih =>
    cases i with
    | zero =>
      calc charge ((slot + t) :: slots)
        _ ≡ slot.toInt + t.toInt + charge slots [ZMOD 2 ^ 32] := (toInt_add_modEq slot t).add_right _
        _ = charge (slot :: slots) + t.toInt := by
            rw [charge_cons]
            ring
    | succ i =>
      have hi : i < slots.length := Nat.lt_of_succ_lt_succ hi
      calc slot.toInt + charge (slots.set i (slots[i] + t))
        _ ≡ slot.toInt + (charge slots + t.toInt) [ZMOD 2 ^ 32] := (ih i hi).add_left _
        _ = charge (slot :: slots) + t.toInt := by
            rw [charge_cons]
            ring

theorem charge_addTaps {n : Nat} (slots : Vector Int32 n) (i : Nat) (taps : List Int32)
    (h : i + taps.length ≤ n) :
    charge (addTaps slots i taps h).toList ≡ charge slots.toList + charge taps [ZMOD 2 ^ 32] := by
  induction taps generalizing slots i with
  | nil =>
    rw [charge_nil, Int.add_zero]
    rfl
  | cons t ts ih =>
    have hi : i < n := by
      rw [List.length_cons] at h
      omega
    have hset : charge (slots.set i (slots[i] + t)).toList ≡
        charge slots.toList + t.toInt [ZMOD 2 ^ 32] := by
      rw [Vector.toList_set]
      exact charge_set slots.toList i (by rwa [Vector.length_toList]) t
    rw [charge_cons, ← Int.add_assoc]
    exact (ih _ _ _).trans (hset.add_right _)

theorem altersSlots_addTaps (i : Nat) (taps : List Int32) (h : i + taps.length ≤ r.capacity + extraSlots) :
    r.AltersSlots { r with slots := addTaps r.slots i taps h } i taps.length := by
  refine ⟨h, _, rfl, ?_⟩
  intro j hj hout
  rw [getElem_addTaps]
  rcases hout with hlt | hge
  · rw [if_pos hlt, Int32.add_zero]
  · rw [if_neg (by omega), List.getD_eq_getElem?_getD, List.getElem?_eq_none (by omega)]
    exact Int32.add_zero _

/-- A step is put into sixteen slots. -/
theorem addStep_spec {clocks : UInt32} {delta : Int32} (h : r.addStep clocks delta = .ok q) :
    r.AltersSlots q (r.slotAt (r.fixedTime clocks)) 16 ∧
      q.slotSum ≡ r.slotSum + delta.toInt * 2 ^ 15 [ZMOD 2 ^ 32] := by
  by_cases hreach : r.Reaches clocks
  · cases h.symm.trans (dif_pos hreach)
    constructor
    · rw [← length_stepTaps (r.fixedTime clocks) delta]
      exact altersSlots_addTaps _ _ _
    · exact (charge_addTaps _ _ _ _).trans ((charge_stepTaps _ delta).add_left _)
  · cases h.symm.trans (addStep_of_not_reaches hreach delta)

/-- A quick step is put into two. -/
theorem addStepFast_spec {clocks : UInt32} {delta : Int32} (h : r.addStepFast clocks delta = .ok q) :
    r.AltersSlots q (r.slotAt (r.fixedTime clocks) + 7) 2 ∧
      q.slotSum ≡ r.slotSum + delta.toInt * 2 ^ 15 [ZMOD 2 ^ 32] := by
  by_cases hreach : r.Reaches clocks
  · cases h.symm.trans (dif_pos hreach)
    constructor
    · exact altersSlots_addTaps _ (fastTaps (r.fixedTime clocks) delta) _
    · exact (charge_addTaps _ _ _ _).trans ((charge_fastTaps _ delta).add_left _)
  · cases h.symm.trans (dif_neg hreach)

/-! ## Readings -/

/-- Where the level is when all differences are in, but for the leak. -/
def height (r : Resampler) : Int := r.level.toInt + r.slotSum

/-- Reading a sample takes a difference in and 64 times the sample out. -/
theorem toInt_integrate_modEq (level slot : Int32) :
    (integrate level slot).toInt ≡ level.toInt + slot.toInt - 64 * (outputOf level).toInt
      [ZMOD 2 ^ 32] := by
  unfold integrate
  rw [shiftLeft_six]
  exact (toInt_sub_modEq _ _).trans ((toInt_add_modEq level slot).sub (toInt_mul_modEq 64 _))

theorem sums_modEq (level : Int32) (slots : List Int32) :
    (sums level slots).2.toInt + 64 * (sums level slots).1.sum ≡ level.toInt + charge slots
      [ZMOD 2 ^ 32] := by
  induction slots generalizing level with
  | nil => rfl
  | cons slot slots ih =>
    have hrest := (ih (integrate level slot)).trans
      ((toInt_integrate_modEq level slot).add_right (charge slots))
    rw [sums, List.sum_cons, charge_cons]
    dsimp only
    calc (sums (integrate level slot) slots).2.toInt +
          64 * ((outputOf level).toInt + (sums (integrate level slot) slots).1.sum)
      _ = (sums (integrate level slot) slots).2.toInt + 64 * (sums (integrate level slot) slots).1.sum +
          64 * (outputOf level).toInt := by ring
      _ ≡ level.toInt + slot.toInt - 64 * (outputOf level).toInt + charge slots +
          64 * (outputOf level).toInt [ZMOD 2 ^ 32] := hrest.add_right _
      _ = level.toInt + (slot.toInt + charge slots) := by ring

/-- The slots that are read go, those after them move up with zeros behind, and the last ones stay. -/
theorem toList_dropSlots {n : Nat} (hn : n ≤ r.available) :
    (r.dropSlots n hn).slots.toList =
      (r.slots.toList.take (r.available + extraSlots)).drop n ++ List.replicate n 0 ++
        r.slots.toList.drop (r.available + extraSlots) := by
  have hle := r.available_le
  have hlength : r.slots.toList.length = r.capacity + extraSlots := Vector.length_toList
  apply List.ext_getElem
  · simp only [List.length_append, List.length_drop, List.length_take, List.length_replicate, hlength]
    rw [Vector.length_toList]
    show r.capacity + extraSlots = _
    omega
  · intro j hj hj'
    have hj : j < r.capacity + extraSlots := by rwa [Vector.length_toList] at hj
    have hdropped : (r.dropSlots n hn).slots.toList[j] =
        if hj : j + n < r.available + extraSlots then r.slots[j + n]
        else if j < r.available + extraSlots then 0 else r.slots[j] := by
      rw [Vector.getElem_toList]
      exact Vector.getElem_ofFn _
    have htake : (r.slots.toList.take (r.available + extraSlots)).length = r.available + extraSlots := by
      rw [List.length_take, hlength]
      omega
    rw [hdropped]
    split
    · rw [List.getElem_append_left (by simp [htake]; omega),
        List.getElem_append_left (by simp [htake]; omega)]
      simp [Nat.add_comm]
    · split
      · rw [List.getElem_append_left (by simp [htake]; omega),
          List.getElem_append_right (by simp [htake]; omega), List.getElem_replicate]
      · rw [List.getElem_append_right (by simp [htake]; omega), List.getElem_drop, Vector.getElem_toList]
        congr 1
        simp [htake]
        omega

theorem slotSum_dropSlots {n : Nat} (hn : n ≤ r.available) :
    charge (r.slots.toList.take n) + (r.dropSlots n hn).slotSum = r.slotSum := by
  have hle : n ≤ r.available + extraSlots := Nat.le_add_right_of_le hn
  have hparts : r.slots.toList.take n ++ (r.slots.toList.take (r.available + extraSlots)).drop n ++
      r.slots.toList.drop (r.available + extraSlots) = r.slots.toList := by
    have hfirst : r.slots.toList.take n = (r.slots.toList.take (r.available + extraSlots)).take n := by
      rw [List.take_take, Nat.min_eq_left hle]
    rw [hfirst, List.take_append_drop, List.take_append_drop]
  unfold slotSum
  rw [toList_dropSlots hn]
  conv_rhs => rw [← hparts]
  rw [charge_append, charge_append, charge_append, charge_append, charge_zeros]
  ring

/-- What reading makes of the slots and of the level. -/
theorem read_eq (r : Resampler) (count : Nat) :
    (r.read count).1.toList = (sums r.level (r.slots.toList.take (min count r.available))).1 ∧
      (r.read count).2.level = (sums r.level (r.slots.toList.take (min count r.available))).2 ∧
      charge (r.slots.toList.take (min count r.available)) + (r.read count).2.slotSum = r.slotSum := by
  have hextract (n : Nat) : (r.slots.toArray.extract 0 n).toList = r.slots.toList.take n := by
    rw [Array.toList_extract, List.extract_eq_take_drop, List.drop_zero, Nat.sub_zero]
    rfl
  have hsums := sumUp_eq r.level (r.slots.toArray.extract 0 (min count r.available))
  rw [hextract] at hsums
  obtain ⟨hout, hlevel⟩ := Prod.mk.inj hsums
  unfold read
  dsimp only
  split
  · next h0 =>
    rw [h0, List.take_zero]
    exact ⟨rfl, rfl, Int.zero_add _⟩
  · exact ⟨hout, hlevel, slotSum_dropSlots (Nat.min_le_right count r.available)⟩

/-- A reading lowers the height by what leaks. -/
theorem height_read (r : Resampler) (count : Nat) :
    (r.read count).2.height + 64 * (r.read count).1.toList.sum ≡ r.height [ZMOD 2 ^ 32] := by
  obtain ⟨hout, hlevel, hslots⟩ := r.read_eq count
  have hsums := sums_modEq r.level (r.slots.toList.take (min count r.available))
  rw [← hout, ← hlevel] at hsums
  unfold height
  calc (r.read count).2.level.toInt + (r.read count).2.slotSum + 64 * (r.read count).1.toList.sum
    _ = (r.read count).2.level.toInt + 64 * (r.read count).1.toList.sum + (r.read count).2.slotSum := by
        ring
    _ ≡ r.level.toInt + charge (r.slots.toList.take (min count r.available)) + (r.read count).2.slotSum
        [ZMOD 2 ^ 32] := hsums.add_right _
    _ = r.level.toInt + r.slotSum := by rw [Int.add_assoc, hslots]

/-! ## Courses -/

/-- What can become of a resampler, with the steps that it took on the way and the samples that were
    read. -/
inductive Course (r : Resampler) : List Step → List Int → Resampler → Prop where
  | start : Course r [] [] r
  | put {steps : List Step} {heard : List Int} {p q : Resampler} {s : Step}
      (h : Course r steps heard p) (hput : p.put s = .ok q) : Course r (steps ++ [s]) heard q
  | setRates {steps : List Step} {heard : List Int} {p q : Resampler} {clockRate sampleRate : UInt32}
      (h : Course r steps heard p) (hset : p.setRates clockRate sampleRate = .ok q) :
      Course r steps heard q
  | endFrame {steps : List Step} {heard : List Int} {p q : Resampler} {clocks : UInt32}
      (h : Course r steps heard p) (hend : p.endFrame clocks = .ok q) : Course r steps heard q
  | read {steps : List Step} {heard : List Int} {p : Resampler} (h : Course r steps heard p)
      (count : Nat) : Course r steps (heard ++ (p.read count).1.toList) (p.read count).2

/-- What steps add up to. -/
def Step.deltaSum (steps : List Step) : Int := charge (steps.map (·.delta))

theorem deltaSum_concat (steps : List Step) (s : Step) :
    Step.deltaSum (steps ++ [s]) = Step.deltaSum steps + s.delta.toInt := by
  simp [Step.deltaSum]

theorem height_put {s : Step} (h : r.put s = .ok q) :
    q.height ≡ r.height + s.delta.toInt * 2 ^ 15 [ZMOD 2 ^ 32] := by
  have hsum : q.level = r.level ∧ q.slotSum ≡ r.slotSum + s.delta.toInt * 2 ^ 15 [ZMOD 2 ^ 32] := by
    unfold put at h
    split at h
    · obtain ⟨⟨-, _, rfl, -⟩, hsum⟩ := addStepFast_spec h
      exact ⟨rfl, hsum⟩
    · obtain ⟨⟨-, _, rfl, -⟩, hsum⟩ := addStep_spec h
      exact ⟨rfl, hsum⟩
  unfold height
  rw [hsum.1, Int.add_assoc]
  exact hsum.2.add_left _

theorem height_setRates {clockRate sampleRate : UInt32} (h : r.setRates clockRate sampleRate = .ok q) :
    q.height = r.height := by
  rw [(setRates_congr h r).2]
  rfl

theorem height_endFrame {clocks : UInt32} (h : r.endFrame clocks = .ok q) : q.height = r.height := by
  by_cases hholds : r.Holds clocks
  · cases h.symm.trans (dif_pos hholds)
    rfl
  · cases h.symm.trans (endFrame_of_not_holds hholds)

/-- Nothing is lost and nothing comes from elsewhere: what a resampler holds, and what leaked, is what it
    held and the steps that it took. -/
theorem Course.height_eq {steps : List Step} {heard : List Int} (h : r.Course steps heard q) :
    q.height + 64 * heard.sum ≡ r.height + Step.deltaSum steps * 2 ^ 15 [ZMOD 2 ^ 32] := by
  induction h with
  | start => simp [Step.deltaSum]
  | @put steps heard p q s h hput ih =>
    calc q.height + 64 * heard.sum
      _ ≡ p.height + s.delta.toInt * 2 ^ 15 + 64 * heard.sum [ZMOD 2 ^ 32] := (height_put hput).add_right _
      _ = p.height + 64 * heard.sum + s.delta.toInt * 2 ^ 15 := by ring
      _ ≡ r.height + Step.deltaSum steps * 2 ^ 15 + s.delta.toInt * 2 ^ 15 [ZMOD 2 ^ 32] :=
          ih.add_right _
      _ = r.height + Step.deltaSum (steps ++ [s]) * 2 ^ 15 := by
          rw [deltaSum_concat]
          ring
  | setRates h hset ih => rwa [height_setRates hset]
  | endFrame h hend ih => rwa [height_endFrame hend]
  | @read steps heard p h count ih =>
    calc (p.read count).2.height + 64 * (heard ++ (p.read count).1.toList).sum
      _ = (p.read count).2.height + 64 * (p.read count).1.toList.sum + 64 * heard.sum := by
          rw [List.sum_append]
          ring
      _ ≡ p.height + 64 * heard.sum [ZMOD 2 ^ 32] := (height_read p count).add_right _
      _ ≡ r.height + Step.deltaSum steps * 2 ^ 15 [ZMOD 2 ^ 32] := ih

/-- Both ways to add a step are refused alike. -/
theorem addStepFast_ok_iff {clocks : UInt32} {delta : Int32} :
    (∃ q, r.addStep clocks delta = .ok q) ↔ ∃ q, r.addStepFast clocks delta = .ok q := by
  by_cases hreach : r.Reaches clocks
  · exact ⟨fun _ => ⟨_, dif_pos hreach⟩, fun _ => ⟨_, dif_pos hreach⟩⟩
  · constructor
    · rintro ⟨q, hq⟩
      cases hq.symm.trans (addStep_of_not_reaches hreach delta)
    · rintro ⟨q, hq⟩
      cases hq.symm.trans (dif_neg hreach)

/-- A step changes sixteen slots from its own on, and a quick one the eighth and the ninth of them; either
    raises the sum of all slots by its height.  They are taken or refused alike, and whatever follows, with
    the same steps in either kernel and in any order, with other frames and other readings, comes to the
    same height but for what was heard.  A step and later its opposite come to nothing. -/
theorem kernels_settle_alike (r : Resampler) (clocks : UInt32) (delta : Int32) :
    (∀ q, r.addStep clocks delta = .ok q →
      r.AltersSlots q (r.slotAt (r.fixedTime clocks)) 16 ∧
        q.slotSum ≡ r.slotSum + delta.toInt * 2 ^ 15 [ZMOD 2 ^ 32]) ∧
    (∀ q, r.addStepFast clocks delta = .ok q →
      r.AltersSlots q (r.slotAt (r.fixedTime clocks) + 7) 2 ∧
        q.slotSum ≡ r.slotSum + delta.toInt * 2 ^ 15 [ZMOD 2 ^ 32]) ∧
    ((∃ q, r.addStep clocks delta = .ok q) ↔ ∃ p, r.addStepFast clocks delta = .ok p) ∧
    (∀ q p, r.addStep clocks delta = .ok q → r.addStepFast clocks delta = .ok p →
      ∀ steps heard q' steps' heard' p', q.Course steps heard q' → p.Course steps' heard' p' →
        Step.deltaSum steps = Step.deltaSum steps' →
        q'.height + 64 * heard.sum ≡ p'.height + 64 * heard'.sum [ZMOD 2 ^ 32]) ∧
    (∀ fast q, r.put ⟨clocks.toNat, delta, fast⟩ = .ok q →
      ∀ steps heard p, q.Course steps heard p →
        ∀ clocks' fast' p', p.put ⟨clocks', -delta, fast'⟩ = .ok p' →
          p'.height + 64 * heard.sum ≡ r.height + Step.deltaSum steps * 2 ^ 15 [ZMOD 2 ^ 32]) := by
  refine ⟨fun q hq => addStep_spec hq, fun q hq => addStepFast_spec hq, addStepFast_ok_iff, ?_, ?_⟩
  · intro q p hq hp steps heard q' steps' heard' p' hcourse hcourse' hsteps
    have hsame : q.height ≡ p.height [ZMOD 2 ^ 32] := by
      obtain ⟨⟨-, _, rfl, -⟩, hslots⟩ := addStep_spec hq
      obtain ⟨⟨-, _, rfl, -⟩, hslots'⟩ := addStepFast_spec hp
      exact (hslots.trans hslots'.symm).add_left _
    calc q'.height + 64 * heard.sum
      _ ≡ q.height + Step.deltaSum steps * 2 ^ 15 [ZMOD 2 ^ 32] := hcourse.height_eq
      _ ≡ p.height + Step.deltaSum steps * 2 ^ 15 [ZMOD 2 ^ 32] := hsame.add_right _
      _ = p.height + Step.deltaSum steps' * 2 ^ 15 := by rw [hsteps]
      _ ≡ p'.height + 64 * heard'.sum [ZMOD 2 ^ 32] := hcourse'.height_eq.symm
  · intro fast q hq steps heard p hcourse clocks' fast' p' hp
    have hopposite : (-delta).toInt * 2 ^ 15 ≡ -delta.toInt * 2 ^ 15 [ZMOD 2 ^ 32] :=
      (toInt_neg_modEq delta).mul_right _
    calc p'.height + 64 * heard.sum
      _ ≡ p.height + (-delta).toInt * 2 ^ 15 + 64 * heard.sum [ZMOD 2 ^ 32] :=
          (height_put hp).add_right _
      _ = p.height + 64 * heard.sum + (-delta).toInt * 2 ^ 15 := by ring
      _ ≡ q.height + Step.deltaSum steps * 2 ^ 15 + -delta.toInt * 2 ^ 15 [ZMOD 2 ^ 32] :=
          hcourse.height_eq.add hopposite
      _ ≡ r.height + delta.toInt * 2 ^ 15 + Step.deltaSum steps * 2 ^ 15 + -delta.toInt * 2 ^ 15
          [ZMOD 2 ^ 32] := ((height_put hq).add_right _).add_right _
      _ = r.height + Step.deltaSum steps * 2 ^ 15 := by ring

/-- A step between two samples and the same one quickly added, then a frame of a sample that is read, and
    the opposite. -/
theorem kernels_settle_alike_new : ∃ r q p q₁ q₂, Resampler.new 4 = .ok r ∧ r.addStep 70 900 = .ok q ∧
    r.addStepFast 70 900 = .ok p ∧ q.endFrame 0x100000 = .ok q₁ ∧
    (q₁.read 1).2.addStepFast 5 (-900) = .ok q₂ ∧
    r.AltersSlots q 0 16 ∧ r.AltersSlots p 7 2 ∧ q.slotSum ≡ 900 * 2 ^ 15 [ZMOD 2 ^ 32] ∧
    q.height + 64 * 0 ≡ p.height + 64 * 0 [ZMOD 2 ^ 32] ∧
    q₂.height + 64 * (q₁.read 1).1.toList.sum ≡ 0 [ZMOD 2 ^ 32] := by
  obtain ⟨r, hr⟩ : ∃ r, Resampler.new 4 = .ok r := ⟨_, rfl⟩
  have hreach : r.Reaches 70 := by
    cases hr
    exact (show _ ≤ 4 + 2 by decide)
  obtain ⟨q, hq, hgauge⟩ := addStep_of_reaches hreach 900
  obtain ⟨p, hp⟩ : ∃ p, r.addStepFast 70 900 = .ok p := ⟨_, dif_pos hreach⟩
  have hholds : q.Holds 0x100000 := by
    rw [holds_congr hgauge]
    cases hr
    exact (show _ ≤ 4 by decide)
  obtain ⟨q₁, hq₁⟩ : ∃ q₁, q.endFrame 0x100000 = .ok q₁ := ⟨_, dif_pos hholds⟩
  -- a sample later, the resampler stands as it did
  have hgauge₁ : (q₁.read 1).2.gauge = r.gauge := by
    obtain ⟨hc, hf, ho, ha⟩ := Gauge.mk.inj hgauge
    have htime : q.timeAt = r.timeAt := timeAt_congr hf ho
    cases hq₁.symm.trans (dif_pos hholds)
    rw [(read_gauge _ 1).2]
    dsimp only
    rw [htime, hc, hf, ha]
    cases hr
    rfl
  have hreach₁ : (q₁.read 1).2.Reaches 5 := by
    rw [reaches_congr hgauge₁]
    cases hr
    exact (show _ ≤ 4 + 2 by decide)
  obtain ⟨q₂, hq₂⟩ : ∃ q₂, (q₁.read 1).2.addStepFast 5 (-900) = .ok q₂ := ⟨_, dif_pos hreach₁⟩
  obtain ⟨hstep, hfast, -, halike, hopposite⟩ := kernels_settle_alike r 70 900
  have hzero : r.height = 0 ∧ r.slotSum = 0 := by
    cases hr
    decide
  have hslot : r.slotAt (r.fixedTime 70) = 0 := by
    cases hr
    decide
  obtain ⟨hq16, hsum⟩ := hstep q hq
  have hp2 := (hfast p hp).1
  rw [hzero.2, Int.zero_add] at hsum
  rw [hslot] at hq16 hp2
  have hread : q.Course [] ([] ++ (q₁.read 1).1.toList) (q₁.read 1).2 := (Course.start.endFrame hq₁).read 1
  have hback := hopposite false q hq _ _ _ hread 5 true q₂ hq₂
  rw [hzero.1] at hback
  exact ⟨r, q, p, q₁, q₂, hr, hq, hp, hq₁, hq₂, hq16, hp2, hsum,
    halike q p hq hp _ _ _ _ _ _ .start .start rfl, hback⟩

end Resampler

end Famicom
