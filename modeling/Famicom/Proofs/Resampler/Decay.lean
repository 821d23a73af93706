/-
  What is heard dies away when no more steps come.

  Once its slots are empty, a resampler only leaks.  What becomes of its level then is a sequence of whole
  numbers, since no word wraps around on the way.

  1. **The leak** (`toInt_outputOf`, `integrate_exact`): what a level shows and what is left of it, as
     whole numbers.
  2. **One sample** (`leak_of_nonneg`, `leak_of_le`): above zero the level sinks and stays above; below zero
     it rises, and comes at most 63 above zero, where nothing shows of it.  So what shows comes no further
     from zero and does not change sides.
  3. **The end** (`exists_shown_eq_zero`): while something shows, the level comes at least a unit closer,
     by induction on how far away it is.
  4. **Courses** (`Course.heard_eq`): whatever is done to a resampler with empty slots, what is heard
     of it is the start of that one sequence.

  Main statement: what is heard of empty slots dies away, and no sample of any slots leaves sixteen bits
  (`silence_settles`).
-/
import Mathlib.Logic.Function.Iterate
import Mathlib.Order.Monotone.Basic
import Famicom.Proofs.Resampler.StepHeight

namespace Famicom

namespace Resampler

/-! ## The leak -/

/-- What a level shows, as a whole number. -/
def shown (level : Int) : Int := max (-32768) (min 32767 (level / 2 ^ 15))

/-- What a reading leaves of a level. -/
def leak (level : Int) : Int := level - 64 * shown level

/-- A shift to the right is a division rounded down. -/
theorem toInt_shiftRight_fifteen (a : Int32) : (a >>> (15 : Int32)).toInt = a.toInt / 2 ^ 15 := by
  have h : (a >>> (15 : Int32)).toBitVec = a.toBitVec.sshiftRight 15 := Int32.toBitVec_shiftRight ..
  calc (a >>> (15 : Int32)).toInt
    _ = (a.toBitVec.sshiftRight 15).toInt := congrArg BitVec.toInt h
    _ = a.toInt >>> (15 : Nat) := BitVec.toInt_sshiftRight
    _ = a.toInt / 2 ^ 15 := Int.shiftRight_eq_div_pow ..

/-- What is put out of a level, as a whole number. -/
theorem toInt_outputOf (level : Int32) : (outputOf level).toInt = shown level.toInt := by
  have hlow : (-32768 : Int32).toInt = -32768 := rfl
  have hhigh : (32767 : Int32).toInt = 32767 := rfl
  have hshift := toInt_shiftRight_fifteen level
  unfold outputOf shown
  dsimp only
  split
  · next h =>
    rw [Int32.lt_iff_toInt_lt] at h
    omega
  · next h =>
    rw [Int32.lt_iff_toInt_lt] at h
    split
    · next h' =>
      rw [Int32.lt_iff_toInt_lt] at h'
      omega
    · next h' =>
      rw [Int32.lt_iff_toInt_lt] at h'
      omega

/-- What is put out is of sixteen bits. -/
theorem shown_mem (level : Int) : -32768 ≤ shown level ∧ shown level ≤ 32767 := by
  unfold shown
  omega

/-- Reading an empty slot, no word wraps around. -/
theorem integrate_exact (level : Int32) :
    (level + 0).toInt = level.toInt ∧
      (outputOf level <<< (6 : Int32)).toInt = 64 * (outputOf level).toInt ∧
      (integrate level 0).toInt = level.toInt - 64 * (outputOf level).toInt := by
  have hadd : level + 0 = level := Int32.add_zero level
  have hlow := level.le_toInt
  have hhigh := level.toInt_lt
  have hshown := toInt_outputOf level
  have hmem := shown_mem level.toInt
  have hshift : (outputOf level <<< (6 : Int32)).toInt = 64 * (outputOf level).toInt := by
    have h64 : (64 : Int32).toInt = 64 := rfl
    rw [shiftLeft_six, Int32.toInt_mul, h64]
    exact Int.bmod_eq_of_le (by omega) (by omega)
  refine ⟨by rw [hadd], hshift, ?_⟩
  unfold integrate
  rw [hadd, Int32.toInt_sub, hshift]
  unfold shown at hshown
  exact Int.bmod_eq_of_le (by omega) (by omega)

/-- With nothing added a level leaks, and no word goes round. -/
theorem toInt_integrate_zero (level : Int32) : (integrate level 0).toInt = leak level.toInt := by
  rw [(integrate_exact level).2.2, toInt_outputOf]
  rfl

/-! ## One sample -/

/-- Above zero a level sinks, and what shows of it. -/
theorem leak_of_nonneg {level : Int} (h : 0 ≤ level) :
    0 ≤ leak level ∧ 0 ≤ shown (leak level) ∧ shown (leak level) ≤ shown level := by
  unfold leak shown
  omega

/-- Nothing shows of a level up to 63, and below zero it rises no further than that. -/
theorem leak_of_le {level : Int} (h : level ≤ 63) :
    leak level ≤ 63 ∧ shown level ≤ shown (leak level) ∧ shown (leak level) ≤ 0 := by
  unfold leak shown
  omega

/-- A level that is not negative stays so while it leaks, and so does what is shown of it. -/
theorem shown_nonneg {level : Int} (h : 0 ≤ level) (k : Nat) :
    0 ≤ leak^[k] level ∧ 0 ≤ shown (leak^[k] level) := by
  induction k with
  | zero =>
    refine ⟨h, ?_⟩
    unfold shown
    rw [Function.iterate_zero_apply]
    omega
  | succ k ih =>
    obtain ⟨hlevel, hshown, -⟩ := leak_of_nonneg ih.1
    rw [Function.iterate_succ_apply']
    exact ⟨hlevel, hshown⟩

/-- One that is not shown as positive never will be. -/
theorem shown_nonpos {level : Int} (h : level ≤ 63) (k : Nat) :
    leak^[k] level ≤ 63 ∧ shown (leak^[k] level) ≤ 0 := by
  induction k with
  | zero =>
    refine ⟨h, ?_⟩
    unfold shown
    rw [Function.iterate_zero_apply]
    omega
  | succ k ih =>
    obtain ⟨hlevel, -, hshown⟩ := leak_of_le ih.1
    rw [Function.iterate_succ_apply']
    exact ⟨hlevel, hshown⟩

/-! ## The end -/

/-- What shows nothing stays as it is. -/
theorem leak_eq_self {level : Int} (h : shown level = 0) : leak level = level := by
  unfold leak
  omega

/-- How far a level is from showing nothing; from below it has to come past zero. -/
def distance (level : Int) : Nat := (max level (64 - level)).toNat

/-- While something is shown, the distance to silence drops. -/
theorem distance_leak_lt {level : Int} (h : shown level ≠ 0) : distance (leak level) < distance level := by
  unfold shown at h
  unfold distance leak shown
  omega

/-- So in the end nothing is shown any more. -/
theorem exists_shown_eq_zero (level : Int) : ∃ n, ∀ k, n ≤ k → shown (leak^[k] level) = 0 := by
  induction hd : distance level using Nat.strong_induction_on generalizing level with
  | _ d ih =>
    by_cases hshown : shown level = 0
    · refine ⟨0, fun k _ => ?_⟩
      rw [Function.iterate_fixed (leak_eq_self hshown)]
      exact hshown
    · obtain ⟨n, hn⟩ := ih _ (hd ▸ distance_leak_lt hshown) (leak level) rfl
      refine ⟨n + 1, fun k hk => ?_⟩
      obtain ⟨k, rfl⟩ : ∃ m, k = m + 1 := ⟨k - 1, by omega⟩
      rw [Function.iterate_succ_apply]
      exact hn k (by omega)

/-- A sound dies away: it never gets louder, never changes sides, and is silence in the end. -/
structure Fades (sound : Nat → Int) : Prop where
  antitone : Antitone fun k => (sound k).natAbs
  same_side : ∀ j k, sound j ≠ 0 → sound k ≠ 0 → (sound j).sign = (sound k).sign
  silent : ∃ n, ∀ k, n ≤ k → sound k = 0

/-- What is shown of a leaking level fades. -/
theorem fades_shown (level : Int) : Fades fun k => shown (leak^[k] level) := by
  rcases Int.lt_or_le level 0 with hneg | hpos
  · have hbelow := shown_nonpos (Int.le_trans (Int.le_of_lt hneg) (by decide : (0 : Int) ≤ 63))
    refine ⟨antitone_nat_of_succ_le fun k => ?_, fun j k hj hk => ?_, exists_shown_eq_zero level⟩
    · obtain ⟨-, hrise, hle⟩ := leak_of_le (hbelow k).1
      rw [Function.iterate_succ_apply']
      omega
    · rw [Int.sign_eq_neg_one_of_neg (lt_of_le_of_ne (hbelow j).2 hj),
        Int.sign_eq_neg_one_of_neg (lt_of_le_of_ne (hbelow k).2 hk)]
  · have habove := shown_nonneg hpos
    refine ⟨antitone_nat_of_succ_le fun k => ?_, fun j k hj hk => ?_, exists_shown_eq_zero level⟩
    · obtain ⟨-, hle, hsink⟩ := leak_of_nonneg (habove k).1
      rw [Function.iterate_succ_apply']
      omega
    · rw [Int.sign_eq_one_of_pos (lt_of_le_of_ne (habove j).2 hj.symm),
        Int.sign_eq_one_of_pos (lt_of_le_of_ne (habove k).2 hk.symm)]

/-! ## Empty slots -/

/-- The level after so many readings of empty slots. -/
def leaked (level : Int32) (k : Nat) : Int32 := (fun level => integrate level 0)^[k] level

/-- The sample that is read after so many of empty slots. -/
def echo (level : Int32) (k : Nat) : Int := (outputOf (leaked level k)).toInt

theorem leaked_add (level : Int32) (m n : Nat) : leaked level (m + n) = leaked (leaked level m) n := by
  unfold leaked
  rw [Nat.add_comm, Function.iterate_add_apply]

/-- What is heard later is what is heard of the level leaked until then. -/
theorem echo_add (level : Int32) (m n : Nat) : echo level (m + n) = echo (leaked level m) n := by
  unfold echo
  rw [leaked_add]

/-- The word leaks as the whole number does. -/
theorem toInt_leaked (level : Int32) (k : Nat) : (leaked level k).toInt = leak^[k] level.toInt :=
  have h : Function.Semiconj Int32.toInt (fun level => integrate level 0) leak := toInt_integrate_zero
  h.iterate_right k level

/-- So what is heard of any level fades. -/
theorem fades_echo (level : Int32) : Fades (echo level) := by
  have h : echo level = fun k => shown (leak^[k] level.toInt) := by
    funext k
    rw [echo, toInt_outputOf, toInt_leaked]
  exact h ▸ fades_shown level.toInt

/-- Slots with nothing in them put out the fading level. -/
theorem sums_zeros (level : Int32) (n : Nat) :
    sums level (List.replicate n 0) = ((List.range n).map (echo level), leaked level n) := by
  induction n generalizing level with
  | zero => rfl
  | succ n ih =>
    have htail : (List.range n).map (echo (integrate level 0)) = (List.range n).map (echo level ∘ Nat.succ) :=
      List.map_congr_left fun k _ => (Nat.add_comm 1 k ▸ echo_add level 1 k).symm
    rw [List.replicate_succ, sums, ih, List.range_succ_eq_map, List.map_cons, List.map_map, htail]
    rfl

variable {r q : Resampler}

/-- No differences wait in the slots. -/
def Empty (r : Resampler) : Prop := ∀ slot ∈ r.slots.toList, slot = 0

/-- Reading leaves empty slots empty. -/
theorem Empty.read (h : r.Empty) (count : Nat) : (r.read count).2.Empty := by
  unfold Resampler.read
  dsimp only
  split
  · exact h
  · intro slot hslot
    have hslot : slot ∈ (r.dropSlots (min count r.available) (Nat.min_le_right ..)).slots.toList := hslot
    rw [toList_dropSlots, List.mem_append, List.mem_append] at hslot
    rcases hslot with (hmoved | hzero) | hlast
    · exact h slot (List.mem_of_mem_take (List.mem_of_mem_drop hmoved))
    · exact List.eq_of_mem_replicate hzero
    · exact h slot (List.mem_of_mem_drop hlast)

/-- The samples of empty slots are the next of the sequence. -/
theorem Empty.read_eq (h : r.Empty) (count : Nat) :
    (r.read count).1.toList = (List.range (min count r.available)).map (echo r.level) ∧
      (r.read count).2.level = leaked r.level (min count r.available) := by
  obtain ⟨hout, hlevel, -⟩ := r.read_eq count
  have hle := r.available_le
  have hzeros : r.slots.toList.take (min count r.available) = List.replicate (min count r.available) 0 := by
    refine List.eq_replicate_iff.mpr ⟨?_, fun slot hslot => h slot (List.mem_of_mem_take hslot)⟩
    rw [List.length_take, Vector.length_toList]
    omega
  rw [hzeros, sums_zeros] at hout hlevel
  exact ⟨hout, hlevel⟩

/-- Whatever is done to a resampler with empty slots but for putting steps in, what is heard is the start
    of the one sequence. -/
theorem Course.heard_eq {steps : List Step} {heard : List Int} (h : r.Course steps heard q)
    (hempty : r.Empty) (hsteps : steps = []) :
    q.Empty ∧ q.level = leaked r.level heard.length ∧
      heard = (List.range heard.length).map (echo r.level) := by
  induction h with
  | start => exact ⟨hempty, rfl, rfl⟩
  | put h hput ih => cases List.append_ne_nil_of_right_ne_nil _ (List.cons_ne_nil _ _) hsteps
  | @setRates _ _ p q _ _ h hset ih =>
    rw [(setRates_congr hset p).2]
    exact ih hsteps
  | @endFrame _ _ p q clocks h hend ih =>
    by_cases hholds : p.Holds clocks
    · cases hend.symm.trans (dif_pos hholds)
      exact ih hsteps
    · cases hend.symm.trans (endFrame_of_not_holds hholds)
  | @read _ heard p h count ih =>
    obtain ⟨hp, hlevel, hheard⟩ := ih hsteps
    obtain ⟨hout, hleft⟩ := hp.read_eq count
    have hmore : (List.range (min count p.available)).map (echo p.level) =
        (List.range (min count p.available)).map (echo r.level ∘ (heard.length + ·)) :=
      List.map_congr_left fun k _ => hlevel ▸ (echo_add r.level heard.length k).symm
    refine ⟨hp.read count, ?_, ?_⟩
    · rw [hleft, hlevel, hout, List.length_append, List.length_map, List.length_range, leaked_add]
    · rw [hout, List.length_append, List.length_map, List.length_range, List.range_add, List.map_append,
        ← hheard, List.map_map, hmore]

/-! ## Sixteen bits -/

/-- Every sample is of sixteen bits. -/
theorem sums_mem (level : Int32) (slots : List Int32) :
    ∀ sample ∈ (sums level slots).1, -32768 ≤ sample ∧ sample ≤ 32767 := by
  induction slots generalizing level with
  | nil => simp [sums]
  | cons slot slots ih =>
    intro sample hsample
    rcases List.mem_cons.mp hsample with rfl | hrest
    · rw [toInt_outputOf]
      exact shown_mem _
    · exact ih _ sample hrest

/-- So is every sample that is read. -/
theorem read_mem (r : Resampler) (count : Nat) :
    ∀ sample ∈ (r.read count).1, -32768 ≤ sample ∧ sample ≤ 32767 := by
  intro sample hsample
  rw [← Array.mem_toList_iff, (r.read_eq count).1] at hsample
  exact sums_mem _ _ sample hsample

theorem mem_setIfInBounds_or {out : Array Int} {i : Nat} {v w : Int} (h : v ∈ out.setIfInBounds i w) :
    v ∈ out ∨ v = w := by
  unfold Array.setIfInBounds at h
  split at h
  · exact Array.mem_or_eq_of_mem_set h
  · exact .inl h

/-- Nothing but the values given comes into an array. -/
theorem mem_place {out values : Array Int} {start stride : Nat} {v : Int}
    (h : v ∈ place out start stride values) : v ∈ out ∨ v ∈ values := by
  unfold place at h
  rw [← Array.foldl_toList] at h
  rw [← @Array.mem_toList_iff _ v values]
  generalize values.toList = values at h
  induction values generalizing out start with
  | nil => exact .inl h
  | cons w values ih =>
    rcases ih h with hset | hmem
    · rcases mem_setIfInBounds_or hset with hout | rfl
      · exact .inl hout
      · exact .inr List.mem_cons_self
    · exact .inr (List.mem_cons_of_mem w hmem)

/-- Of a resampler with empty slots, however its frames, rates and readings follow each other, what is heard
    is the start of one sequence, which dies away, and no word wraps around on the way.  A reading never
    brings less than the samples that wait and that are asked for, and no sample that is read, from
    whatever slots, into a list or into an array, leaves sixteen bits. -/
theorem silence_settles (r : Resampler) (hempty : r.Empty) :
    Fades (echo r.level) ∧
    (∀ heard q, r.Course [] heard q → q.Empty ∧ q.level = leaked r.level heard.length ∧
      ∀ k (hk : k < heard.length), heard[k] = echo r.level k) ∧
    (∀ level : Int32, (level + 0).toInt = level.toInt ∧
      (outputOf level <<< (6 : Int32)).toInt = 64 * (outputOf level).toInt ∧
      (integrate level 0).toInt = level.toInt - 64 * (outputOf level).toInt) ∧
    (∀ (p : Resampler) (count : Nat), (p.read count).1.size = min count p.available ∧
      ∀ sample ∈ (p.read count).1, -32768 ≤ sample ∧ sample ≤ 32767) ∧
    (∀ (p : Resampler) (out : Array Int) (start count : Nat) (stereo : Bool),
      ∃ n ≤ count, (p.readInto out start count stereo).1 = (p.read n).1.size ∧
        (p.readInto out start count stereo).2.2 = (p.read n).2 ∧
        ∀ sample ∈ (p.readInto out start count stereo).2.1,
          sample ∈ out ∨ (-32768 ≤ sample ∧ sample ≤ 32767)) := by
  refine ⟨fades_echo r.level, ?_, integrate_exact, ?_, ?_⟩
  · intro heard q hcourse
    obtain ⟨hq, hlevel, hheard⟩ := hcourse.heard_eq hempty rfl
    refine ⟨hq, hlevel, fun k hk => ?_⟩
    rw [List.getElem_of_eq hheard, List.getElem_map, List.getElem_range]
  · intro p count
    exact ⟨(p.read_gauge count).1, p.read_mem count⟩
  · intro p out start count stereo
    refine ⟨_, Nat.min_le_left .., rfl, rfl, fun sample hsample => ?_⟩
    exact (mem_place hsample).imp_right (p.read_mem _ sample)

/-- From the least level below nothing, one sample is heard. -/
theorem silence_settles_new : echo (-1) 0 = -1 ∧ echo (-1) 1 = 0 ∧ ∃ r q, Resampler.new 4 = .ok r ∧
    ({ r with level := -1 } : Resampler).endFrame 0x200000 = .ok q ∧ Fades (echo (-1)) ∧
    (q.read 2).2.Empty ∧ ∀ k (hk : k < (q.read 2).1.toList.length), (q.read 2).1.toList[k] = echo (-1) k := by
  obtain ⟨r, hr⟩ : ∃ r, Resampler.new 4 = .ok r := ⟨_, rfl⟩
  have hempty : ({ r with level := -1 } : Resampler).Empty := by
    cases hr
    exact fun slot hslot => List.eq_of_mem_replicate hslot
  obtain ⟨q, hq⟩ : ∃ q, ({ r with level := -1 } : Resampler).endFrame 0x200000 = .ok q := by
    refine ⟨_, dif_pos ?_⟩
    cases hr
    exact (show _ ≤ 4 by decide)
  obtain ⟨hfades, hcourse, -⟩ := silence_settles { r with level := -1 } hempty
  obtain ⟨hdone, -, hheard⟩ := hcourse _ _ ((Course.start.endFrame hq).read 2)
  exact ⟨by decide, by decide, r, q, hr, hq, hfades, hdone, hheard⟩

end Resampler

end Famicom
