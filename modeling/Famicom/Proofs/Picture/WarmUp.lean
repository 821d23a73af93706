/-
  When the warm-up ends.

  A cold unit counts its dots, and warms up on the dot that finds the count equal to the length of the
  warm-up in the region of that moment.  The lengths differ, and the region may change in the midst of
  the count: a count that has passed the length is never equal to it.

  1. **Moves** (`Move`): what the console does to a unit between two resets.  Each dot is counted in the
     region that the moves before it left (`regionsAt`).
  2. **The count** (`Counted`), of all moves at once: the unit is warm iff one of its dots found the
     count equal to the length (`Meets`); until then the count is the number of dots.
  3. **Overruns** (`Overruns`): the 88975th dot was a PAL one and the 106023rd an NTSC one.  Among the
     dots that decide it is only these two (`meets_iff`).
  4. **The end** (`warmUp_ends`): without an overrun the unit is warm after 106023 dots and the count
     never above 106022; with one it stays cold and counts on.
  5. **A run that overruns** (`lateSwitch`).
-/
import Famicom.Proofs.Picture.Geometry

namespace Famicom

namespace Picture

/-! ## What is done to a unit between two resets -/

/-- A dot, an access that takes no time, or a change of region. -/
inductive Move (γ : Type) where
  | tick (c : γ)
  | access (act : Act γ) (still : act.movesOn = false)
  | setRegion (region : Region)

variable {γ : Type} [Cartridge γ] {p : Picture} {moves : List (Move γ)} {region : Region}

/-- The unit after a move. -/
def make (p : Picture) : Move γ → Picture
  | .tick c => (p.tick c).2.1
  | .access act _ => p.perform act
  | .setRegion region => p.setRegion region

/-- The unit after one move after the other. -/
def play (p : Picture) (moves : List (Move γ)) : Picture := moves.foldl make p

/-- The regions in which the moves make their dots, from `region` on. -/
def regionsAt (region : Region) : List (Move γ) → List Region
  | [] => []
  | .tick _ :: moves => region :: regionsAt region moves
  | .access _ _ :: moves => regionsAt region moves
  | .setRegion other :: moves => regionsAt other moves

/-! ## The count -/

/-- A dot of a cold unit ends the warm-up, or is counted. -/
theorem tick_of_cold (hw : p.warmingUp = true) (c : γ) :
    (p.tick c).2.1.warmingUp = !decide (p.region.warmUpDots = p.warmUpCount) ∧
      (p.tick c).2.1.warmUpCount =
        if p.region.warmUpDots = p.warmUpCount then 0 else p.warmUpCount + 1 := by
  have hregion := nextDot_region p
  have hcount : p.nextDot.warmUpCount = p.warmUpCount :=
    congrArg Signals.warmUpCount (nextDot_signals p)
  have hcold : p.nextDot.warmingUp = true := (nextDot_warmingUp p).trans hw
  rw [tick_warmingUp p c hw, Picture.warmUp, hregion, hcount]
  split
  · next h =>
    rw [if_pos h.symm, decide_eq_true h.symm]
    exact ⟨rfl, rfl⟩
  · next h =>
    rw [if_neg (Ne.symm h), decide_eq_false (Ne.symm h)]
    exact ⟨hcold, rfl⟩

/-- A dot of a warm unit leaves the count alone. -/
theorem tick_warmUpCount (hw : p.warmingUp = false) (c : γ) :
    (p.tick c).2.1.warmUpCount = p.warmUpCount := by
  refine (congrArg Signals.warmUpCount (tick_signals hw c)).trans ?_
  unfold Signals.beginVblank
  split
  · split
    · rfl
    · rfl
  · split
    · rfl
    · rfl

/-- A unit that is warm stays so, whatever is done to it short of a reset. -/
theorem play_of_warm (hw : p.warmingUp = false) (moves : List (Move γ)) :
    (p.play moves).warmingUp = false ∧ (p.play moves).warmUpCount = p.warmUpCount := by
  induction moves generalizing p with
  | nil => exact ⟨hw, rfl⟩
  | cons move moves ih =>
    cases move with
    | tick c =>
      obtain ⟨hwarm, hcount⟩ := ih (tick_place hw c).1
      exact ⟨hwarm, hcount.trans (tick_warmUpCount hw c)⟩
    | access act still =>
      have hengine := perform_engine (p := p) still
      obtain ⟨hwarm, hcount⟩ := ih ((congrArg Engine.warmingUp hengine).trans hw)
      exact ⟨hwarm, hcount.trans (congrArg Engine.warmUpCount hengine)⟩
    | setRegion region => exact ih (p := p.setRegion region) hw

/-- Of dots made in these regions, the first of them at count `k`, one finds the count equal to the
    length of the warm-up. -/
def Meets (k : Nat) (regions : List Region) : Prop :=
  ∃ i region, regions[i]? = some region ∧ region.warmUpDots = k + i

theorem meets_nil (k : Nat) : ¬ Meets k [] := by
  rintro ⟨i, region, hi, -⟩
  cases hi

theorem meets_cons (k : Nat) (regions : List Region) :
    Meets k (region :: regions) ↔ region.warmUpDots = k ∨ Meets (k + 1) regions := by
  constructor
  · rintro ⟨_ | i, other, hi, hk⟩
    · cases hi
      exact .inl hk
    · exact .inr ⟨i, other, hi, by omega⟩
  · rintro (hk | ⟨i, other, hi, hk⟩)
    · exact ⟨0, region, rfl, hk⟩
    · exact ⟨i + 1, other, hi, by omega⟩

/-- What has become of a cold unit of count `k` after dots in these regions. -/
structure Counted (k : Nat) (regions : List Region) (q : Picture) : Prop where
  met : Meets k regions → q.warmingUp = false ∧ q.warmUpCount = 0
  missed : ¬ Meets k regions → q.warmingUp = true ∧ q.warmUpCount = k + regions.length

/-- A cold unit counts its dots until one of them finds the length of the warm-up. -/
theorem play_counted (hw : p.warmingUp = true) (moves : List (Move γ)) :
    Counted p.warmUpCount (regionsAt p.region moves) (p.play moves) := by
  induction moves generalizing p with
  | nil => exact ⟨fun h => absurd h (meets_nil _), fun _ => ⟨hw, rfl⟩⟩
  | cons move moves ih =>
    cases move with
    | tick c =>
      obtain ⟨hwarming, hcount⟩ := tick_of_cold hw c
      have hregion := tick_region p c
      show Counted p.warmUpCount (p.region :: regionsAt p.region moves) ((p.tick c).2.1.play moves)
      by_cases hk : p.region.warmUpDots = p.warmUpCount
      · rw [decide_eq_true hk] at hwarming
        rw [if_pos hk] at hcount
        obtain ⟨hwarm, hzero⟩ := play_of_warm hwarming moves
        exact ⟨fun _ => ⟨hwarm, hzero.trans hcount⟩,
          fun h => absurd ((meets_cons _ _).mpr (.inl hk)) h⟩
      · rw [decide_eq_false hk] at hwarming
        rw [if_neg hk] at hcount
        have hrest := ih hwarming
        rw [hregion, hcount] at hrest
        have hmeets : Meets p.warmUpCount (p.region :: regionsAt p.region moves) ↔
            Meets (p.warmUpCount + 1) (regionsAt p.region moves) :=
          (meets_cons _ _).trans (or_iff_right hk)
        refine ⟨fun h => hrest.met (hmeets.mp h), fun h => ?_⟩
        obtain ⟨hcold, hlength⟩ := hrest.missed fun hm => h (hmeets.mpr hm)
        exact ⟨hcold, by rw [hlength, List.length_cons]; omega⟩
    | access act still =>
      have hengine := perform_engine (p := p) still
      have hrest := ih ((congrArg Engine.warmingUp hengine).trans hw)
      rw [show (p.perform act).warmUpCount = p.warmUpCount from congrArg Engine.warmUpCount hengine,
        show (p.perform act).region = p.region from congrArg Engine.region hengine] at hrest
      exact hrest
    | setRegion region => exact ih (p := p.setRegion region) hw

/-! ## Overruns -/

/-- Each of the two dots that could end the warm-up finds the other region: the count passes the length
    of NTSC in PAL, and comes to that of PAL in NTSC. -/
def Overruns (region : Region) (moves : List (Move γ)) : Prop :=
  (regionsAt region moves)[88974]? = some .pal ∧ (regionsAt region moves)[106022]? = some .ntsc

/-- From zero the count meets the length on one of two dots. -/
theorem meets_iff (regions : List Region) :
    Meets 0 regions ↔ regions[88974]? = some .ntsc ∨ regions[106022]? = some .pal := by
  constructor
  · rintro ⟨i, region, hi, hk⟩
    cases region with
    | ntsc =>
      have hk : 88974 = i := hk.trans (Nat.zero_add i)
      exact .inl (hk ▸ hi)
    | pal =>
      have hk : 106022 = i := hk.trans (Nat.zero_add i)
      exact .inr (hk ▸ hi)
  · rintro (h | h)
    · exact ⟨88974, .ntsc, h, rfl⟩
    · exact ⟨106022, .pal, h, rfl⟩

theorem exists_region_at (regions : List Region) {i : Nat} (h : i < regions.length) :
    regions[i]? = some .ntsc ∨ regions[i]? = some .pal := by
  rw [List.getElem?_eq_getElem h]
  cases regions[i] with
  | ntsc => exact .inl rfl
  | pal => exact .inr rfl

omit [Cartridge γ] in
/-- Dots enough to come to both lengths meet one of them, unless there is an overrun. -/
theorem meets_of_not_overruns (h : ¬ Overruns region moves)
    (hlength : 106023 ≤ (regionsAt region moves).length) : Meets 0 (regionsAt region moves) := by
  have hearly := exists_region_at (regionsAt region moves) (i := 88974) (by omega)
  have hlate := exists_region_at (regionsAt region moves) (i := 106022) (by omega)
  rw [meets_iff]
  rcases hearly with hntsc | hpal
  · exact .inl hntsc
  · rcases hlate with hntsc | hpal'
    · exact absurd ⟨hpal, hntsc⟩ h
    · exact .inr hpal'

omit [Cartridge γ] in
theorem Overruns.not_meets (h : Overruns region moves) : ¬ Meets 0 (regionsAt region moves) := by
  obtain ⟨hpal, hntsc⟩ := h
  rw [meets_iff, hpal, hntsc]
  rintro (he | he)
  · cases he
  · cases he

/-! ## The end of the warm-up -/

/-- How a unit warms up that was in a region when it was started. -/
structure WarmsUp (region : Region) (moves : List (Move γ)) (q : Picture) : Prop where
  /-- Without an overrun it is warm by its 106023rd dot. -/
  ends : ¬ Overruns region moves → 106023 ≤ (regionsAt region moves).length → q.warmingUp = false
  /-- Its count stays below that. -/
  bounded : ¬ Overruns region moves → q.warmUpCount ≤ 106022
  /-- With an overrun it is still cold and counts every dot, as far as 32 bits go. -/
  missed : Overruns region moves → (regionsAt region moves).length < 2 ^ 32 →
    q.warmingUp = true ∧ q.warmUpCount = (regionsAt region moves).length
  /-- Once it is warm, it stays so. -/
  stays : q.warmingUp = false → ∀ more : List (Move γ), (q.play more).warmingUp = false

/-- A unit that was just switched on or reset warms up within 106023 dots, whatever is done to its
    registers and its region meanwhile, unless the region is PAL on the last dot of the NTSC warm-up
    and NTSC on the last of the PAL one: then the warm-up does not end. -/
theorem warmUp_ends (p : Picture) (moves : List (Move γ)) :
    WarmsUp p.region moves (p.reset.play moves) := by
  have hcounted : Counted 0 (regionsAt p.region moves) (p.reset.play moves) :=
    play_counted (p := p.reset) rfl moves
  constructor
  · intro hover hlength
    exact (hcounted.met (meets_of_not_overruns hover hlength)).1
  · intro hover
    by_cases hm : Meets 0 (regionsAt p.region moves)
    · rw [(hcounted.met hm).2]
      exact Nat.zero_le _
    · rw [(hcounted.missed hm).2, Nat.zero_add]
      exact Nat.le_of_lt_succ (Nat.lt_of_not_le fun hlength => hm (meets_of_not_overruns hover hlength))
  · intro hover _
    obtain ⟨hcold, hcount⟩ := hcounted.missed hover.not_meets
    exact ⟨hcold, hcount.trans (Nat.zero_add _)⟩
  · intro hwarm more
    exact (play_of_warm hwarm more).1

/-! ## A warm-up that does not end -/

omit [Cartridge γ] in
theorem regionsAt_ticks (region : Region) (c : γ) (n : Nat) (rest : List (Move γ)) :
    regionsAt region (List.replicate n (.tick c) ++ rest) =
      List.replicate n region ++ regionsAt region rest := by
  induction n with
  | zero => rfl
  | succ n ih => exact congrArg (region :: ·) ih

/-- A PAL unit becomes an NTSC one right after the dot that would have ended an NTSC warm-up, and goes
    on to dot 106023 and `n` dots more. -/
def lateSwitch (n : Nat) : List (Move Nrom) :=
  List.replicate 88975 (.tick solidBoard) ++
    .setRegion .ntsc :: List.replicate (17048 + n) (.tick solidBoard)

theorem regionsAt_lateSwitch (n : Nat) : regionsAt .pal (lateSwitch n) =
    List.replicate 88975 .pal ++ List.replicate (17048 + n) .ntsc := by
  have hrest := regionsAt_ticks .ntsc solidBoard (17048 + n) []
  rw [List.append_nil] at hrest
  rw [lateSwitch, regionsAt_ticks]
  exact congrArg _ (hrest.trans (List.append_nil _))

theorem length_lateSwitch (n : Nat) : (regionsAt .pal (lateSwitch n)).length = 106023 + n := by
  rw [regionsAt_lateSwitch, List.length_append, List.length_replicate, List.length_replicate]
  omega

theorem overruns_lateSwitch (n : Nat) : Overruns .pal (lateSwitch n) := by
  unfold Overruns
  rw [regionsAt_lateSwitch, List.getElem?_append_left (by rw [List.length_replicate]; omega),
    List.getElem?_append_right (by rw [List.length_replicate]; omega), List.length_replicate,
    List.getElem?_replicate, List.getElem?_replicate, if_pos (by omega), if_pos (by omega)]
  exact ⟨rfl, rfl⟩

/-- After 106023 dots a unit may be cold, and it may be after a million more. -/
theorem lateSwitch_cold :
    ((regionsAt .pal (lateSwitch 0)).length = 106023 ∧
      ((new .pal).play (lateSwitch 0)).warmingUp = true) ∧
    ((regionsAt .pal (lateSwitch 1000000)).length = 1106023 ∧
      ((new .pal).play (lateSwitch 1000000)).warmingUp = true ∧
      ((new .pal).play (lateSwitch 1000000)).warmUpCount = 1106023) := by
  have hcold (n : Nat) : ((new .pal).play (lateSwitch n)).warmingUp = true ∧
      ((new .pal).play (lateSwitch n)).warmUpCount = 106023 + n := by
    have hcounted : Counted 0 (regionsAt .pal (lateSwitch n)) ((new .pal).play (lateSwitch n)) :=
      play_counted (p := new .pal) rfl (lateSwitch n)
    have hmissed := hcounted.missed (overruns_lateSwitch n).not_meets
    rwa [length_lateSwitch, Nat.zero_add] at hmissed
  exact ⟨⟨length_lateSwitch 0, (hcold 0).1⟩, length_lateSwitch 1000000, hcold 1000000⟩

end Picture

end Famicom
