/-
  The states a picture unit can be in.

  `Reachable` collects what the console does to a picture unit: dots, the registers read and written,
  the requests taken from it and the region changed.  Whatever the cartridge answers, the state it
  leads to is in.

  1. **The scroll registers** (`Scroll.WellFormed`) have fifteen bits, and the fine column has three.
     The ways in which drawing moves the position keep this, and so do the writes to the registers,
     which cut what is written; from one lemma for each part of a dot, `Reachable.scroll`.
  2. **Warm or idle** (`Reachable.warm_of_draws`): a unit that is told to draw is warm, since a cold
     one takes no mask (`writeRegister_mask`) and stays cold with the mask it has (`tick_cold`).
  3. **From power-on** (`after_warmUp`): a unit left to itself counts its dots and draws none.
     `idleAt` is the unit after so many of them.  So it comes to where its first picture starts
     (`exists_after_warm`), in the state `warm`, which is one that can come about (`reachable_warm`).
-/
import Famicom.Picture.Register
import Famicom.Proofs.Picture.Pipeline

namespace Famicom

namespace Scroll

/-- Scroll registers with no more bits than there are. -/
structure WellFormed (s : Scroll) : Prop where
  addr : Fits s.addr
  start : Fits s.start
  fineX : s.fineX.toNat < 8

namespace WellFormed

variable {s : Scroll}

/-- The next column keeps the scroll registers within their bits. -/
theorem nextColumn (h : WellFormed s) : WellFormed s.nextColumn :=
  ⟨nextColumn_fits s h.addr, h.start, h.fineX⟩

/-- So does the next row. -/
theorem nextRow (h : WellFormed s) : WellFormed s.nextRow := ⟨nextRow_fits s h.addr, h.start, h.fineX⟩

theorem restartRow (h : WellFormed s) : WellFormed s.restartRow :=
  ⟨restartRow_fits s h.addr, h.start, h.fineX⟩

theorem restartPicture (h : WellFormed s) : WellFormed s.restartPicture :=
  ⟨restartPicture_fits s h.addr, h.start, h.fineX⟩

/-- The step of an access is cut to fifteen bits. -/
theorem skip (h : WellFormed s) (step : UInt16) : WellFormed (s.skip step) :=
  ⟨mask_fits _ (by decide), h.start, h.fineX⟩

theorem expectFirst (h : WellFormed s) : WellFormed s.expectFirst := ⟨h.addr, h.start, h.fineX⟩

/-- A few bits moved up stay within fifteen. -/
theorem shiftLeft_fits (v m : UInt16) (k : Nat) (hk : k < 16) (hm : m.toNat * 2 ^ k < 0x8000) :
    Fits ((v &&& m) <<< UInt16.ofNat k) := by
  have hle : (v &&& m).toNat * 2 ^ k ≤ m.toNat * 2 ^ k := by
    rw [UInt16.toNat_and]
    exact Nat.mul_le_mul_right _ Nat.and_le_right
  unfold Fits
  rw [Background.toNat_shiftLeft_ofNat _ _ hk]
  omega

/-- The two bits of the name table have their place in the address. -/
theorem chooseTable (h : WellFormed s) (data : UInt8) : WellFormed (s.chooseTable data) :=
  ⟨h.addr, or_fits (and_fits h.start _) (shiftLeft_fits _ _ 10 (by decide) (by decide)), h.fineX⟩

theorem byte_fits (data : UInt8) : Fits data.toUInt16 := by
  have := data.toNat_lt
  unfold Fits
  rw [UInt8.toNat_toUInt16]
  omega

/-- The two halves of a scroll position fit into the address and the fine column. -/
theorem writePosition (h : WellFormed s) (data : UInt8) : WellFormed (s.writePosition data) := by
  unfold Scroll.writePosition
  split
  · refine ⟨h.addr, or_fits (or_fits (and_fits h.start _) ?_) ?_, h.fineX⟩
    · exact shiftLeft_fits _ _ 2 (by decide) (by decide)
    · exact shiftLeft_fits _ _ 12 (by decide) (by decide)
  · refine ⟨h.addr, or_fits (and_fits h.start _) ?_, ?_⟩
    · have := data.toNat_lt
      unfold Fits
      rw [UInt16.toNat_shiftRight, UInt8.toNat_toUInt16, Nat.shiftRight_eq_div_pow]
      show data.toNat / 8 < _
      omega
    · show (data &&& 0x07).toNat < 8
      rw [UInt8.toNat_and]
      exact Nat.lt_of_le_of_lt Nat.and_le_right (by decide)

/-- The upper byte of an address is cut to six bits. -/
theorem writeAddr (h : WellFormed s) (data : UInt8) : WellFormed (s.writeAddr data) := by
  unfold Scroll.writeAddr
  split
  · have hs := or_fits (and_fits h.start 0xFF00) (byte_fits data)
    exact ⟨hs, hs, h.fineX⟩
  · exact ⟨h.addr, or_fits (and_fits h.start _) (shiftLeft_fits _ _ 8 (by decide) (by decide)),
      h.fineX⟩

end WellFormed

end Scroll

namespace Picture

variable {γ : Type} [Cartridge γ]

/-- What can become of a picture unit, wired to cartridges of one kind. -/
inductive Reachable (γ : Type) [Cartridge γ] : Picture → Prop where
  | new (region : Region) : Reachable γ (.new region)
  | tick {p : Picture} (c : γ) : Reachable γ p → Reachable γ (p.tick c).2.1
  | read {p : Picture} (c : γ) (addr : UInt16) :
      Reachable γ p → Reachable γ (p.readRegister c addr).2.1
  | write {p : Picture} (c : γ) (addr : UInt16) (data : UInt8) :
      Reachable γ p → Reachable γ (p.writeRegister c addr data).1
  | setRegion {p : Picture} (region : Region) : Reachable γ p → Reachable γ (p.setRegion region)
  | takeNmi {p : Picture} : Reachable γ p → Reachable γ p.takeNmi.2
  | requestDma {p : Picture} (page : UInt8) : Reachable γ p → Reachable γ (p.requestDma page)
  | takeDma {p : Picture} : Reachable γ p → Reachable γ p.takeDma.2

/-- A run of dots is one of the things a console does to a unit. -/
theorem Reachable.after {p : Picture} (h : Reachable γ p) (cart : Nat → γ) (n : Nat) :
    Reachable γ (p.after cart n) := by
  induction n with
  | zero => exact h
  | succ n ih => exact ih.tick (cart n)

/-! ## The scroll registers keep to their bits -/

/-- A background fetch reads where the position stands and does not move it. -/
theorem fetchBackground_scroll (p : Picture) (c : γ) :
    (p.fetchBackground c).1.scroll = p.scroll := by
  unfold fetchBackground
  split
  · rfl
  · split
    · rfl
    · split <;> rfl

theorem nextDot_scroll (p : Picture) : p.nextDot.scroll = p.scroll := by
  unfold nextDot
  split
  · split <;> rfl
  · rfl

theorem warmUp_scroll (p : Picture) : p.warmUp.scroll = p.scroll := by
  unfold warmUp
  split <;> rfl

theorem arrive_scroll (p : Picture) : p.arrive.scroll = p.scroll := by
  have hv : p.beginVblank.scroll = p.scroll := by
    unfold beginVblank
    split <;> rfl
  have hb (q : Picture) : q.beginFirstRow.scroll = q.scroll := by
    unfold beginFirstRow
    split <;> rfl
  rw [arrive, hb]
  split
  · exact hv
  · rfl

section

variable {p : Picture} (h : p.scroll.WellFormed) (c : γ)
include h

theorem advance_scroll : p.advance.scroll.WellFormed := by
  unfold advance
  split
  · dsimp only
    split
    · exact h.nextColumn.nextRow
    · exact h.nextColumn
  · exact h

/-- A dot of the visible part of a row keeps the scroll registers well formed. -/
theorem pixelDot_scroll : (p.pixelDot c).1.scroll.WellFormed := by
  have hf : (p.fetched c).scroll.WellFormed := advance_scroll (fetchBackground_scroll p c ▸ h)
  have hbegin : (p.fetched c).beginPicture.scroll = (p.fetched c).scroll :=
    (beginPicture_kept (p.fetched c)).1
  have hshow : (p.fetched c).showPixel.evaluateSprites.scroll = (p.fetched c).scroll :=
    (congrArg Lane.scroll (evaluateSprites_lane (p.fetched c).showPixel)).trans (drawPixel_scroll _)
  rw [pixelDot_fst]
  split
  · split
    · rw [hbegin]
      exact hf
    · exact hf
  · rw [hshow]
    exact hf

theorem turnRow_scroll : p.turnRow.scroll.WellFormed := by
  unfold turnRow
  split
  · dsimp only
    split
    · exact h.restartRow
    · exact h
  · exact h

theorem turnPicture_scroll : p.turnPicture.scroll.WellFormed := by
  unfold turnPicture
  split
  · exact h.restartPicture
  · exact h

/-- So does a dot of the sprite fetches. -/
theorem spriteDot_scroll : (p.spriteDot c).2.1.scroll.WellFormed := by
  have ht := turnRow_scroll h
  cases hr : p.turnRow.rendering with
  | true =>
    rw [(spriteDot_of_rendering p c hr).2]
    have hs : ({ p.turnRow with oamAddr := 0 }.spriteFetches c).2.1.scroll = p.turnRow.scroll :=
      congrArg Lane.scroll (spriteFetches_lane _ c)
    exact turnPicture_scroll (hs ▸ ht)
  | false =>
    rw [spriteDot_of_not_rendering p c hr]
    exact ht

theorem prefetchDot_scroll : (p.prefetchDot c).1.scroll.WellFormed := by
  have hf : (p.fetchBackground c).1.scroll.WellFormed := fetchBackground_scroll p c ▸ h
  unfold prefetchDot
  dsimp only
  split
  · exact hf
  · split
    · exact hf
    · split
      · exact hf.nextColumn
      · exact hf

/-- So does every dot on which the unit is at work. -/
theorem drawingDot_scroll : (p.drawingDot c).2.1.scroll.WellFormed := by
  have hm : ({ p with rendering := p.mask.draws } : Picture).scroll.WellFormed := h
  unfold drawingDot
  dsimp only
  split
  · exact pixelDot_scroll hm c
  · split
    · exact spriteDot_scroll hm c
    · split
      · exact prefetchDot_scroll hm c
      · split
        · unfold idleDot
          split
          · exact hm
          · exact hm
        · exact hm

/-- And so does every dot at all. -/
theorem tick_scroll : (p.tick c).2.1.scroll.WellFormed := by
  have hn : p.nextDot.scroll.WellFormed := nextDot_scroll p ▸ h
  cases hw : p.warmingUp with
  | true =>
    rw [tick_warmingUp p c hw, warmUp_scroll]
    exact hn
  | false =>
    have ha : p.nextDot.arrive.scroll.WellFormed := arrive_scroll p.nextDot ▸ hn
    rw [tick_eq p c hw]
    split
    · exact drawingDot_scroll ha c
    · exact ha

theorem stepAddr_scroll : p.stepAddr.scroll.WellFormed := by
  unfold stepAddr
  dsimp only
  split
  · exact h.nextColumn.nextRow
  · exact h.skip _

/-- Reading a register keeps the scroll registers well formed. -/
theorem readRegister_scroll (addr : UInt16) : (p.readRegister c addr).2.1.scroll.WellFormed := by
  unfold readRegister
  dsimp only
  split
  · exact h.expectFirst
  · unfold readSprites
    dsimp only
    split
    · split <;> exact h
    · exact h
  · exact stepAddr_scroll h
  · exact h

/-- Writing one cuts what is written to the bits there are. -/
theorem writeRegister_scroll (addr : UInt16) (data : UInt8) :
    (p.writeRegister c addr data).1.scroll.WellFormed := by
  unfold writeRegister
  dsimp only
  split
  · split
    · exact h
    · exact h.chooseTable data
  · split <;> exact h
  · exact h
  · unfold writeSprites
    split <;> exact h
  · split
    · exact h
    · exact h.writePosition data
  · split
    · exact h
    · exact h.writeAddr data
  · unfold writeData
    dsimp only
    split
    · exact stepAddr_scroll h
    · exact stepAddr_scroll h
  · exact h

end

/-- In every state the scroll registers have no more bits than there are. -/
theorem Reachable.scroll {p : Picture} (h : Reachable γ p) : p.scroll.WellFormed := by
  induction h with
  | new region => exact (⟨by decide, by decide, by decide⟩ : Scroll.WellFormed {})
  | tick c _ ih => exact tick_scroll ih c
  | read c addr _ ih => exact readRegister_scroll ih c addr
  | write c addr data _ ih => exact writeRegister_scroll ih c addr data
  | setRegion region _ ih => exact ih
  | takeNmi _ ih => exact ih
  | requestDma page _ ih => exact ih
  | takeDma _ ih => exact ih

/-! ## Nothing is drawn before the unit is warm -/

theorem warmUp_mask (p : Picture) : p.warmUp.mask = p.mask := by
  unfold warmUp
  split <;> rfl

theorem stepAddr_mask (p : Picture) : p.stepAddr.mask = p.mask ∧ p.stepAddr.warmingUp = p.warmingUp := by
  unfold stepAddr
  exact ⟨rfl, rfl⟩

theorem readRegister_mask (p : Picture) (c : γ) (addr : UInt16) :
    (p.readRegister c addr).2.1.mask = p.mask ∧
      (p.readRegister c addr).2.1.warmingUp = p.warmingUp := by
  unfold readRegister
  dsimp only
  split
  · exact ⟨rfl, rfl⟩
  · unfold readSprites
    dsimp only
    split
    · split <;> exact ⟨rfl, rfl⟩
    · exact ⟨rfl, rfl⟩
  · exact stepAddr_mask _
  · exact ⟨rfl, rfl⟩

/-- A register that is written does not warm the unit up, and a cold unit does not take a new mask. -/
theorem writeRegister_mask (p : Picture) (c : γ) (addr : UInt16) (data : UInt8) :
    (p.writeRegister c addr data).1.warmingUp = p.warmingUp ∧
      (p.warmingUp = true → (p.writeRegister c addr data).1.mask = p.mask) := by
  unfold writeRegister
  dsimp only
  split
  · split <;> exact ⟨rfl, fun _ => rfl⟩
  · split
    · exact ⟨rfl, fun _ => rfl⟩
    · next hw => exact ⟨rfl, fun z => absurd z hw⟩
  · exact ⟨rfl, fun _ => rfl⟩
  · unfold writeSprites
    split <;> exact ⟨rfl, fun _ => rfl⟩
  · split <;> exact ⟨rfl, fun _ => rfl⟩
  · split <;> exact ⟨rfl, fun _ => rfl⟩
  · unfold writeData
    dsimp only
    split <;> exact ⟨rfl, fun _ => rfl⟩
  · exact ⟨rfl, fun _ => rfl⟩

/-- A unit that is cold after a dot was cold before, and its mask is the same. -/
theorem tick_cold (p : Picture) (c : γ) (h : (p.tick c).2.1.warmingUp = true) :
    p.warmingUp = true ∧ (p.tick c).2.1.mask = p.mask := by
  cases hw : p.warmingUp with
  | false =>
    have ho := congrArg (·.settings.warmingUp) (tick_outline p c hw)
    have hn : (p.tick c).2.1.warmingUp = p.nextDot.warmingUp := ho
    rw [hn, nextDot_warmingUp, hw] at h
    cases h
  | true =>
    refine ⟨rfl, ?_⟩
    rw [tick_warmingUp p c hw, warmUp_mask, nextDot_mask]

/-- A unit that is still warming up draws nothing. -/
theorem Reachable.cold {p : Picture} (h : Reachable γ p) : p.warmingUp = true → p.mask = {} := by
  induction h with
  | new region => exact fun _ => rfl
  | tick c _ ih =>
    intro hw
    obtain ⟨hp, hm⟩ := tick_cold _ c hw
    exact hm.trans (ih hp)
  | read c addr _ ih =>
    obtain ⟨hm, hw⟩ := readRegister_mask _ c addr
    intro hr
    exact hm.trans (ih (hw.symm.trans hr))
  | write c addr data _ ih =>
    obtain ⟨hw, hm⟩ := writeRegister_mask _ c addr data
    intro hr
    exact (hm (hw.symm.trans hr)).trans (ih (hw.symm.trans hr))
  | setRegion region _ ih => exact ih
  | takeNmi _ ih => exact ih
  | requestDma page _ ih => exact ih
  | takeDma _ ih => exact ih

/-- A unit that is told to draw is warm. -/
theorem Reachable.warm_of_draws {p : Picture} (h : Reachable γ p) (hd : p.mask.draws = true) :
    p.warmingUp = false := by
  cases hw : p.warmingUp with
  | false => rfl
  | true =>
    rw [h.cold hw] at hd
    cases hd

/-! ## From power-on to the first picture -/

/-- A unit from power-on that has been moved along but done nothing. -/
def idleAt (region : Region) (n : Nat) : Picture :=
  { new region with row := .ofNat (n / 341), dot := .ofNat (n % 341), warmingUp := false }

/-- Up to the row before the first, the dots of a unit that does not draw are counted through without a
    gap. -/
theorem idle_nextDot (q : Picture) {n : Nat} (hrow : q.row = .ofNat (n / 341))
    (hdot : q.dot = .ofNat (n % 341)) (hn : n / 341 < q.region.prerenderRow.toNat) :
    q.nextDot = { q with row := .ofNat ((n + 1) / 341), dot := .ofNat ((n + 1) % 341) } := by
  have hpre : q.region.prerenderRow.toNat ≤ 311 := by cases q.region <;> decide
  have hd : q.dot.toNat = n % 341 := by rw [hdot, toNat_ofNat_dot (by omega)]
  have hp : q.onPrerender = false := by
    have : q.row ≠ q.region.prerenderRow := fun e => by
      have := congrArg UInt16.toNat e
      rw [hrow, toNat_ofNat_dot (by omega)] at this
      omega
    simp [onPrerender, this]
  have hlast : q.dot = lastDot ↔ n % 341 = 340 := by
    rw [← UInt16.toNat_inj, hd]
    rfl
  unfold nextDot
  simp only [hp, Bool.and_false, Bool.or_false, decide_eq_true_eq, hlast]
  by_cases h : n % 341 = 340
  · have h1 : (n + 1) / 341 = n / 341 + 1 := by omega
    have h2 : (n + 1) % 341 = 0 := by omega
    rw [if_pos h, h1, h2, UInt16.ofNat_add, hrow]
    rfl
  · have h1 : (n + 1) / 341 = n / 341 := by omega
    have h2 : (n + 1) % 341 = n % 341 + 1 := by omega
    rw [if_neg h, h1, h2, UInt16.ofNat_add, hdot, ← hrow]
    rfl

/-- While it warms up, the unit only counts. -/
theorem after_warmUp (region : Region) (cart : Nat → γ) (n : Nat) (hn : n ≤ region.warmUpDots) :
    (new region).after cart (n + 1) =
      { idleAt region n with
        warmingUp := n ≠ region.warmUpDots
        warmUpCount := if n = region.warmUpDots then 0 else n + 1 } := by
  have hrows (m : Nat) (hm : m ≤ region.warmUpDots) : m / 341 < region.prerenderRow.toNat := by
    cases region with
    | ntsc =>
      have : m ≤ 88974 := hm
      show m / 341 < 261
      omega
    | pal =>
      have : m ≤ 106022 := hm
      show m / 341 < 311
      omega
  have counts (q : Picture) (hq : q.warmUpCount ≠ q.region.warmUpDots) :
      q.warmUp = { q with warmUpCount := q.warmUpCount + 1 } := if_neg hq
  induction n with
  | zero =>
    have hz : 0 ≠ region.warmUpDots := by cases region <;> decide
    have hd : (new region).nextDot = { new region with dot := 0 } := by
      have : (0xFFFF : UInt16) ≠ lastDot ∧ (0xFFFF : UInt16) ≠ lastDot - 1 := by decide
      simp [nextDot, new, this]
    rw [after_succ, after, tick_warmingUp _ _ rfl, hd, counts _ hz, if_neg hz, decide_eq_true hz]
    rfl
  | succ n ih =>
    have hne : n ≠ region.warmUpDots := by omega
    have ih := ih (by omega)
    rw [if_neg hne] at ih
    rw [after_succ, ih, tick_warmingUp _ _ (decide_eq_true hne),
      idle_nextDot _ rfl rfl (hrows n (by omega))]
    by_cases h : n + 1 = region.warmUpDots
    · rw [if_pos h, decide_eq_false (not_not_intro h)]
      exact if_pos h
    · rw [counts _ h, if_neg h, decide_eq_true h, decide_eq_true hne]
      rfl

/-- Below vertical blank nothing happens up to the row before the first. -/
theorem after_idle (region : Region) (cart : Nat → γ) (n m : Nat)
    (hv : region.vblankRow.toNat < n / 341) (hm : n + m ≤ 341 * region.prerenderRow.toNat) :
    (idleAt region n).after cart m = idleAt region (n + m) := by
  have hpre : region.prerenderRow.toNat ≤ 311 := by cases region <;> decide
  have hvisible : 240 ≤ region.vblankRow.toNat := by cases region <;> decide
  induction m with
  | zero => rfl
  | succ m ih =>
    have hnext := idle_nextDot (idleAt region (n + m)) rfl rfl
      (show (n + m) / 341 < region.prerenderRow.toNat by omega)
    have hrow : (UInt16.ofNat ((n + m + 1) / 341)).toNat = (n + m + 1) / 341 :=
      toNat_ofNat_dot (by omega)
    have ne (r : UInt16) (h : r.toNat < (n + m + 1) / 341) : UInt16.ofNat ((n + m + 1) / 341) ≠ r :=
      fun e => by rw [← e, hrow] at h; exact Nat.lt_irrefl _ h
    have ha : (idleAt region (n + m + 1)).arrive = idleAt region (n + m + 1) := by
      have h1 := ne region.vblankRow (by omega)
      have h2 := ne 0 (show 0 < _ by omega)
      simp [arrive, enteredVblank, beginFirstRow, idleAt, new, h1, h2]
    have hw : (idleAt region (n + m + 1)).atWork = false := by
      refine Bool.eq_false_iff.mpr fun hwork => ?_
      simp only [atWork, Bool.and_eq_true, bne_iff_ne, ne_eq, Bool.or_eq_true, decide_eq_true_eq] at hwork
      obtain ⟨hdot, hseen | hlast⟩ := hwork
      · have h240 : (n + m + 1) / 341 < 240 := by
          rw [← hrow]
          exact hseen
        omega
      · -- The first dot of the row before the first is the last that nothing happens on.
        have hrow' : (n + m + 1) / 341 = region.prerenderRow.toNat := by
          rw [← hrow]
          exact congrArg UInt16.toNat (of_decide_eq_true hlast)
        refine hdot ?_
        show UInt16.ofNat ((n + m + 1) % 341) = 0
        rw [show (n + m + 1) % 341 = 0 by omega]
        rfl
    have hq : ({ idleAt region (n + m) with
        row := .ofNat ((n + m + 1) / 341), dot := .ofNat ((n + m + 1) % 341) } : Picture) =
        idleAt region (n + m + 1) := rfl
    rw [after_succ, ih (by omega), tick_eq _ _ rfl, hnext, hq, ha, hw]
    rfl

/-- A unit about to draw its first picture. -/
def warm (region : Region) : Picture :=
  { new region with row := region.prerenderRow, dot := 0, warmingUp := false }

/-- From power-on a unit left alone comes to where its first picture starts. -/
theorem exists_after_warm (cart : Nat → γ) (region : Region) :
    ∃ n, (new region).after cart n = warm region := by
  have hwarm := after_warmUp region cart region.warmUpDots (Nat.le_refl _)
  rw [if_pos rfl, decide_eq_false (not_not_intro rfl)] at hwarm
  refine ⟨region.warmUpDots + 1 + (341 * region.prerenderRow.toNat - region.warmUpDots), ?_⟩
  rw [after_add, hwarm]
  refine (after_idle region _ region.warmUpDots _ ?_ ?_).trans ?_
  · cases region <;> decide
  · cases region <;> decide
  · cases region <;> rfl

/-- The unit that has just warmed up is one that can come about. -/
theorem reachable_warm (cart : Nat → γ) (region : Region) : Reachable γ (warm region) := by
  obtain ⟨n, hn⟩ := exists_after_warm cart region
  rw [← hn]
  exact (Reachable.new region).after cart n

end Picture

end Famicom
