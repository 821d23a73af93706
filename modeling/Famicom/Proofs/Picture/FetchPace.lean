/-
  The pace of the sprite fetches, and the room they need.

  A row fetches its sprites on dots 261, 269, …, 317.  Which sprite is next the unit does not read off
  the dot: it counts, and the count goes back to zero on dot 257 of a row that takes part in drawing.
  So there is room for the next sprite as long as the count is not ahead of the dot.

  1. **Tally** — the three numbers by which the unit goes into its memories: the next sprite to fetch,
     the sprites of the row, the bytes that the search has copied.  What each part of a dot does to them
     is said once; the rest of an index comes from the dot or is masked.
  2. **Pace** — `due d` sprites are fetched by the end of dot `d`.  `Paced` says that the count is not
     ahead of that where sprites are fetched, and that the tally fits.
  3. **Step** — a paced unit goes through a dot without a fault and is paced again (`Paced.tick`); the
     registers do not reach what pace is about (`Paced.read`, `Paced.write`).
  4. **Ahead** — a unit that draws and whose count is ahead of the dot comes to a sprite there is no
     room for before the row is over (`Ahead.exists_fault`).
-/
import Famicom.Proofs.Picture.Reachable
import Famicom.Proofs.Picture.SpriteSearch

namespace Famicom

/-- How far a picture unit has got with its sprites. -/
structure Tally where
  /-- The next sprite to fetch. -/
  next : UInt8
  /-- The sprites of the row. -/
  count : UInt8
  /-- The bytes copied for the next row. -/
  copied : UInt8

/-- There is room for as many: eight sprites, of four bytes each. -/
structure Tally.Fits (t : Tally) : Prop where
  next : t.next.toNat ≤ 8
  count : t.count.toNat ≤ 8
  copied : t.copied.toNat ≤ 32

namespace Picture

/-- The tally of a picture unit. -/
def tally (p : Picture) : Tally where
  next := p.sprites.next
  count := p.sprites.count
  copied := p.evaluation.copied

/-- The sprites that a row has fetched by the end of a dot. -/
def due (d : Nat) : Nat := (d - 253) / 8

/-- One more is due on every dot that fetches. -/
theorem due_succ {d : Nat} (h : 256 ≤ d) :
    due (d + 1) = if (d + 1 - 257) % 8 = 4 then due d + 1 else due d := by
  have hdue (n : Nat) : due n = (n - 253) / 8 := rfl
  rw [hdue, hdue]
  split <;> omega

/-- Before the last of the sprite dots fewer than eight sprites are due. -/
theorem due_lt {d : Nat} (h : d < 317) : due d < 8 := by
  unfold due
  omega

variable {γ : Type} [Cartridge γ] {p : Picture} {d : Nat}

/-! ## What each part of a dot does to the tally -/

/-- A background fetch copies no sprite and fetches none. -/
theorem fetchBackground_tally (p : Picture) (c : γ) : (p.fetchBackground c).1.tally = p.tally := by
  unfold fetchBackground
  split
  · rfl
  · split
    · rfl
    · split <;> rfl

theorem advance_tally (p : Picture) : p.advance.tally = p.tally := by
  unfold advance
  split <;> rfl

/-- What a drawing dot does first concerns no sprite. -/
theorem fetched_tally (p : Picture) (c : γ) : (p.fetched c).tally = p.tally :=
  (advance_tally _).trans (fetchBackground_tally p c)

theorem showPixel_tally (p : Picture) : p.showPixel.tally = p.tally := by
  obtain ⟨f, hit, hdraw⟩ := drawPixel_shape p
  rw [showPixel, hdraw]
  rfl

theorem beginPicture_tally (p : Picture) : p.beginPicture.tally = p.tally := by
  unfold beginPicture
  dsimp only
  split <;> split <;> rfl

theorem turnPicture_tally (p : Picture) : p.turnPicture.tally = p.tally := by
  unfold turnPicture
  split <;> rfl

theorem prefetchDot_tally (p : Picture) (c : γ) : (p.prefetchDot c).1.tally = p.tally := by
  have hf := fetchBackground_tally p c
  unfold prefetchDot
  dsimp only
  split
  · exact hf
  · split
    · exact hf
    · split <;> exact hf

theorem idleDot_tally (p : Picture) (c : γ) : (p.idleDot c).1.tally = p.tally := by
  unfold idleDot
  split <;> rfl

/-- A copy into a free place leaves the count within the room. -/
theorem afterCopy_copied {e : Evaluation} (h : e.copied.toNat < 32) :
    e.afterCopy.copied.toNat ≤ 32 := by
  have hadd : (e.copied + 1).toNat ≤ 32 := by
    rw [UInt8.toNat_add]
    show (_ + 1) % 256 ≤ _
    omega
  unfold Evaluation.afterCopy
  split
  · dsimp only
    split
    · rw [nextSpriteOrEnd_copied]
      exact hadd
    · exact hadd
  · rw [nextSpriteOrEnd_copied]
    exact Nat.le_of_lt h

/-- Looking at a byte keeps the count of copied bytes within the room. -/
theorem evaluateByte_fits (h : p.tally.Fits) : p.evaluateByte.tally.Fits := by
  unfold evaluateByte
  dsimp only
  split
  · exact h
  · split
    · next hlt => exact ⟨h.next, h.count, afterCopy_copied hlt⟩
    · refine ⟨h.next, h.count, ?_⟩
      show (Evaluation.afterFull _).copied.toNat ≤ 32
      rw [(afterFull_kept _).1]
      exact h.copied

/-- So does the beginning or the end of a search. -/
theorem boundSearch_fits (h : p.tally.Fits) : p.boundSearch.tally.Fits := by
  unfold boundSearch
  split
  · exact ⟨h.next, h.count, Nat.zero_le 32⟩
  · split
    · refine ⟨h.next, ?_, h.copied⟩
      have hcopied : p.evaluation.copied.toNat ≤ 32 := h.copied
      show (p.evaluation.copied >>> (2 : UInt8)).toNat ≤ 8
      rw [UInt8.toNat_shiftRight, Nat.shiftRight_eq_div_pow]
      show _ / 4 ≤ 8
      omega
    · exact h

/-- A step of the search copies no more than there is room for. -/
theorem evaluateSprites_fits (h : p.tally.Fits) : p.evaluateSprites.tally.Fits := by
  rw [evaluateSprites_eq]
  split
  · exact h
  · split
    · exact h
    · unfold stepSearch
      split
      · exact boundSearch_fits h
      · exact evaluateByte_fits (boundSearch_fits h)

/-- A dot of the visible part of a row keeps it as well. -/
theorem pixelDot_fits (h : p.tally.Fits) (c : γ) : (p.pixelDot c).1.tally.Fits := by
  rw [← fetched_tally p c] at h
  rw [pixelDot_fst]
  split
  · split
    · rw [beginPicture_tally]
      exact h
    · exact h
  · refine evaluateSprites_fits ?_
    rw [showPixel_tally]
    exact h

/-- Dot 257 is where the fetches begin with the first sprite again. -/
theorem turnRow_tally (hd : d ≤ 341) (hdot : p.dot = .ofNat d) :
    p.turnRow.tally = if d = 257 then { p.tally with next := 0 } else p.tally := by
  have h257 : p.dot = 257 ↔ d = 257 := by
    rw [← UInt16.toNat_inj, hdot, toNat_ofNat_dot hd]
    rfl
  unfold turnRow
  by_cases h : d = 257
  · rw [if_pos (h257.mpr h), if_pos h]
    rfl
  · rw [if_neg (mt h257.mp h), if_neg h]

/-- A fetch moves on among the sprites and copies nothing. -/
theorem fetchSprite_tally (p : Picture) (c : γ) :
    (p.fetchSprite c).2.1.tally = { p.tally with next := (p.fetchSprite c).2.1.sprites.next } := by
  unfold fetchSprite
  split
  · dsimp only
    split <;> rfl
  · rfl

/-! ## A dot on which sprites are fetched

  Of every eight dots one goes on to the next sprite, so after so many dots so many sprites are fetched
  at most; the dots of a row are over before a ninth would be. -/

/-- The unit as it fetches, after the count has gone back to zero or not. -/
theorem spriteDot_eq (h1 : 257 ≤ d) (h2 : d ≤ 320) (hdot : p.dot = .ofNat d)
    (hr : p.rendering = true) (c : γ) :
    ∃ q : Picture, q.tally = p.turnRow.tally ∧
      (p.spriteDot c).1 = (if (d - 257) % 8 = 4 then (q.fetchSprite c).1 else .ok ()) ∧
      (p.spriteDot c).2.1.tally =
        (if (d - 257) % 8 = 4 then (q.fetchSprite c).2.1 else q).tally := by
  have ho := turnRow_outline p
  have hrow : p.turnRow.rendering = true := (congrArg Outline.rendering ho).trans hr
  have hd : p.turnRow.dot = .ofNat d := (congrArg Outline.dot ho).trans hdot
  obtain ⟨hok, hstate⟩ := spriteDot_of_rendering p c hrow
  obtain ⟨hfok, hfstate⟩ := spriteFetches_eq { p.turnRow with oamAddr := 0 } h1 h2 hd c
  refine ⟨{ p.turnRow with oamAddr := 0 }, rfl, hok.trans hfok, ?_⟩
  rw [hstate, turnPicture_tally, hfstate]

/-- A dot of the sprite fetches finds its sprite, and is no further than the dots allow. -/
theorem spriteDot_fits (h : p.tally.Fits) (h1 : 257 ≤ d) (h2 : d ≤ 320) (hdot : p.dot = .ofNat d)
    (hn : d = 257 ∨ p.sprites.next.toNat ≤ due (d - 1)) (c : γ) :
    (p.spriteDot c).1 = .ok () ∧ (p.spriteDot c).2.1.tally.Fits ∧
      (p.spriteDot c).2.1.sprites.next.toNat ≤ due d := by
  have ht := turnRow_tally (p := p) (by omega) hdot
  -- whether the count goes back or not, it is not ahead of the dot before
  have hpace : p.turnRow.tally.Fits ∧ p.turnRow.tally.next.toNat ≤ due (d - 1) := by
    rw [ht]
    split
    · exact ⟨⟨Nat.zero_le 8, h.count, h.copied⟩, Nat.zero_le _⟩
    · next hne => exact ⟨h, hn.resolve_left hne⟩
  have hstep := due_succ (d := d - 1) (by omega)
  rw [Nat.sub_add_cancel (by omega)] at hstep
  have hdue : due (d - 1) ≤ due d := by
    rw [hstep]
    split
    · exact Nat.le_succ _
    · exact Nat.le_refl _
  cases hr : p.rendering with
  | false =>
    have hrow : p.turnRow.rendering = false :=
      (congrArg Outline.rendering (turnRow_outline p)).trans hr
    rw [spriteDot_of_not_rendering p c hrow]
    exact ⟨rfl, hpace.1, Nat.le_trans hpace.2 hdue⟩
  | true =>
    obtain ⟨q, hq, hok, hstate⟩ := spriteDot_eq h1 h2 hdot hr c
    rw [← hq] at hpace
    obtain ⟨hfits, hnext⟩ := hpace
    rw [hok, show (p.spriteDot c).2.1.sprites.next = _ from congrArg Tally.next hstate, hstate]
    by_cases h4 : (d - 257) % 8 = 4
    · have hlt : q.sprites.next.toNat < 8 := Nat.lt_of_le_of_lt hnext (due_lt (by omega))
      obtain ⟨hfine, hadd⟩ := fetchSprite_next hlt c
      have hle : (q.fetchSprite c).2.1.sprites.next.toNat ≤ due d := by
        rw [hadd, hstep, if_pos h4]
        exact Nat.succ_le_succ hnext
      have hroom : (q.fetchSprite c).2.1.sprites.next.toNat ≤ 8 := by
        rw [hadd]
        exact hlt
      rw [if_pos h4, if_pos h4, fetchSprite_tally]
      exact ⟨hfine, ⟨hroom, hfits.count, hfits.copied⟩, hle⟩
    · rw [if_neg h4, if_neg h4]
      exact ⟨rfl, hfits, Nat.le_trans hnext hdue⟩

/-- The unit has no room for the sprite that this dot fetches. -/
theorem spriteDot_full (h1 : 257 < d) (h2 : d ≤ 320) (hdot : p.dot = .ofNat d)
    (hr : p.rendering = true) (hn : p.sprites.next = 8) (h4 : (d - 257) % 8 = 4) (c : γ) :
    (p.spriteDot c).1 = .error .ninthSprite := by
  have ht := turnRow_tally (p := p) (by omega) hdot
  rw [if_neg (by omega)] at ht
  obtain ⟨q, hq, hok, -⟩ := spriteDot_eq (by omega) h2 hdot hr c
  have hnext : q.sprites.next = 8 := (congrArg Tally.next (hq.trans ht)).trans hn
  rw [hok, if_pos h4, fetchSprite, dif_neg (by rw [hnext]; decide)]

/-- A dot on which the unit is at work does not fail where the sprite fetches are in step with the
    dots. -/
theorem drawingDot_fits (h : p.tally.Fits)
    (hn : 257 ≤ p.dot.toNat → p.dot.toNat ≤ 320 →
      p.dot.toNat = 257 ∨ p.sprites.next.toNat ≤ due (p.dot.toNat - 1)) (c : γ) :
    (p.drawingDot c).1 = .ok () ∧ (p.drawingDot c).2.1.tally.Fits ∧
      (257 ≤ p.dot.toNat → p.dot.toNat ≤ 320 →
        (p.drawingDot c).2.1.sprites.next.toNat ≤ due p.dot.toNat) := by
  have hm : ({ p with rendering := p.mask.draws } : Picture).tally.Fits := h
  unfold drawingDot
  dsimp only
  split
  · next h256 =>
    have h256 : p.dot.toNat ≤ 256 := h256
    exact ⟨rfl, pixelDot_fits hm c, fun h1 => absurd h256 (by omega)⟩
  · next h256 =>
    have h256 : ¬ p.dot.toNat ≤ 256 := h256
    split
    · next h320 =>
      have h320 : p.dot.toNat ≤ 320 := h320
      obtain ⟨hok, hfits, hnext⟩ := spriteDot_fits hm (by omega) h320
        (show p.dot = _ from UInt16.ofNat_toNat.symm) (hn (by omega) h320) c
      exact ⟨hok, hfits, fun _ _ => hnext⟩
    · next h320 =>
      have h320 : ¬ p.dot.toNat ≤ 320 := h320
      have later {m : Nat} : 257 ≤ p.dot.toNat → p.dot.toNat ≤ 320 → m ≤ due p.dot.toNat :=
        fun _ hle => absurd hle h320
      split
      · rw [prefetchDot_tally]
        exact ⟨rfl, hm, later⟩
      · split
        · rw [idleDot_tally]
          exact ⟨rfl, hm, later⟩
        · exact ⟨rfl, hm, later⟩

/-! ## From one dot to the next -/

/-- The way to the next dot concerns no sprite. -/
theorem nextDot_tally (p : Picture) : p.nextDot.tally = p.tally := by
  unfold nextDot
  split
  · split <;> rfl
  · rfl

/-- A dot that begins a picture empties the row; else nothing is counted before the drawing. -/
theorem arrive_tally (p : Picture) :
    p.arrive.tally = p.tally ∨ p.arrive.tally = { p.tally with count := 0 } := by
  have hv : p.beginVblank.tally = p.tally := by
    unfold beginVblank
    split <;> rfl
  have hb (q : Picture) : q.beginFirstRow.tally = q.tally ∨
      q.beginFirstRow.tally = { q.tally with count := 0 } := by
    unfold beginFirstRow
    split
    · exact .inr rfl
    · exact .inl rfl
  unfold arrive
  split
  · rw [← hv]
    exact hb _
  · exact hb p

theorem arrive_fits (h : p.tally.Fits) : p.arrive.tally.Fits := by
  rcases arrive_tally p with hs | hs
  · rw [hs]
    exact h
  · rw [hs]
    exact ⟨h.next, Nat.zero_le 8, h.copied⟩

theorem arrive_next (p : Picture) : p.arrive.sprites.next = p.sprites.next := by
  rcases arrive_tally p with hs | hs
  · exact congrArg Tally.next hs
  · exact congrArg Tally.next hs

/-- But at its end a row only moves on. -/
theorem nextDot_of_dot_ne (h : p.nextDot.dot ≠ 0) : p.nextDot = p.moveTo (p.dot.toNat + 1) := by
  have hone : UInt16.ofNat (p.dot.toNat + 1) = p.dot + 1 := by
    rw [UInt16.ofNat_add, UInt16.ofNat_toNat]
    rfl
  unfold nextDot at h ⊢
  split
  · next hlast =>
    rw [if_pos hlast] at h
    exact absurd (by split <;> rfl) h
  · rw [moveTo, hone]

/-- Up to dot 338 the unit moves one dot on. -/
theorem nextDot_of_lt (h : p.dot.toNat < 339) : p.nextDot = p.moveTo (p.dot.toNat + 1) := by
  have h1 : p.dot ≠ lastDot := fun e => by
    rw [e] at h
    exact absurd h (by decide)
  have h2 : p.dot ≠ lastDot - 1 := fun e => by
    rw [e] at h
    exact absurd h (by decide)
  have hstay : p.nextDot = { p with dot := p.dot + 1 } := by simp [nextDot, h1, h2]
  refine nextDot_of_dot_ne fun e => ?_
  rw [hstay] at e
  have e : (p.dot + 1).toNat = 0 := congrArg UInt16.toNat e
  rw [UInt16.toNat_add] at e
  have e : (p.dot.toNat + 1) % 65536 = 0 := e
  omega

/-- The row stays one that the region has. -/
theorem nextDot_row (h : p.row.toNat ≤ p.region.prerenderRow.toNat) :
    p.nextDot.row.toNat ≤ p.nextDot.region.prerenderRow.toNat := by
  have hpre : p.region.prerenderRow.toNat ≤ 311 := by cases p.region <;> decide
  unfold nextDot
  split
  · split
    · exact Nat.zero_le _
    · next hp =>
      have hne : p.row.toNat ≠ p.region.prerenderRow.toNat := fun e =>
        hp (decide_eq_true (UInt16.toNat_inj.mp e))
      show (p.row + 1).toNat ≤ p.region.prerenderRow.toNat
      rw [UInt16.toNat_add]
      show (_ + 1) % 65536 ≤ _
      omega
  · exact h

/-- Coming to a row does not decide whether there is work on this dot. -/
theorem arrive_atWork (p : Picture) : p.arrive.atWork = p.atWork := by
  have ha := arrive_outline p
  rw [atWork, onPrerender, show p.arrive.dot = p.dot from congrArg Outline.dot ha,
    show p.arrive.row = p.row from congrArg Outline.row ha,
    show p.arrive.region = p.region from congrArg (·.settings.region) ha]
  rfl

/-- There is work on every dot of a drawn row but the first. -/
theorem atWork_iff : p.atWork = true ↔ p.dot ≠ 0 ∧ p.onDrawnRow = true := by
  rw [atWork, onDrawnRow, Bool.and_eq_true, bne_iff_ne]

/-- On a dot on which it draws, the unit has moved along its row. -/
theorem tick_atWork (hw : p.warmingUp = false) (h : p.nextDot.atWork = true) (c : γ) :
    p.nextDot = p.moveTo (p.dot.toNat + 1) ∧ p.onDrawnRow = true ∧
      p.tick c = p.nextDot.drawingDot c := by
  obtain ⟨hdot, hrow⟩ := atWork_iff.mp h
  have hnext := nextDot_of_dot_ne hdot
  refine ⟨hnext, ?_, ?_⟩
  · rw [hnext] at hrow
    exact hrow
  · rw [tick_eq p c hw, arrive_of_drawnRow _ hrow hdot, if_pos h]

/-- On any other dot nothing is drawn. -/
theorem tick_at_rest (hw : p.warmingUp = false) (h : p.nextDot.atWork = false) (c : γ) :
    p.tick c = (.ok (), { p.nextDot.arrive with rendering := false }, c) := by
  rw [tick_eq p c hw, arrive_atWork, h]
  rfl

/-- Where a dot leaves a unit that is warm. -/
theorem tick_place (hw : p.warmingUp = false) (c : γ) :
    (p.tick c).2.1.warmingUp = false ∧ (p.tick c).2.1.region = p.nextDot.region ∧
      (p.tick c).2.1.row = p.nextDot.row ∧ (p.tick c).2.1.dot = p.nextDot.dot := by
  have ho := tick_outline p c hw
  refine ⟨?_, congrArg (·.settings.region) ho, congrArg Outline.row ho, congrArg Outline.dot ho⟩
  exact (congrArg (·.settings.warmingUp) ho).trans ((nextDot_warmingUp p).trans hw)

/-! ## A unit that keeps pace -/

/-- The count of fetched sprites is not ahead of the dot, and no number leads out of a memory. -/
structure Paced (p : Picture) : Prop where
  /-- Until the unit is warm no sprite is fetched. -/
  cold : p.warmingUp = true → p.sprites.next = 0
  row : p.row.toNat ≤ p.region.prerenderRow.toNat
  fits : p.tally.Fits
  onTime : p.onDrawnRow = true → 257 ≤ p.dot.toNat → p.dot.toNat ≤ 320 →
    p.sprites.next.toNat ≤ due p.dot.toNat

namespace Paced

/-- Before any sprite is fetched the count is ahead of nothing. -/
theorem of_zero (hrow : p.row.toNat ≤ p.region.prerenderRow.toNat) (hfits : p.tally.Fits)
    (hn : p.sprites.next = 0) : Paced p :=
  ⟨fun _ => hn, hrow, hfits, fun _ _ _ => by rw [hn]; exact Nat.zero_le _⟩

/-- A new unit is in step. -/
theorem new (region : Region) : Paced (new region) :=
  of_zero (Nat.zero_le _) ⟨Nat.zero_le 8, Nat.zero_le 8, Nat.zero_le 32⟩ rfl

/-- A unit in step has its counts within the room when it comes to the next dot. -/
theorem nextDot_fits (h : Paced p) : p.nextDot.tally.Fits := by
  rw [nextDot_tally]
  exact h.fits

/-- A cold unit stays in step. -/
theorem warmUp (h : Paced p) (hw : p.warmingUp = true) : Paced p.nextDot.warmUp := by
  have hrow := nextDot_row h.row
  have hn : p.nextDot.sprites.next = 0 :=
    (congrArg Tally.next (nextDot_tally p)).trans (h.cold hw)
  unfold Picture.warmUp
  split <;> exact of_zero hrow h.nextDot_fits hn

/-- Moved along its row, the unit is on time for the dot, or its count is about to go back. -/
theorem nextDot_onTime (h : Paced p) (hdrawn : p.onDrawnRow = true)
    (hnext : p.nextDot = p.moveTo (p.dot.toNat + 1)) (h1 : 257 ≤ p.nextDot.dot.toNat)
    (h2 : p.nextDot.dot.toNat ≤ 320) :
    p.nextDot.dot.toNat = 257 ∨ p.nextDot.sprites.next.toNat ≤ due (p.nextDot.dot.toNat - 1) := by
  have hlt := p.dot.toNat_lt
  have hs : p.nextDot.sprites.next = p.sprites.next := congrArg Tally.next (nextDot_tally p)
  have hd : p.nextDot.dot.toNat = (p.dot.toNat + 1) % 65536 := by
    rw [hnext]
    exact UInt16.toNat_ofNat'
  by_cases h257 : p.nextDot.dot.toNat = 257
  · exact .inl h257
  · refine .inr ?_
    rw [hs, show p.nextDot.dot.toNat - 1 = p.dot.toNat by omega]
    exact h.onTime hdrawn (by omega) (by omega)

/-- A dot goes through without a fault and keeps the pace. -/
theorem tick (h : Paced p) (c : γ) : (p.tick c).1 = .ok () ∧ Paced (p.tick c).2.1 := by
  cases hw : p.warmingUp with
  | true =>
    rw [tick_warmingUp p c hw]
    exact ⟨rfl, h.warmUp hw⟩
  | false =>
    obtain ⟨hwarm, hregion, hrow, hdot⟩ := tick_place hw c
    have cold : (p.tick c).2.1.warmingUp = true → (p.tick c).2.1.sprites.next = 0 := fun hc => by
      rw [hwarm] at hc
      cases hc
    have row : (p.tick c).2.1.row.toNat ≤ (p.tick c).2.1.region.prerenderRow.toNat := by
      rw [hrow, hregion]
      exact nextDot_row h.row
    cases hwork : p.nextDot.atWork with
    | true =>
      obtain ⟨hnext, hdrawn, htick⟩ := tick_atWork hw hwork c
      obtain ⟨hok, hfits, htime⟩ := drawingDot_fits h.nextDot_fits (h.nextDot_onTime hdrawn hnext) c
      rw [← htick] at hok hfits htime
      rw [← hdot] at htime
      exact ⟨hok, cold, row, hfits, fun _ => htime⟩
    | false =>
      have htick := tick_at_rest hw hwork c
      have hsame : (p.tick c).2.1.tally = p.nextDot.arrive.tally := congrArg (·.2.1.tally) htick
      have hfits : (p.tick c).2.1.tally.Fits := by
        rw [hsame]
        exact arrive_fits h.nextDot_fits
      refine ⟨congrArg Prod.fst htick, cold, row, hfits, fun hd h1 _ => ?_⟩
      -- on a row that takes part in drawing the unit would have been at work
      rw [hdot] at h1
      rw [onDrawnRow, onPrerender, hrow, hregion] at hd
      have hz : p.nextDot.dot ≠ 0 := fun e => by
        rw [e] at h1
        exact absurd h1 (by decide)
      rw [atWork_iff.mpr ⟨hz, hd⟩] at hwork
      cases hwork

end Paced

/-! ## The registers -/

/-- What pace is about, the search apart: the registers do not reach it. -/
structure Standing where
  region : Region
  row : UInt16
  dot : UInt16
  warmingUp : Bool
  sprites : SpriteLine

/-- The standing of a picture unit. -/
def standing (p : Picture) : Standing where
  region := p.region
  row := p.row
  dot := p.dot
  warmingUp := p.warmingUp
  sprites := p.sprites

/-- A unit of the same standing keeps pace as well. -/
theorem Paced.congr {q : Picture} (h : Paced p) (hs : q.standing = p.standing)
    (hc : q.evaluation.copied.toNat ≤ 32) : Paced q := by
  have region : q.region = p.region := congrArg Standing.region hs
  have row : q.row = p.row := congrArg Standing.row hs
  have dot : q.dot = p.dot := congrArg Standing.dot hs
  have warmingUp : q.warmingUp = p.warmingUp := congrArg Standing.warmingUp hs
  have sprites : q.sprites = p.sprites := congrArg Standing.sprites hs
  refine ⟨?_, ?_, ⟨?_, ?_, hc⟩, ?_⟩
  · rw [warmingUp, sprites]
    exact h.cold
  · rw [row, region]
    exact h.row
  · show q.sprites.next.toNat ≤ 8
    rw [sprites]
    exact h.fits.next
  · show q.sprites.count.toNat ≤ 8
    rw [sprites]
    exact h.fits.count
  · rw [onDrawnRow, onPrerender, row, region, dot, sprites]
    exact h.onTime

/-- What holds of 64 numbers holds of the dots on which sprites are fetched, counted from 0. -/
theorem forall_fetching {P : UInt16 → Prop} (h : ∀ n : Fin 64, P (UInt16.ofNat n)) {dot : UInt16}
    (h1 : 257 ≤ dot) (h2 : dot ≤ 320) : P (dot - 257) := by
  have hlt : (dot - 257).toNat < 64 := by
    have h2' : dot.toNat ≤ 320 := h2
    rw [UInt16.toNat_sub_of_le _ _ h1]
    show dot.toNat - 257 < 64
    omega
  have hn := h ⟨(dot - 257).toNat, hlt⟩
  rwa [show UInt16.ofNat (⟨(dot - 257).toNat, hlt⟩ : Fin 64) = dot - 257 from UInt16.ofNat_toNat] at hn

/-- The byte of the sprites found that a read of sprite memory shows on a dot that fetches. -/
theorem shownByte_lt {dot : UInt16} (h1 : 257 ≤ dot) (h2 : dot ≤ 320) :
    (((dot - 257) >>> (3 : UInt16)) * 4 + min ((dot - 257) &&& 7) 3).toUInt8.toNat < 32 :=
  forall_fetching (P := fun e => ((e >>> (3 : UInt16)) * 4 + min (e &&& 7) 3).toUInt8.toNat < 32)
    (by decide +kernel) h1 h2

/-- Reading sprite memory moves nothing that the pace depends on. -/
theorem readSprites_standing (p : Picture) :
    p.readSprites.standing = p.standing ∧
      (p.evaluation.copied.toNat ≤ 32 → p.readSprites.evaluation.copied.toNat ≤ 32) := by
  unfold readSprites
  dsimp only
  split
  · split
    · next hdot =>
      rw [Bool.and_eq_true, decide_eq_true_eq, decide_eq_true_eq] at hdot
      exact ⟨rfl, fun _ => Nat.le_of_lt (shownByte_lt hdot.1 hdot.2)⟩
    · exact ⟨rfl, id⟩
  · exact ⟨rfl, id⟩

/-- Neither does any other register that is read. -/
theorem readRegister_standing (p : Picture) (c : γ) (addr : UInt16) :
    (p.readRegister c addr).2.1.standing = p.standing ∧
      (p.evaluation.copied.toNat ≤ 32 →
        (p.readRegister c addr).2.1.evaluation.copied.toNat ≤ 32) := by
  unfold readRegister
  dsimp only
  split
  · exact ⟨rfl, id⟩
  · exact readSprites_standing p
  · exact ⟨rfl, id⟩
  · exact ⟨rfl, id⟩

/-- Nor one that is written. -/
theorem writeRegister_standing (p : Picture) (c : γ) (addr : UInt16) (data : UInt8) :
    (p.writeRegister c addr data).1.standing = p.standing ∧
      (p.writeRegister c addr data).1.evaluation = p.evaluation := by
  unfold writeRegister
  dsimp only
  split
  · split <;> exact ⟨rfl, rfl⟩
  · split <;> exact ⟨rfl, rfl⟩
  · exact ⟨rfl, rfl⟩
  · unfold writeSprites
    split <;> exact ⟨rfl, rfl⟩
  · split <;> exact ⟨rfl, rfl⟩
  · split <;> exact ⟨rfl, rfl⟩
  · unfold writeData
    dsimp only
    split <;> exact ⟨rfl, rfl⟩
  · exact ⟨rfl, rfl⟩

/-- So a unit stays in step while its registers are read. -/
theorem Paced.read (h : Paced p) (c : γ) (addr : UInt16) : Paced (p.readRegister c addr).2.1 := by
  obtain ⟨hs, hc⟩ := readRegister_standing p c addr
  exact h.congr hs (hc h.fits.copied)

/-- And while they are written. -/
theorem Paced.write (h : Paced p) (c : γ) (addr : UInt16) (data : UInt8) :
    Paced (p.writeRegister c addr data).1 := by
  obtain ⟨hs, he⟩ := writeRegister_standing p c addr data
  refine h.congr hs ?_
  rw [he]
  exact h.fits.copied

/-! ## The dots that fetch -/

/-- The unit draws, and the dot after the one it stands on is one of those that fetch sprites. -/
structure Fetching (p : Picture) (d : Nat) : Prop where
  warm : p.warmingUp = false
  draws : p.mask.draws = true
  drawnRow : p.onDrawnRow = true
  dot : p.dot = .ofNat d
  lower : 256 ≤ d
  upper : d < 320

/-- On its way along the row the unit works on the next dot. -/
theorem Fetching.tick_eq (h : Fetching p d) (c : γ) :
    p.nextDot = p.moveTo (d + 1) ∧ p.tick c = (p.onDot (d + 1)).spriteDot c := by
  have hlow := h.lower
  have hup := h.upper
  have hn : p.dot.toNat = d := by rw [h.dot, toNat_ofNat_dot (by omega)]
  have hnz : (UInt16.ofNat (d + 1)).toNat = d + 1 := toNat_ofNat_dot (by omega)
  have hnext : p.nextDot = p.moveTo (d + 1) := by
    rw [← hn]
    exact nextDot_of_lt (by omega)
  have hwork : p.nextDot.atWork = true := by
    rw [hnext]
    refine atWork_iff.mpr ⟨fun e => ?_, h.drawnRow⟩
    have e : (UInt16.ofNat (d + 1)).toNat = 0 := congrArg UInt16.toNat e
    omega
  have hdraws : ({ p.moveTo (d + 1) with rendering := (p.moveTo (d + 1)).mask.draws } : Picture) =
      p.onDot (d + 1) := by
    rw [show (p.moveTo (d + 1)).mask.draws = true from h.draws]
    rfl
  have h256 : ¬ (p.onDot (d + 1)).dot ≤ 256 := fun hle => by
    have hle : (UInt16.ofNat (d + 1)).toNat ≤ 256 := hle
    omega
  have h320 : (p.onDot (d + 1)).dot ≤ 320 := by
    show (UInt16.ofNat (d + 1)).toNat ≤ 320
    omega
  refine ⟨hnext, ?_⟩
  rw [(tick_atWork h.warm hwork c).2.2, hnext, drawingDot, hdraws, if_neg h256, if_pos h320]

/-! ## A unit that is ahead of the dot -/

/-- The unit draws, stands on dot `d`, and has fetched more sprites than are due by then. -/
structure Ahead (p : Picture) (d : Nat) : Prop where
  warm : p.warmingUp = false
  draws : p.mask.draws = true
  drawnRow : p.onDrawnRow = true
  dot : p.dot = .ofNat d
  lower : 257 ≤ d
  upper : d ≤ 316
  early : due d < p.sprites.next.toNat
  room : p.sprites.next.toNat ≤ 8

namespace Ahead

/-- On its way along the row the unit works on the next dot. -/
theorem tick_eq (h : Ahead p d) (c : γ) :
    p.nextDot = p.moveTo (d + 1) ∧ p.tick c = (p.onDot (d + 1)).spriteDot c := by
  have hlow := h.lower
  have hup := h.upper
  exact Fetching.tick_eq ⟨h.warm, h.draws, h.drawnRow, h.dot, by omega, by omega⟩ c

/-- A dot finds no room, or leaves the unit ahead. -/
theorem next (h : Ahead p d) (c : γ) :
    (p.tick c).1 = .error .ninthSprite ∨ Ahead (p.tick c).2.1 (d + 1) := by
  have hlow := h.lower
  have hup := h.upper
  have hearly := h.early
  have hroom := h.room
  obtain ⟨hnext, htick⟩ := h.tick_eq c
  have full (h4 : (d + 1 - 257) % 8 = 4) (h8 : p.sprites.next.toNat = 8) :
      (p.tick c).1 = .error .ninthSprite := by
    rw [htick]
    exact spriteDot_full (p := p.onDot (d + 1)) (by omega) (by omega) rfl rfl
      (UInt8.toNat_inj.mp h8) h4 c
  obtain ⟨q, hq, -, hstate⟩ :=
    spriteDot_eq (p := p.onDot (d + 1)) (d := d + 1) (by omega) (by omega) rfl rfl c
  rw [turnRow_tally (by omega) rfl, if_neg (by omega)] at hq
  have hqn : q.sprites.next = p.sprites.next := congrArg Tally.next hq
  rw [← htick] at hstate
  obtain ⟨hwarm, hregion, hrow, hdot⟩ := tick_place h.warm c
  have hmask : (p.tick c).2.1.mask = p.mask :=
    (congrArg (·.settings.mask) (tick_outline p c h.warm)).trans (nextDot_mask p)
  have hdrawn : (p.tick c).2.1.onDrawnRow = true := by
    rw [onDrawnRow, onPrerender, hrow, hregion, hnext]
    exact h.drawnRow
  -- what is left is the count: it moves on with what is due, as long as there is room
  have ahead (hup' : d + 1 ≤ 316) (he : due (d + 1) < (p.tick c).2.1.sprites.next.toNat)
      (hr : (p.tick c).2.1.sprites.next.toNat ≤ 8) : Ahead (p.tick c).2.1 (d + 1) :=
    ⟨hwarm, by rw [hmask]; exact h.draws, hdrawn, by rw [hdot, hnext]; rfl, by omega, hup', he, hr⟩
  by_cases h4 : (d + 1 - 257) % 8 = 4
  · rcases Nat.lt_or_eq_of_le hroom with hlt | h8
    · have hadd := (fetchSprite_next (q := q) (by rw [hqn]; exact hlt) c).2
      rw [if_pos h4] at hstate
      have hcount : (p.tick c).2.1.sprites.next = (q.fetchSprite c).2.1.sprites.next :=
        congrArg Tally.next hstate
      rw [hqn] at hadd
      refine .inr (ahead ?_ ?_ ?_)
      · -- seven are due on dot 316, and as many are fetched at most
        rcases Nat.lt_or_eq_of_le hup with hlt' | rfl
        · exact hlt'
        · have : due 316 = 7 := rfl
          omega
      · rw [hcount, hadd, due_succ (by omega), if_pos h4]
        exact Nat.succ_lt_succ hearly
      · rw [hcount, hadd]
        exact hlt
    · exact .inl (full h4 h8)
  · rw [if_neg h4] at hstate
    have hcount : (p.tick c).2.1.sprites.next = p.sprites.next :=
      (congrArg Tally.next hstate).trans hqn
    refine .inr (ahead (by omega) ?_ ?_)
    · rw [hcount, due_succ (by omega), if_neg h4]
      exact hearly
    · rw [hcount]
      exact hroom

/-- Before the row is over some dot finds no room. -/
theorem exists_fault (h : Ahead p d) (c : γ) :
    ∃ n, ((p.after (fun _ => c) n).tick c).1 = .error .ninthSprite := by
  -- by the dots that are left: on the last of them the count can only be eight
  induction hm : 316 - d generalizing p d with
  | zero =>
    rcases h.next c with hfault | hnext
    · exact ⟨0, hfault⟩
    · have := hnext.upper
      omega
  | succ m ih =>
    rcases h.next c with hfault | hnext
    · exact ⟨0, hfault⟩
    · obtain ⟨n, hn⟩ := ih hnext (by omega)
      refine ⟨1 + n, ?_⟩
      rw [after_add]
      exact hn

end Ahead

end Picture

end Famicom
