/-
  A whole dot and a register access, with every check made.

  The course of a dot is put together from the parts of the two modules before.

  1. **The dots of a row** (`pixelDot_eq`, `spriteDot_eq`, `prefetchDot_eq`, `idleDot_eq`): each kind
     goes through with the answer that the unit itself gives.  For the sprite fetches this is so where
     they do not fail by themselves, and that they do not is what the pace of the unit is for.
  2. **Any dot** (`drawingDot_eq`, `tick_eq`): from a unit that keeps to all its bounds (`Upheld`),
     which every run from power-on does (`upheld_run`).  That there is room for the sprite being
     fetched comes from its pace (`Paced.tick`); of the bounds of the search, that a row can be taken
     up again in the middle with what an earlier one left.
  3. **The registers** (`readRegister_eq`, `writeRegister_eq`): reads and writes of memory leave the
     scroll position within its bits, and the latch shows a byte of the secondary memory that is there.
-/
import Famicom.Proofs.Picture.CheckedSprites

namespace Famicom

namespace Checked

variable {γ : Type} [Cartridge γ]

/-! ## Dots 1 to 256 -/

/-- The first eight dots of the row before the first. -/
def beginPicture (p : Picture) : Option Picture :=
  let p := if p.dot = 1 then { p with vblank := false, spriteHit := false, overflow := false } else p
  if p.rendering && 0x08 ≤ p.oamAddr then do
    let offset ← sub16 p.dot 1
    let value ← cell p.oam ((p.oamAddr &&& 0xF8).toNat + offset.toNat)
    let oam ← put p.oam offset.toNat value
    return { p with oam }
  else some p

/-- Copying sprites at the beginning of a picture stays within sprite memory on its eight dots. -/
theorem beginPicture_eq {p : Picture} (h1 : 1 ≤ p.dot) (h9 : p.dot < 9) :
    beginPicture p = some p.beginPicture := by
  obtain ⟨hoffset, hlt⟩ := Picture.beginOffset_toNat h1 h9
  have hword : (p.dot - 1).toNat = (p.dot - 1).toUInt8.toNat := by
    rw [hoffset, UInt16.toNat_sub_of_le _ _ h1]
    rfl
  unfold beginPicture Picture.beginPicture
  dsimp only
  generalize hq : (if p.dot = 1 then { p with vblank := false, spriteHit := false, overflow := false }
    else p) = q
  have hdot : q.dot = p.dot := by
    rw [← hq]
    split
    · rfl
    · rfl
  rw [← hdot] at h1 hlt hword
  split
  · rw [sub16_one h1]
    show (cell q.oam ((q.oamAddr &&& 0xF8).toNat + (q.dot - 1).toNat) >>= _) = _
    rw [hword, ← Picture.eightAt_toNat _ hlt, cell_eq _ (UInt8.toNat_lt _)]
    show (put q.oam (q.dot - 1).toUInt8.toNat _ >>= _) = _
    rw [put_eq _ (UInt8.toNat_lt _)]
    rfl
  · rfl

/-- The address moves on at the end of a tile. -/
def advance (p : Picture) : Option Picture :=
  if p.rendering && p.dot &&& 7 = 0 then do
    let scroll ← nextColumn p.scroll
    if p.dot = 256 then
      let scroll ← nextRow scroll
      return { p with scroll }
    else return { p with scroll }
  else some p

theorem advance_eq {p : Picture} (h : p.scroll.WellFormed) : advance p = some p.advance := by
  unfold advance Picture.advance
  split
  · rw [nextColumn_eq h]
    show (if p.dot = 256 then _ else _) = _
    split
    · rw [nextRow_eq h.nextColumn]
      rfl
    · rfl
  · rfl

/-- What becomes of the pixel: the row before the first draws none. -/
def workPixel (p : Picture) : Option Picture :=
  if p.onPrerender then if p.dot < 9 then beginPicture p else some p
  else do
    let p ← drawPixel p
    evaluateSprites { p with background := p.background.shift 1 }

/-- A dot of the visible part reads and writes where there is something, on every row that is drawn. -/
theorem workPixel_eq {p : Picture} (h : p.Bounded) (hs : p.scroll.WellFormed) (hf : p.tally.Fits)
    (h1 : 1 ≤ p.dot) (h256 : p.dot ≤ 256) (hrow : p.row < 240 ∨ p.onPrerender = true) :
    workPixel p = some (if p.onPrerender then if p.dot < 9 then p.beginPicture else p
      else p.showPixel.evaluateSprites) := by
  unfold workPixel
  split
  · split
    · next h9 => exact beginPicture_eq h1 h9
    · rfl
  · next hv =>
    have hpos : 1 ≤ p.showPixel.dot := by
      rw [show p.showPixel.dot = p.dot from congrArg Outline.dot (Picture.showPixel_outline p)]
      exact h1
    rw [drawPixel_eq h hs hf h1 h256 (hrow.resolve_right hv)]
    exact evaluateSprites_eq h.showPixel hpos

/-- Dots 1 to 256. -/
def pixelDot (p : Picture) (c : γ) : Option (Picture × γ) := do
  let (p, c) ← fetchBackground p c
  let p ← advance p
  let p ← workPixel p
  return (p, c)

/-- So it does with the background fetch before it. -/
theorem pixelDot_eq {p : Picture} (h : p.Bounded) (hs : p.scroll.WellFormed) (hf : p.tally.Fits)
    (h1 : 1 ≤ p.dot) (h256 : p.dot ≤ 256) (hrow : p.row < 240 ∨ p.onPrerender = true) (c : γ) :
    pixelDot p c = some (p.pixelDot c) := by
  have ho := Picture.fetched_outline p c
  have hdot : (p.fetched c).dot = p.dot := congrArg Outline.dot ho
  have hline : (p.fetched c).row = p.row := congrArg Outline.row ho
  have hon : (p.fetched c).onPrerender = p.onPrerender := by
    rw [Picture.onPrerender, hline,
      show (p.fetched c).region = p.region from congrArg (·.settings.region) ho]
    rfl
  have hfetched : (p.fetchBackground c).1.scroll.WellFormed := Picture.fetchBackground_scroll p c ▸ hs
  have hwork := workPixel_eq (p := p.fetched c) (h.fetched c) (Picture.advance_scroll hfetched)
    (by rw [Picture.fetched_tally]; exact hf) (by rw [hdot]; exact h1) (by rw [hdot]; exact h256)
    (by rw [hline, hon]; exact hrow)
  have hpixel : p.pixelDot c =
      if (p.fetched c).onPrerender then
        (if (p.fetched c).dot < 9 then (p.fetched c).beginPicture else p.fetched c,
          (p.fetchBackground c).2)
      else ((p.fetched c).showPixel.evaluateSprites, (p.fetchBackground c).2) := rfl
  rw [pixelDot, fetchBackground_eq h.background, hpixel]
  show (advance (p.fetchBackground c).1 >>= fun q => workPixel q >>= fun q =>
    some (q, (p.fetchBackground c).2)) = _
  rw [advance_eq hfetched]
  show (workPixel (p.fetched c) >>= fun q => some (q, (p.fetchBackground c).2)) = _
  rw [hwork]
  split
  · rfl
  · rfl

/-! ## Dots 257 to 340 -/

/-- The reads of dots 257 to 320. -/
def spriteFetches (p : Picture) (c : γ) : Option (Picture × γ) := do
  let dot ← sub16 p.dot 257
  match dot &&& 7 with
  | 0 =>
    let (_, c) ← ask c p.scroll.tileAddr
    return (p, c)
  | 2 =>
    let (_, c) ← ask c p.scroll.attributeAddr
    return (p, c)
  | 4 => fetchSprite p c
  | _ => return (p, c)

/-- A sprite is only fetched if there is room. -/
theorem next_lt {p : Picture} {c : γ} (h : (p.fetchSprite c).1 = .ok ()) :
    p.sprites.next.toNat < 8 := by
  refine Decidable.byContradiction fun hfull => ?_
  rw [Picture.fetchSprite, dif_neg hfull] at h
  cases h

/-- On the dots of the sprite fetches only the fetch itself can fail, and where it does not, no other
    place is missed. -/
theorem spriteFetches_eq {p : Picture} (h257 : 257 ≤ p.dot) {c : γ}
    (hok : (p.spriteFetches c).1 = .ok ()) : spriteFetches p c = some (p.spriteFetches c).2 := by
  have hsub : sub16 p.dot 257 = some (p.dot - 257) := need_eq h257 _
  have htile : ask c p.scroll.tileAddr = some _ := need_eq (tileAddr_lt _) _
  have hattributes : ask c p.scroll.attributeAddr = some _ := need_eq (attributeAddr_lt _) _
  rw [spriteFetches, hsub]
  show (match (p.dot - 257) &&& 7 with | 0 => _ | 2 => _ | 4 => _ | _ => _) = _
  split
  · next hdot =>
    rw [htile, Picture.spriteFetches, hdot]
    rfl
  · next hdot =>
    rw [hattributes, Picture.spriteFetches, hdot]
    rfl
  · next hdot =>
    rw [Picture.spriteFetches, hdot] at hok
    rw [Picture.spriteFetches, hdot]
    exact (fetchSprite_eq (next_lt hok) c).2
  · next h0 h2 h4 =>
    rw [Picture.spriteFetches]
    split
    · next hdot => exact (h0 hdot).elim
    · next hdot => exact (h2 hdot).elim
    · next hdot => exact (h4 hdot).elim
    · rfl

/-- Dots 257 to 320. -/
def spriteDot (p : Picture) (c : γ) : Option (Picture × γ) :=
  if !p.turnRow.rendering then some (p.turnRow, c)
  else do
    let (p, c) ← spriteFetches { p.turnRow with oamAddr := 0 } c
    return (p.turnPicture, c)

/-- What the sprite fetches leave of the cartridge is what the dot does. -/
theorem spriteDot_cartridge (p : Picture) (c : γ) (h : p.turnRow.rendering = true) :
    (p.spriteDot c).2.2 = ({ p.turnRow with oamAddr := 0 }.spriteFetches c).2.2 := by
  have e : p.spriteDot c =
      if !p.turnRow.rendering then (Except.ok (), p.turnRow, c)
      else
        let s := { p.turnRow with oamAddr := 0 }.spriteFetches c
        if s.2.1.onPrerender && (280 ≤ s.2.1.dot && s.2.1.dot ≤ 304) then
          (s.1, { s.2.1 with scroll := s.2.1.scroll.restartPicture }, s.2.2)
        else s := rfl
  rw [e, h]
  simp only [Bool.not_true, Bool.false_eq_true, if_false]
  split
  · rfl
  · rfl

/-- The turn of the row before it has no place to miss. -/
theorem spriteDot_eq {p : Picture} (h257 : 257 ≤ p.dot) {c : γ} (hok : (p.spriteDot c).1 = .ok ()) :
    spriteDot p c = some (p.spriteDot c).2 := by
  have hdot : p.turnRow.dot = p.dot := congrArg Outline.dot (Picture.turnRow_outline p)
  cases hr : p.turnRow.rendering with
  | false =>
    rw [Picture.spriteDot_of_not_rendering p c hr, spriteDot, hr]
    rfl
  | true =>
    obtain ⟨hfirst, hpicture⟩ := Picture.spriteDot_of_rendering p c hr
    have hcartridge := spriteDot_cartridge p c hr
    rw [hfirst] at hok
    rw [← hdot] at h257
    have hfetch := spriteFetches_eq (p := { p.turnRow with oamAddr := 0 }) h257 hok
    rw [spriteDot, hr]
    show (spriteFetches { p.turnRow with oamAddr := 0 } c >>= _) = _
    rw [hfetch]
    exact congrArg some (Prod.ext hpicture.symm hcartridge.symm)

/-- Dots 321 to 336. -/
def prefetchDot (p : Picture) (c : γ) : Option (Picture × γ) := do
  let (p, c) ← fetchBackground p c
  if !p.rendering then return (p, c)
  else if p.dot = 321 then
    let buffer ← cell p.secondaryOam 0
    return ({ p with evaluation := { p.evaluation with buffer } }, c)
  else if p.dot &&& 7 = 0 then
    let scroll ← nextColumn p.scroll
    return ({ p with background := p.background.shift 8, scroll }, c)
  else return (p, c)

/-- The prefetch addresses name tables and pattern tables only. -/
theorem prefetchDot_eq {p : Picture} (h : p.background.Bounded) (hs : p.scroll.WellFormed) (c : γ) :
    prefetchDot p c = some (p.prefetchDot c) := by
  have hfetched : (p.fetchBackground c).1.scroll.WellFormed := Picture.fetchBackground_scroll p c ▸ hs
  unfold Picture.prefetchDot
  rw [prefetchDot, fetchBackground_eq h]
  generalize p.fetchBackground c = fetched at hfetched
  obtain ⟨q, c⟩ := fetched
  show (if !q.rendering then _ else _) = some (if !q.rendering then _ else _)
  split
  · rfl
  · split
    · rw [cell_eq _ (by decide)]
      rfl
    · split
      · rw [nextColumn_eq hfetched]
        rfl
      · rfl

/-- Dots 337 and 339. -/
def idleDot (p : Picture) (c : γ) : Option (Picture × γ) :=
  if !p.rendering then some (p, c)
  else do
    let (tile, c) ← ask c p.scroll.tileAddr
    return ({ p with background := { p.background with tileAddr := tile.toUInt16 } }, c)

theorem idleDot_eq (p : Picture) (c : γ) : idleDot p c = some (p.idleDot c) := by
  have htile : ask c p.scroll.tileAddr = some _ := need_eq (tileAddr_lt _) _
  unfold idleDot Picture.idleDot
  rw [htile]
  split
  · rfl
  · rfl

/-! ## A dot -/

/-- A dot of a row that takes part in drawing. -/
def drawingDot (p : Picture) (c : γ) : Option (Picture × γ) :=
  let p := { p with rendering := p.mask.draws }
  if p.dot ≤ 256 then pixelDot p c
  else if p.dot ≤ 320 then spriteDot p c
  else if p.dot ≤ 336 then prefetchDot p c
  else if p.dot = 337 || p.dot = 339 then idleDot p c
  else some (p, c)

/-- Whatever the dot, a unit within its bounds misses no place. -/
theorem drawingDot_eq {p : Picture} (h : p.Bounded) (hs : p.scroll.WellFormed) (hf : p.tally.Fits)
    (h1 : 1 ≤ p.dot) (hrow : p.row < 240 ∨ p.onPrerender = true) {c : γ}
    (hok : (p.drawingDot c).1 = .ok ()) : drawingDot p c = some (p.drawingDot c).2 := by
  have hm : ({ p with rendering := p.mask.draws } : Picture).Bounded := { h with }
  unfold Picture.drawingDot at hok ⊢
  unfold drawingDot
  dsimp only at hok ⊢
  split
  · next h256 => exact pixelDot_eq hm hs hf h1 h256 hrow c
  · next h256 =>
    rw [if_neg h256] at hok
    split
    · next h320 =>
      rw [if_pos h320] at hok
      have h257 : 257 ≤ p.dot := Nat.lt_of_not_le h256
      exact spriteDot_eq (p := { p with rendering := p.mask.draws }) h257 hok
    · split
      · exact prefetchDot_eq hm.background hs c
      · split
        · exact idleDot_eq _ c
        · rfl

/-- On to the next dot. -/
def nextDot (p : Picture) : Option Picture :=
  if p.dot = Picture.lastDot || (p.dot = Picture.lastDot - 1 && p.region = .ntsc && p.rendering &&
      p.oddFrame && p.onPrerender) then
    if p.onPrerender then some { p with dot := 0, row := 0, oddFrame := !p.oddFrame }
    else do
      let row ← add16 p.row 1
      return { p with dot := 0, row }
  else some { p with dot := p.dot + 1 }

/-- The way to the next dot does not go beyond the words it counts in. -/
theorem nextDot_eq {p : Picture} (h : Picture.Placed p) : nextDot p = some p.nextDot := by
  have hrow := h.row
  have hpre := Picture.prerenderRow_le p.region
  have hadd : add16 p.row 1 = some (p.row + 1) := need_eq (by show _ + 1 < 65536; omega) _
  unfold nextDot Picture.nextDot
  rw [hadd]
  split
  · split
    · rfl
    · rfl
  · rfl

/-- One dot of the time after power-on, of which a word of 32 digits keeps count. -/
def warmUp (p : Picture) : Option Picture :=
  if p.warmUpCount = p.region.warmUpDots then some { p with warmingUp := false, warmUpCount := 0 }
  else do
    let warmUpCount ← need (p.warmUpCount + 1 < 2 ^ 32) (p.warmUpCount + 1)
    return { p with warmUpCount }

/-- The count of dots after power-on does not go beyond its word. -/
theorem warmUp_eq {p : Picture} (h : p.warmUpCount ≤ p.region.warmUpDots) :
    warmUp p = some p.warmUp := by
  have hlimit : p.region.warmUpDots < 2 ^ 20 := by cases p.region <;> decide
  have hadd : need (p.warmUpCount + 1 < 2 ^ 32) (p.warmUpCount + 1) = some _ := need_eq (by omega) _
  unfold warmUp Picture.warmUp
  rw [hadd]
  split
  · rfl
  · rfl

/-- One dot. -/
def tick (p : Picture) (c : γ) : Option (Picture × γ) := do
  let p ← nextDot p
  if p.warmingUp then
    let p ← warmUp p
    return (p, c)
  else if p.arrive.atWork then drawingDot p.arrive c
  else return ({ p.arrive with rendering := false }, c)

end Checked

namespace Picture

variable {γ : Type} [Cartridge γ] {p : Picture}

/-- All the bounds that a picture unit keeps to. -/
structure Upheld (p : Picture) : Prop where
  placed : Placed p
  scroll : p.scroll.WellFormed
  paced : Paced p
  bounded : p.Bounded

/-- Every run from power-on keeps all that the checks rely on. -/
theorem upheld_run (region : Region) (acts : List (Act γ)) : Upheld ((new region).run acts) where
  placed := placed_run region acts
  scroll := (reachable_run region acts).scroll
  paced := paced_run region acts
  bounded := bounded_run region acts

end Picture

namespace Checked

variable {γ : Type} [Cartridge γ] {p : Picture}

/-- A dot leaves no bound, and does what the unit does. -/
theorem tick_eq (h : p.Upheld) (c : γ) : tick p c = some (p.tick c).2 := by
  have hok := (h.paced.tick c).1
  rw [tick, nextDot_eq h.placed]
  show (if p.nextDot.warmingUp then _ else _) = _
  cases hw : p.warmingUp with
  | true =>
    have hcount : p.nextDot.warmUpCount ≤ p.nextDot.region.warmUpDots := by
      rw [Picture.nextDot_region,
        show p.nextDot.warmUpCount = p.warmUpCount from
          congrArg Signals.warmUpCount (Picture.nextDot_signals p)]
      exact h.placed.count
    rw [Picture.nextDot_warmingUp, hw, if_pos rfl, warmUp_eq hcount, Picture.tick_warmingUp p c hw]
    rfl
  | false =>
    rw [Picture.nextDot_warmingUp, hw, if_neg Bool.false_ne_true]
    rw [Picture.tick_eq p c hw] at hok ⊢
    split
    · next hwork =>
      rw [if_pos hwork] at hok
      obtain ⟨hdot, hrow⟩ := Picture.atWork_iff.mp hwork
      have h1 : 1 ≤ p.nextDot.arrive.dot :=
        Nat.pos_of_ne_zero fun hz => hdot (UInt16.toNat_inj.mp hz)
      have hdrawn : p.nextDot.arrive.row < 240 ∨ p.nextDot.arrive.onPrerender = true := by
        rw [Picture.onDrawnRow, Bool.or_eq_true, decide_eq_true_eq] at hrow
        exact hrow
      have hscroll : p.nextDot.arrive.scroll.WellFormed := by
        rw [Picture.arrive_scroll, Picture.nextDot_scroll]
        exact h.scroll
      exact drawingDot_eq h.bounded.nextDot.arrive hscroll (Picture.arrive_fits h.paced.nextDot_fits)
        h1 hdrawn hok
    · rfl

/-! ## The registers -/

/-- A data access moves the address on. -/
def stepAddr (p : Picture) : Option Picture :=
  if p.rendering then do
    let scroll ← nextColumn p.scroll
    let scroll ← nextRow scroll
    return { p with scroll }
  else do
    let scroll ← skip p.scroll (if p.control.stepsDown then 0x20 else 0x01)
    return { p with scroll }

/-- The step of the data port stays within fifteen bits. -/
theorem stepAddr_eq (h : p.scroll.WellFormed) : stepAddr p = some p.stepAddr := by
  have hstep : (if p.control.stepsDown then (0x20 : UInt16) else 0x01).toNat ≤ 0x20 := by
    split
    · decide
    · decide
  unfold stepAddr Picture.stepAddr
  split
  · rw [nextColumn_eq h]
    show (nextRow p.scroll.nextColumn >>= _) = _
    rw [nextRow_eq h.nextColumn]
    rfl
  · rw [skip_eq h hstep]
    rfl

/-- The byte of the sprites found that is shown on a dot that fetches. -/
def shownByte (dot : UInt16) : Option UInt8 := do
  let dot ← sub16 dot 257
  let first ← mul16 (dot >>> (3 : UInt16)) 4
  let place ← add16 first (min (dot &&& 7) 3)
  return place.toUInt8

/-- The byte of the secondary memory that shows during the fetches is one of its 32. -/
theorem shownByte_eq {dot : UInt16} (h1 : 257 ≤ dot) (h2 : dot ≤ 320) :
    shownByte dot =
      some (((dot - 257) >>> (3 : UInt16)) * 4 + min ((dot - 257) &&& 7) 3).toUInt8 := by
  obtain ⟨hproduct, hsum⟩ := Picture.forall_fetching (P := fun e =>
      (e >>> (3 : UInt16)).toNat * 4 < 2 ^ 16 ∧
        ((e >>> (3 : UInt16)) * 4).toNat + (min (e &&& 7) 3).toNat < 2 ^ 16)
    (by decide +kernel) h1 h2
  have hsub : sub16 dot 257 = some (dot - 257) := need_eq h1 _
  have hmul : mul16 ((dot - 257) >>> (3 : UInt16)) 4 = some _ := need_eq hproduct _
  have hadd : add16 (((dot - 257) >>> (3 : UInt16)) * 4) (min ((dot - 257) &&& 7) 3) = some _ :=
    need_eq hsum _
  rw [shownByte, hsub]
  show (mul16 ((dot - 257) >>> (3 : UInt16)) 4 >>= _) = _
  rw [hmul]
  show (add16 (((dot - 257) >>> (3 : UInt16)) * 4) (min ((dot - 257) &&& 7) 3) >>= _) = _
  rw [hadd]
  rfl

/-- Reads sprite memory. -/
def readSprites (p : Picture) : Option Picture :=
  if p.rendering && !p.onPrerender then
    if 257 ≤ p.dot && p.dot ≤ 320 then do
      let copied ← shownByte p.dot
      let buffer ← cell p.secondaryOam copied.toNat
      return { p with evaluation := { p.evaluation with copied, buffer }, latch := buffer }
    else some { p with latch := p.evaluation.buffer }
  else do
    let latch ← cell p.oam p.oamAddr.toNat
    return { p with latch }

theorem readSprites_eq (p : Picture) : readSprites p = some p.readSprites := by
  unfold readSprites Picture.readSprites
  dsimp only
  split
  · split
    · next hdot =>
      rw [Bool.and_eq_true, decide_eq_true_eq, decide_eq_true_eq] at hdot
      have hlt := Picture.shownByte_lt hdot.1 hdot.2
      rw [shownByte_eq hdot.1 hdot.2]
      show (cell p.secondaryOam _ >>= _) = _
      generalize (((p.dot - 257) >>> (3 : UInt16)) * 4 + min ((p.dot - 257) &&& 7) 3).toUInt8 = copied
        at hlt
      have hsame : (copied &&& 0x1F).toNat = copied.toNat := by
        rw [UInt8.toNat_and]
        exact Nat.and_two_pow_sub_one_of_lt_two_pow (n := 5) hlt
      rw [cell_eq _ hlt]
      simp only [Picture.readSecondary, hsame]
      rfl
    · rfl
  · rw [cell_eq _ p.oamAddr.toNat_lt]
    rfl

/-- A colour of the palette memory. -/
def readPalette (p : Picture) (addr : UInt16) : Option UInt8 :=
  cell p.palette (Picture.paletteIndex addr).toNat

theorem readPalette_eq (p : Picture) (addr : UInt16) :
    readPalette p addr = some (p.readPalette addr) := cell_eq _ (Picture.paletteIndex_lt addr)

/-- The answer to a read of picture memory. -/
def dataLatch (p : Picture) (addr : UInt16) : Option UInt8 :=
  if addr < 0x3F00 then some p.readBuffer
  else do
    let entry ← readPalette p addr
    let entry := entry ||| (p.latch &&& 0xC0)
    return if p.mask.grey then entry &&& 0x30 else entry

theorem dataLatch_eq (p : Picture) (addr : UInt16) :
    dataLatch p addr = some (if addr < 0x3F00 then p.readBuffer
      else if p.mask.grey then (p.readPalette addr ||| (p.latch &&& 0xC0)) &&& 0x30
      else p.readPalette addr ||| (p.latch &&& 0xC0)) := by
  unfold dataLatch
  rw [readPalette_eq]
  split
  · rfl
  · rfl

/-- Reads picture memory. -/
def readData (p : Picture) (c : γ) : Option (Picture × γ) := do
  let addr := p.scroll.addr &&& 0x3FFF
  let latch ← dataLatch p addr
  let (readBuffer, c) ← ask c addr
  let p ← stepAddr { p with latch, readBuffer }
  return (p, c)

/-- Data accesses use fourteen digits of the address. -/
theorem dataAddr_lt (s : Scroll) : s.addr &&& 0x3FFF < 0x4000 := and_lt _ (by decide)

theorem readData_eq (h : p.scroll.WellFormed) (c : γ) : readData p c = some (p.readData c) := by
  have hask : ask c (p.scroll.addr &&& 0x3FFF) = some _ := need_eq (dataAddr_lt _) _
  have hstep (latch readBuffer : UInt8) : stepAddr { p with latch, readBuffer } = some _ :=
    stepAddr_eq h
  unfold readData
  dsimp only
  rw [dataLatch_eq]
  show (ask c (p.scroll.addr &&& 0x3FFF) >>= _) = _
  rw [hask]
  show (stepAddr _ >>= _) = _
  rw [hstep]
  rfl

/-- Reads a register. -/
def readRegister (p : Picture) (c : γ) (addr : UInt16) : Option (UInt8 × Picture × γ) :=
  match addr &&& 0x0007 with
  | 2 => some (p.readStatus.latch, p.readStatus, c)
  | 4 => do
    let p ← readSprites p
    return (p.latch, p, c)
  | 7 => do
    let (p, c) ← readData p c
    return (p.latch, p, c)
  | _ => some (p.latch, p, c)

/-- A register that is read misses no place. -/
theorem readRegister_eq (h : p.scroll.WellFormed) (c : γ) (addr : UInt16) :
    readRegister p c addr = some (p.readRegister c addr) := by
  unfold readRegister
  split
  · next hreg =>
    rw [Picture.readRegister, hreg]
    rfl
  · next hreg =>
    rw [readSprites_eq, Picture.readRegister, hreg]
    rfl
  · next hreg =>
    rw [readData_eq h, Picture.readRegister, hreg]
    rfl
  · next h2 h4 h7 =>
    rw [Picture.readRegister]
    dsimp only
    split
    · next hreg => exact (h2 hreg).elim
    · next hreg => exact (h4 hreg).elim
    · next hreg => exact (h7 hreg).elim
    · rfl

/-- Sets a colour, and its copy among the sprite palettes if it has one. -/
def writePalette (p : Picture) (addr : UInt16) (value : UInt8) : Option Picture := do
  let index := Picture.paletteIndex addr
  let value := value &&& 0x3F
  let palette ← put p.palette index.toNat value
  if index &&& 0x03 = 0 then
    let palette ← put palette (index ||| 0x10).toNat value
    return { p with palette }
  else return { p with palette }

theorem writePalette_eq (p : Picture) (addr : UInt16) (value : UInt8) :
    writePalette p addr value = some (p.writePalette addr value) := by
  have hindex := Picture.paletteIndex_lt addr
  have hcopy : (Picture.paletteIndex addr ||| 0x10).toNat < 32 := by
    rw [UInt16.toNat_or]
    exact Nat.or_lt_two_pow (n := 5) hindex (by decide)
  unfold writePalette
  dsimp only
  rw [put_eq _ hindex]
  show (if Picture.paletteIndex addr &&& 0x03 = 0 then _ else _) = _
  unfold Picture.writePalette
  dsimp only
  split
  · rw [put_eq _ hcopy]
    rfl
  · rfl

/-- Writes sprite memory. -/
def writeSprites (p : Picture) (data : UInt8) : Option Picture :=
  if p.rendering then some { p with oamAddr := p.oamAddr + 4 }
  else do
    let data := if p.oamAddr &&& 0x03 = 0x02 then data &&& 0xE3 else data
    let oam ← put p.oam p.oamAddr.toNat data
    return { p with oam, oamAddr := p.oamAddr + 1 }

/-- A byte of sprite memory has its place whatever the address. -/
theorem writeSprites_eq (p : Picture) (data : UInt8) :
    writeSprites p data = some (p.writeSprites data) := by
  unfold writeSprites Picture.writeSprites
  split
  · rfl
  · dsimp only
    rw [put_eq _ p.oamAddr.toNat_lt]
    rfl

/-- Writes picture memory. -/
def writeData (p : Picture) (c : γ) (data : UInt8) : Option (Picture × γ) :=
  let addr := p.scroll.addr &&& 0x3FFF
  if 0x3F00 ≤ addr then do
    let p ← writePalette p addr data
    let p ← stepAddr p
    return (p, c)
  else do
    let c ← give c addr (if p.rendering then p.scroll.addr.toUInt8 else data)
    let p ← stepAddr p
    return (p, c)

theorem writeData_eq (h : p.scroll.WellFormed) (c : γ) (data : UInt8) :
    writeData p c data = some (p.writeData c data) := by
  have hgive (data : UInt8) : give c (p.scroll.addr &&& 0x3FFF) data = some _ :=
    need_eq (dataAddr_lt _) _
  unfold writeData Picture.writeData
  dsimp only
  split
  · rw [writePalette_eq]
    show (stepAddr (p.writePalette _ data) >>= _) = _
    rw [stepAddr_eq (p := p.writePalette _ data) h]
    rfl
  · rw [hgive]
    show (stepAddr p >>= _) = _
    rw [stepAddr_eq h]
    rfl

/-- Writes a register.  Control, mask, scroll and address are set by masks and by shifts of a fixed
    length. -/
def writeRegister (p : Picture) (c : γ) (addr : UInt16) (data : UInt8) : Option (Picture × γ) :=
  let p := { p with latch := data }
  match addr &&& 0x0007 with
  | 0 => some (if p.warmingUp then p else p.writeControl data, c)
  | 1 => some (if p.warmingUp then p else { p with mask := .ofWrite p.region data }, c)
  | 3 => some ({ p with oamAddr := data }, c)
  | 4 => do
    let p ← writeSprites p data
    return (p, c)
  | 5 => some (if p.warmingUp then p else { p with scroll := p.scroll.writePosition data }, c)
  | 6 => some (if p.warmingUp then p else { p with scroll := p.scroll.writeAddr data }, c)
  | 7 => writeData p c data
  | _ => some (p, c)

/-- A register that is written misses no place. -/
theorem writeRegister_eq (h : p.scroll.WellFormed) (c : γ) (addr : UInt16) (data : UInt8) :
    writeRegister p c addr data = some (p.writeRegister c addr data) := by
  have hdata := writeData_eq (p := { p with latch := data }) h c data
  unfold writeRegister
  dsimp only
  split
  · next hreg =>
    rw [Picture.writeRegister, hreg]
    rfl
  · next hreg =>
    rw [Picture.writeRegister, hreg]
    rfl
  · next hreg =>
    rw [Picture.writeRegister, hreg]
    rfl
  · next hreg =>
    rw [writeSprites_eq, Picture.writeRegister, hreg]
    rfl
  · next hreg =>
    rw [Picture.writeRegister, hreg]
    rfl
  · next hreg =>
    rw [Picture.writeRegister, hreg]
    rfl
  · next hreg =>
    rw [hdata, Picture.writeRegister, hreg]
    rfl
  · next h0 h1 h3 h4 h5 h6 h7 =>
    rw [Picture.writeRegister]
    dsimp only
    split
    · next hreg => exact (h0 hreg).elim
    · next hreg => exact (h1 hreg).elim
    · next hreg => exact (h3 hreg).elim
    · next hreg => exact (h4 hreg).elim
    · next hreg => exact (h5 hreg).elim
    · next hreg => exact (h6 hreg).elim
    · next hreg => exact (h7 hreg).elim
    · rfl

end Checked

end Famicom
