/-
  The course of a row: what every dot leaves alone, and where the unit stands after each.

  `after` lets the unit run for so many dots.  The cartridge is given for each dot by itself, since the
  processor may have used it in between.

  1. **Parts of a dot**: the long functions of a dot are cut into named parts (`fetched`, `advance`,
     `showPixel`, `boundSearch`, `stepSearch`, `turnRow`, `turnPicture`), each with an equation.
  2. **The outline** (`Outline`): drawing works on the tiles and sprites in flight; what it draws from,
     no part of it touches.  That is said once for each part, up to `tick_outline`.
  3. **Along a row** (`Drawing`): a warm unit that is told to draw stands on dot `d` of a drawn row.
     Every dot before the last leads to the next (`Drawing.next`), and which of the kinds of dot it is,
     is read off `d` (`tick_pixel`, `tick_sprite`, `tick_prefetch`, `tick_drawing`).  Two dots of one
     row agree in all that a row depends on (`SameRow`).
  4. **The end of a row** (`row_end`): the unit comes to the first dot of the next row, or of the
     picture.
-/
import Famicom.Picture.Raster

namespace Famicom

/-- What a picture is drawn from, and drawing leaves alone. -/
structure PictureSettings where
  region : Region
  control : Control
  mask : Mask
  palette : Vector UInt8 32
  start : UInt16
  fineX : UInt8
  warmingUp : Bool

/-- The settings of a picture unit and where it stands. -/
structure Outline where
  settings : PictureSettings
  oddFrame : Bool
  row : UInt16
  dot : UInt16
  rendering : Bool

namespace Picture

/-- What a picture unit draws from. -/
def settings (p : Picture) : PictureSettings where
  region := p.region
  control := p.control
  mask := p.mask
  palette := p.palette
  start := p.scroll.start
  fineX := p.scroll.fineX
  warmingUp := p.warmingUp

/-- The outline of a picture unit. -/
def outline (p : Picture) : Outline where
  settings := p.settings
  oddFrame := p.oddFrame
  row := p.row
  dot := p.dot
  rendering := p.rendering

variable {γ : Type} [Cartridge γ]

/-- The unit after so many dots, of which dot `n` finds the cartridge in the state `cart n`. -/
def after (p : Picture) (cart : Nat → γ) : Nat → Picture
  | 0 => p
  | n + 1 => ((p.after cart n).tick (cart n)).2.1

theorem after_succ (p : Picture) (cart : Nat → γ) (n : Nat) :
    p.after cart (n + 1) = ((p.after cart n).tick (cart n)).2.1 := rfl

/-- A run of dots is a run of the first ones and then one of the rest, with the cartridge counted on.
    -/
theorem after_add (p : Picture) (cart : Nat → γ) (m n : Nat) :
    p.after cart (m + n) = (p.after cart m).after (fun i => cart (m + i)) n := by
  induction n with
  | zero => rfl
  | succ n ih =>
    show ((p.after cart (m + n)).tick (cart (m + n))).2.1 = _
    rw [ih]
    rfl

/-- Only the states in which the dots of the run find the cartridge matter. -/
theorem after_congr {p : Picture} {cart cart' : Nat → γ} {n : Nat} (h : ∀ i < n, cart i = cart' i) :
    p.after cart n = p.after cart' n := by
  induction n with
  | zero => rfl
  | succ n ih =>
    rw [after_succ, after_succ, ih fun i hi => h i (Nat.lt_succ_of_lt hi), h n (Nat.lt_succ_self n)]

omit [Cartridge γ] in
/-- What holds of the cartridge on the first dots may be taken to hold on all. -/
theorem exists_cart {P : γ → Prop} (cart : Nat → γ) {n : Nat} (hn : 0 < n) (h : ∀ i < n, P (cart i)) :
    ∃ cart' : Nat → γ, (∀ i < n, cart' i = cart i) ∧ ∀ i, P (cart' i) := by
  refine ⟨fun i => if i < n then cart i else cart 0, fun i hi => if_pos hi, fun i => ?_⟩
  dsimp only
  split
  · next hi => exact h i hi
  · exact h 0 hn

/-! ## What each part of a dot leaves alone -/

/-- A background fetch moves the position, which is not part of the outline. -/
theorem fetchBackground_outline (p : Picture) (c : γ) :
    (p.fetchBackground c).1.outline = p.outline := by
  unfold fetchBackground
  split
  · rfl
  · split
    · rfl
    · split <;> rfl

theorem beginPicture_outline (p : Picture) : p.beginPicture.outline = p.outline := by
  unfold beginPicture
  dsimp only
  split <;> split <;> rfl

theorem drawPixel_outline (p : Picture) : p.drawPixel.outline = p.outline := by
  unfold drawPixel
  dsimp only
  split
  · rfl
  · split <;> rfl

theorem evaluateByte_outline (p : Picture) : p.evaluateByte.outline = p.outline := by
  unfold evaluateByte
  dsimp only
  split
  · rfl
  · split <;> rfl

/-- The first dot of the search starts it, and the last takes its result. -/
def boundSearch (p : Picture) : Picture :=
  if p.dot = 65 then { p with evaluation := p.evaluation.start p.oamAddr }
  else if p.dot = 256 then
    { p with
      sprites := { p.sprites with
        hasFirst := p.evaluation.foundFirst, count := p.evaluation.copied >>> (2 : UInt8) } }
  else p

/-- The search reads a byte on odd dots and looks at it on even ones. -/
def stepSearch (p : Picture) : Picture :=
  if p.dot &&& 1 = 1 then
    { p with evaluation := { p.evaluation with buffer := p.readOam p.oamAddr } }
  else { p.evaluateByte with oamAddr := p.evaluateByte.evaluation.oamAddr }

/-- Before the search its memory is cleared. -/
def clearSearch (p : Picture) : Picture :=
  { p with
    evaluation := { p.evaluation with buffer := 0xFF }
    secondaryOam := p.secondaryOam.setIfInBounds ((p.dot - 1) >>> (1 : UInt16)).toNat 0xFF }

/-- The search for sprites rests while nothing is drawn, clears its result on the first 64 dots and
    steps afterwards. -/
theorem evaluateSprites_eq (p : Picture) :
    p.evaluateSprites =
      if !p.rendering then p else if p.dot < 65 then p.clearSearch else p.boundSearch.stepSearch := rfl

theorem boundSearch_outline (p : Picture) : p.boundSearch.outline = p.outline := by
  unfold boundSearch
  split
  · rfl
  · split <;> rfl

theorem stepSearch_outline (p : Picture) : p.stepSearch.outline = p.outline := by
  unfold stepSearch
  split
  · rfl
  · exact evaluateByte_outline p

theorem evaluateSprites_outline (p : Picture) : p.evaluateSprites.outline = p.outline := by
  rw [evaluateSprites_eq]
  split
  · rfl
  · split
    · rfl
    · exact (stepSearch_outline _).trans (boundSearch_outline p)

/-- The address moves on at the end of a tile, and past the last tile of a row it moves down as well. -/
def advance (p : Picture) : Picture :=
  if p.rendering && p.dot &&& 7 = 0 then
    { p with scroll := if p.dot = 256 then p.scroll.nextColumn.nextRow else p.scroll.nextColumn }
  else p

/-- The pixel of this dot is drawn and shifted out. -/
def showPixel (p : Picture) : Picture :=
  { p.drawPixel with background := p.drawPixel.background.shift 1 }

theorem advance_outline (p : Picture) : p.advance.outline = p.outline := by
  unfold advance
  split
  · split <;> rfl
  · rfl

theorem showPixel_outline (p : Picture) : p.showPixel.outline = p.outline := drawPixel_outline p

/-- The unit when the pixel of this dot is drawn. -/
def fetched (p : Picture) (c : γ) : Picture := (p.fetchBackground c).1.advance

/-- What a drawing dot does first, the background fetch, keeps the outline. -/
theorem fetched_outline (p : Picture) (c : γ) : (p.fetched c).outline = p.outline :=
  (advance_outline _).trans (fetchBackground_outline p c)

/-- On the row before the first nothing is shown, and its first dots begin the picture; on a row that
    is seen a pixel is shown and the search goes on. -/
theorem pixelDot_fst (p : Picture) (c : γ) :
    (p.pixelDot c).1 =
      if (p.fetched c).onPrerender then
        if (p.fetched c).dot < 9 then (p.fetched c).beginPicture else p.fetched c
      else (p.fetched c).showPixel.evaluateSprites :=
  apply_ite Prod.fst _ _ _

/-- A dot of the visible part of a row keeps the outline. -/
theorem pixelDot_outline (p : Picture) (c : γ) : (p.pixelDot c).1.outline = p.outline := by
  rw [pixelDot_fst, ← fetched_outline p c]
  split
  · split
    · exact beginPicture_outline _
    · rfl
  · exact (evaluateSprites_outline _).trans (showPixel_outline _)

/-- Reading a sprite's tile fills the sprites in flight and nothing else. -/
theorem fetchSprite_outline (p : Picture) (c : γ) : (p.fetchSprite c).2.1.outline = p.outline := by
  unfold fetchSprite
  split <;> rfl

theorem spriteFetches_outline (p : Picture) (c : γ) :
    (p.spriteFetches c).2.1.outline = p.outline := by
  unfold spriteFetches
  split
  · rfl
  · rfl
  · exact fetchSprite_outline p c
  · rfl

/-- The first of the dots on which sprites are fetched: none is covered yet, and a row starts. -/
def turnRow (p : Picture) : Picture :=
  if p.dot = 257 then
    { p with
      sprites := p.sprites.clear
      scroll := if p.rendering then p.scroll.restartRow else p.scroll }
  else p

/-- At the turn of a row only the position in the picture moves. -/
theorem turnRow_outline (p : Picture) : p.turnRow.outline = p.outline := by
  unfold turnRow
  split
  · unfold outline
    dsimp only
    split <;> rfl
  · rfl

/-- On some dots of the row before the first the address returns to where pictures start. -/
def turnPicture (p : Picture) : Picture :=
  if p.onPrerender && (280 ≤ p.dot && p.dot ≤ 304) then { p with scroll := p.scroll.restartPicture }
  else p

theorem turnPicture_outline (p : Picture) : p.turnPicture.outline = p.outline := by
  unfold turnPicture
  split <;> rfl

/-- While something is drawn, a dot of the sprite fetches clears the sprite address, fetches, and may
    bring the position back to the start of the picture. -/
theorem spriteDot_of_rendering (p : Picture) (c : γ) (h : p.turnRow.rendering = true) :
    (p.spriteDot c).1 = ({ p.turnRow with oamAddr := 0 }.spriteFetches c).1 ∧
      (p.spriteDot c).2.1 = ({ p.turnRow with oamAddr := 0 }.spriteFetches c).2.1.turnPicture := by
  have e : p.spriteDot c =
      if !p.turnRow.rendering then (Except.ok (), p.turnRow, c)
      else
        let s := { p.turnRow with oamAddr := 0 }.spriteFetches c
        if s.2.1.onPrerender && (280 ≤ s.2.1.dot && s.2.1.dot ≤ 304) then
          (s.1, { s.2.1 with scroll := s.2.1.scroll.restartPicture }, s.2.2)
        else s := rfl
  rw [e, h]
  simp only [Bool.not_true, Bool.false_eq_true, if_false, turnPicture]
  constructor
  · split <;> rfl
  · split <;> rfl

/-- With nothing drawn such a dot only turns the row. -/
theorem spriteDot_of_not_rendering (p : Picture) (c : γ) (h : p.turnRow.rendering = false) :
    p.spriteDot c = (.ok (), p.turnRow, c) := by
  show (if !p.turnRow.rendering then (Except.ok (), p.turnRow, c) else _) = _
  rw [h]
  rfl

/-- A dot of the sprite fetches keeps the outline. -/
theorem spriteDot_outline (p : Picture) (c : γ) : (p.spriteDot c).2.1.outline = p.outline := by
  rw [← turnRow_outline p]
  cases h : p.turnRow.rendering with
  | true =>
    rw [(spriteDot_of_rendering p c h).2]
    exact (turnPicture_outline _).trans (spriteFetches_outline _ c)
  | false => rw [spriteDot_of_not_rendering p c h]

theorem prefetchDot_outline (p : Picture) (c : γ) : (p.prefetchDot c).1.outline = p.outline := by
  have hf := fetchBackground_outline p c
  unfold prefetchDot
  dsimp only
  split
  · exact hf
  · split
    · exact hf
    · split
      · exact hf
      · exact hf

theorem idleDot_outline (p : Picture) (c : γ) : (p.idleDot c).1.outline = p.outline := by
  unfold idleDot
  split <;> rfl

/-- A dot on which the unit is at work keeps the outline, up to the flag that says whether it draws. -/
theorem drawingDot_outline (p : Picture) (c : γ) :
    (p.drawingDot c).2.1.outline = { p.outline with rendering := p.mask.draws } := by
  unfold drawingDot
  dsimp only
  split
  · exact pixelDot_outline _ c
  · split
    · exact spriteDot_outline _ c
    · split
      · exact prefetchDot_outline _ c
      · split
        · exact idleDot_outline _ c
        · rfl

theorem beginVblank_outline (p : Picture) : p.beginVblank.outline = p.outline := by
  unfold beginVblank
  split <;> rfl

/-- A picture begins with no sprites. -/
def beginFirstRow (p : Picture) : Picture :=
  if p.dot = 0 && p.row = 0 then { p with sprites := { p.sprites with count := 0 } } else p

/-- What happens on a dot before anything is drawn. -/
def arrive (p : Picture) : Picture :=
  (if p.enteredVblank then p.beginVblank else p).beginFirstRow

theorem beginFirstRow_outline (p : Picture) : p.beginFirstRow.outline = p.outline := by
  unfold beginFirstRow
  split <;> rfl

/-- Coming to a row raises and clears signals, none of them part of the outline. -/
theorem arrive_outline (p : Picture) : p.arrive.outline = p.outline := by
  refine (beginFirstRow_outline _).trans ?_
  split
  · exact beginVblank_outline p
  · rfl

/-- The unit stands on a dot on which it draws. -/
def atWork (p : Picture) : Bool := p.dot != 0 && (p.row < visibleRows || p.onPrerender)

/-- The way to the next dot does not decide whether the unit is warm. -/
theorem nextDot_warmingUp (p : Picture) : p.nextDot.warmingUp = p.warmingUp := by
  unfold nextDot
  split
  · split <;> rfl
  · rfl

/-- A cold unit goes one place on, looks whether it is warm, and does nothing else. -/
theorem tick_warmingUp (p : Picture) (c : γ) (hw : p.warmingUp = true) :
    p.tick c = (.ok (), p.nextDot.warmUp, c) := by
  unfold tick
  simp only [nextDot_warmingUp, hw]
  rfl

/-- A warm unit goes one place on, takes notice of where it is, and draws if it is at work there. -/
theorem tick_eq (p : Picture) (c : γ) (hw : p.warmingUp = false) :
    p.tick c =
      if p.nextDot.arrive.atWork then p.nextDot.arrive.drawingDot c
      else (.ok (), { p.nextDot.arrive with rendering := false }, c) := by
  unfold tick
  simp only [nextDot_warmingUp, hw]
  rfl

/-- The way to the next dot leaves alone what is drawn from. -/
theorem nextDot_settings (p : Picture) : p.nextDot.settings = p.settings := by
  unfold nextDot
  split
  · split <;> rfl
  · rfl

theorem nextDot_mask (p : Picture) : p.nextDot.mask = p.mask :=
  congrArg PictureSettings.mask p.nextDot_settings

/-- A dot moves the unit on, and leaves all else in the outline alone but whether it is rendering. -/
theorem tick_outline (p : Picture) (c : γ) (hw : p.warmingUp = false) :
    (p.tick c).2.1.outline =
      { p.nextDot.outline with rendering := p.nextDot.arrive.atWork && p.mask.draws } := by
  have ha := arrive_outline p.nextDot
  have hm : p.nextDot.arrive.mask = p.mask := (congrArg (·.settings.mask) ha).trans (nextDot_mask p)
  rw [tick_eq p c hw, ← ha]
  split
  · next h => rw [drawingDot_outline, hm, h]; rfl
  · next h => rw [Bool.eq_false_iff.mpr h]; rfl

/-! ## Along a row -/

/-- The row takes part in drawing. -/
def onDrawnRow (p : Picture) : Bool := p.row < visibleRows || p.onPrerender

/-- The last dot of the row is left out. -/
def skipsDot (p : Picture) : Bool := p.region = .ntsc && p.oddFrame && p.onPrerender

/-- The dots of the row. -/
def rowDots (p : Picture) : Nat := if p.skipsDot then 340 else 341

/-- The unit draws, and stands on dot `d` of a row that takes part in drawing. -/
structure Drawing (p : Picture) (d : Nat) : Prop where
  warm : p.warmingUp = false
  draws : p.mask.draws = true
  drawnRow : p.onDrawnRow = true
  dot : p.dot = .ofNat d
  bound : d < p.rowDots
  rendering : d ≠ 0 → p.rendering = true

/-- The unit moved to dot `d` of its row. -/
def moveTo (p : Picture) (d : Nat) : Picture := { p with dot := .ofNat d }

/-- The unit as it works on dot `d` of its row. -/
def onDot (p : Picture) (d : Nat) : Picture := { p with dot := .ofNat d, rendering := true }

/-- The unit at the start of the next row. -/
def beginRow (p : Picture) : Picture :=
  if p.onPrerender then
    { p with
      dot := 0, row := 0, oddFrame := !p.oddFrame, rendering := false
      sprites := { p.sprites with count := 0 } }
  else { p with dot := 0, row := p.row + 1, rendering := false }

/-- No row has more than 341 dots. -/
theorem rowDots_le (p : Picture) : p.rowDots ≤ 341 := by
  unfold rowDots
  split <;> decide

/-- On a drawn row no dot but the first raises a signal. -/
theorem arrive_of_drawnRow (p : Picture) (hr : p.onDrawnRow = true) (hd : p.dot ≠ 0) :
    p.arrive = p := by
  have hv : p.enteredVblank = false := by
    simp only [onDrawnRow, Bool.or_eq_true, decide_eq_true_eq, onPrerender] at hr
    have : p.row ≠ p.region.vblankRow := by
      intro e
      rw [e] at hr
      revert hr
      cases p.region <;> decide
    simp [enteredVblank, this]
  simp [arrive, beginFirstRow, hv, hd]

/-- Two units that are drawing one and the same row of a picture. -/
structure SameRow (p q : Picture) : Prop where
  settings : q.settings = p.settings
  oddFrame : q.oddFrame = p.oddFrame
  row : q.row = p.row

namespace SameRow

variable {p q r : Picture}

/-- A place in a row is in the same row. -/
theorem refl (p : Picture) : SameRow p p := ⟨rfl, rfl, rfl⟩

/-- Being in the same row carries over from dot to dot. -/
theorem trans (h : SameRow p q) (h' : SameRow q r) : SameRow p r :=
  ⟨h'.settings.trans h.settings, h'.oddFrame.trans h.oddFrame, h'.row.trans h.row⟩

theorem region (h : SameRow p q) : q.region = p.region := congrArg PictureSettings.region h.settings

theorem control (h : SameRow p q) : q.control = p.control := congrArg PictureSettings.control h.settings

theorem mask (h : SameRow p q) : q.mask = p.mask := congrArg PictureSettings.mask h.settings

theorem palette (h : SameRow p q) : q.palette = p.palette := congrArg PictureSettings.palette h.settings

theorem fineX (h : SameRow p q) : q.scroll.fineX = p.scroll.fineX :=
  congrArg PictureSettings.fineX h.settings

theorem warmingUp (h : SameRow p q) : q.warmingUp = p.warmingUp :=
  congrArg PictureSettings.warmingUp h.settings

/-- Two places of one row are both on the row before the first, or neither is. -/
theorem onPrerender (h : SameRow p q) : q.onPrerender = p.onPrerender := by
  rw [Picture.onPrerender, h.row, h.region]
  rfl

theorem onDrawnRow (h : SameRow p q) : q.onDrawnRow = p.onDrawnRow := by
  rw [Picture.onDrawnRow, h.row, h.onPrerender]
  rfl

/-- Two places of one row have the same length of row before them. -/
theorem rowDots (h : SameRow p q) : q.rowDots = p.rowDots := by
  rw [Picture.rowDots, skipsDot, h.region, h.oddFrame, h.onPrerender]
  rfl

end SameRow

/-- No dot of a row goes round in a word of sixteen bits. -/
theorem toNat_ofNat_dot {d : Nat} (h : d ≤ 341) : (UInt16.ofNat d).toNat = d := by
  rw [UInt16.toNat_ofNat']
  exact Nat.mod_eq_of_lt (by omega)

/-- Dots are ordered as the numbers that stand for them. -/
theorem ofNat_le {n m : Nat} (hn : n ≤ 341) (hm : m ≤ 341) :
    UInt16.ofNat n ≤ UInt16.ofNat m ↔ n ≤ m := by
  rw [UInt16.le_iff_toNat_le, toNat_ofNat_dot hn, toNat_ofNat_dot hm]

namespace Drawing

variable {p : Picture} {d : Nat}

/-- The dot a drawing unit stands on. -/
theorem dot_toNat (h : Drawing p d) : p.dot.toNat = d := by
  rw [h.dot, toNat_ofNat_dot (Nat.le_trans (Nat.le_of_lt h.bound) p.rowDots_le)]

theorem not_zero (hd : d + 1 < p.rowDots) : UInt16.ofNat (d + 1) ≠ 0 := fun e => by
  have hlt := rowDots_le p
  have := congrArg UInt16.toNat e
  rw [toNat_ofNat_dot (by omega)] at this
  exact absurd this (Nat.succ_ne_zero d)

/-- Before the end of its row the unit moves one dot on. -/
theorem nextDot (h : Drawing p d) (hd : d + 1 < p.rowDots) : p.nextDot = p.moveTo (d + 1) := by
  have hlt := rowDots_le p
  have hn := h.dot_toNat
  have h1 : p.dot ≠ lastDot := fun e => by
    have : p.dot.toNat = 340 := congrArg UInt16.toNat e
    omega
  have h2 : p.dot = lastDot - 1 → p.skipsDot = false := fun e => by
    have : p.dot.toNat = 339 := congrArg UInt16.toNat e
    cases hs : p.skipsDot with
    | false => rfl
    | true => simp [rowDots, hs] at hd; omega
  have hnext : p.dot + 1 = .ofNat (d + 1) := by rw [h.dot, UInt16.ofNat_add]; rfl
  have hc : ¬ ((p.dot = lastDot || (p.dot = lastDot - 1 && p.region = .ntsc && p.rendering &&
      p.oddFrame && p.onPrerender)) = true) := by
    simp only [Bool.or_eq_true, Bool.and_eq_true, decide_eq_true_eq, h1, false_or]
    rintro ⟨⟨⟨⟨e, hg⟩, -⟩, ho⟩, hp⟩
    simp [skipsDot, hg, ho, hp] at h2
    exact h2 e
  rw [Picture.nextDot, if_neg hc, hnext]
  rfl

variable {γ : Type} [Cartridge γ]

/-- Within a row, what a dot does is the drawing. -/
theorem tick (h : Drawing p d) (hd : d + 1 < p.rowDots) (c : γ) :
    p.tick c = (p.onDot (d + 1)).drawingDot c := by
  have hz := not_zero hd
  have ha : (p.moveTo (d + 1)).arrive = p.moveTo (d + 1) := arrive_of_drawnRow _ h.drawnRow hz
  have hwork : (p.moveTo (d + 1)).atWork = true := by
    have hr : (p.row < visibleRows || p.onPrerender) = true := h.drawnRow
    show (UInt16.ofNat (d + 1) != 0 && (p.row < visibleRows || p.onPrerender)) = true
    rw [hr, bne_iff_ne.mpr hz]
    rfl
  have hdraws : ({ p.moveTo (d + 1) with rendering := p.mask.draws } : Picture) = p.onDot (d + 1) := by
    rw [h.draws]
    rfl
  rw [tick_eq p c h.warm, h.nextDot hd, ha, if_pos hwork, ← hdraws]
  rfl

/-- At the end of its row it comes to the first dot of the next, and from the row before the first to
    the top, where the parity of the picture turns. -/
theorem nextDot_last (h : Drawing p d) (hd : d + 1 = p.rowDots) :
    p.nextDot =
      if p.onPrerender then { p with dot := 0, row := 0, oddFrame := !p.oddFrame }
      else { p with dot := 0, row := p.row + 1 } := by
  have hn := h.dot_toNat
  have hc : (p.dot = lastDot || (p.dot = lastDot - 1 && p.region = .ntsc && p.rendering &&
      p.oddFrame && p.onPrerender)) = true := by
    cases hs : p.skipsDot with
    | true =>
      simp only [rowDots, hs, if_true] at hd
      have hl : p.dot = lastDot - 1 := by rw [h.dot, show d = 339 by omega]; rfl
      have hr : p.rendering = true := h.rendering (by omega)
      simp only [skipsDot, Bool.and_eq_true, decide_eq_true_eq] at hs
      simp [hl, hr, hs.1.1, hs.1.2, hs.2]
    | false =>
      simp only [rowDots, hs, Bool.false_eq_true, if_false] at hd
      have hl : p.dot = lastDot := by rw [h.dot, show d = 340 by omega]; rfl
      simp [hl]
  rw [Picture.nextDot, if_pos hc]

/-- At the end of a row nothing is drawn. -/
theorem tick_last (h : Drawing p d) (hd : d + 1 = p.rowDots) (c : γ) :
    p.tick c = (.ok (), p.beginRow, c) := by
  have hrow : p.onPrerender = false → p.row + 1 ≠ 0 := fun hp e => by
    have hr := h.drawnRow
    simp only [onDrawnRow, hp, Bool.or_false, decide_eq_true_eq] at hr
    have hr : p.row.toNat < 240 := hr
    have e := congrArg UInt16.toNat e
    rw [UInt16.toNat_add] at e
    have e : (p.row.toNat + 1) % 65536 = 0 := e
    omega
  rw [tick_eq p c h.warm, h.nextDot_last hd]
  unfold beginRow
  split
  · next hp => simp [arrive, enteredVblank, beginFirstRow, atWork]
  · next hp => simp [arrive, enteredVblank, beginFirstRow, atWork, hrow (Bool.eq_false_iff.mpr hp)]

/-- Within a row, a dot leaves the outline alone. -/
theorem outline_next (h : Drawing p d) (hd : d + 1 < p.rowDots) (c : γ) :
    (p.tick c).2.1.outline = (p.onDot (d + 1)).outline := by
  have hdraws : (p.onDot (d + 1)).mask.draws = true := h.draws
  rw [h.tick hd, drawingDot_outline, hdraws]
  rfl

/-- A dot before the last stays in its row. -/
theorem sameRow_next (h : Drawing p d) (hd : d + 1 < p.rowDots) (c : γ) :
    SameRow p (p.tick c).2.1 := by
  have ho := h.outline_next hd c
  exact ⟨congrArg Outline.settings ho, congrArg Outline.oddFrame ho, congrArg Outline.row ho⟩

/-- A unit that draws goes on drawing up to the end of the row. -/
theorem next (h : Drawing p d) (hd : d + 1 < p.rowDots) (c : γ) :
    Drawing (p.tick c).2.1 (d + 1) := by
  have ho := h.outline_next hd c
  have hs := h.sameRow_next hd c
  refine ⟨hs.warmingUp.trans h.warm, ?_, hs.onDrawnRow.trans h.drawnRow, congrArg Outline.dot ho,
    ?_, fun _ => congrArg Outline.rendering ho⟩
  · rw [hs.mask]
    exact h.draws
  · rw [hs.rowDots]
    exact hd

/-- Along a row the unit keeps drawing. -/
theorem along (h : Drawing p 0) (cart : Nat → γ) (n : Nat) (hn : n < p.rowDots) :
    Drawing (p.after cart n) n ∧ SameRow p (p.after cart n) := by
  induction n with
  | zero => exact ⟨h, .refl p⟩
  | succ n ih =>
    obtain ⟨hq, hs⟩ := ih (Nat.lt_of_succ_lt hn)
    rw [← hs.rowDots] at hn
    exact ⟨hq.next hn (cart n), hs.trans (hq.sameRow_next hn (cart n))⟩

/-- Every row has at least 340 dots: at most one is left out. -/
theorem le_rowDots (p : Picture) : 340 ≤ p.rowDots := by
  unfold Picture.rowDots
  split <;> decide

/-- Of the parts of a row, drawing does the one that the dot lies in. -/
theorem tick_drawing (h : Drawing p d) (hd : d + 1 < p.rowDots) (c : γ) :
    p.tick c =
      if d + 1 ≤ 256 then (.ok (), (p.onDot (d + 1)).pixelDot c)
      else if d + 1 ≤ 320 then (p.onDot (d + 1)).spriteDot c
      else if d + 1 ≤ 336 then (.ok (), (p.onDot (d + 1)).prefetchDot c)
      else if d + 1 = 337 ∨ d + 1 = 339 then (.ok (), (p.onDot (d + 1)).idleDot c)
      else (.ok (), p.onDot (d + 1), c) := by
  have hle := rowDots_le p
  have hdraws : ({ p.onDot (d + 1) with rendering := (p.onDot (d + 1)).mask.draws } : Picture) =
      p.onDot (d + 1) := by
    have : (p.onDot (d + 1)).mask.draws = true := h.draws
    rw [this]
    rfl
  have le (n : Nat) (hn : n ≤ 341) : UInt16.ofNat (d + 1) ≤ .ofNat n ↔ d + 1 ≤ n :=
    ofNat_le (by omega) hn
  have eq (n : Nat) (hn : n ≤ 341) : UInt16.ofNat (d + 1) = .ofNat n ↔ d + 1 = n := by
    rw [← UInt16.toNat_inj, toNat_ofNat_dot (by omega), toNat_ofNat_dot hn]
  have idle : (UInt16.ofNat (d + 1) = .ofNat 337 || UInt16.ofNat (d + 1) = .ofNat 339) = true ↔
      d + 1 = 337 ∨ d + 1 = 339 := by
    rw [Bool.or_eq_true, decide_eq_true_eq, decide_eq_true_eq, eq 337 (by decide), eq 339 (by decide)]
  rw [h.tick hd, drawingDot, hdraws]
  refine ite_congr (propext (le 256 (by decide))) (fun _ => rfl) fun _ => ?_
  refine ite_congr (propext (le 320 (by decide))) (fun _ => rfl) fun _ => ?_
  refine ite_congr (propext (le 336 (by decide))) (fun _ => rfl) fun _ => ?_
  exact ite_congr (propext idle) (fun _ => rfl) fun _ => rfl

/-- The first 256 dots show pixels. -/
theorem tick_pixel (h : Drawing p d) (hd : d < 256) (c : γ) :
    p.tick c = (.ok (), (p.onDot (d + 1)).pixelDot c) := by
  have := le_rowDots p
  rw [h.tick_drawing (by omega), if_pos (by omega)]

/-- The next 64 dots fetch sprites. -/
theorem tick_sprite (h : Drawing p d) (h1 : 256 ≤ d) (h2 : d < 320) (c : γ) :
    p.tick c = (p.onDot (d + 1)).spriteDot c := by
  have := le_rowDots p
  rw [h.tick_drawing (by omega), if_neg (by omega), if_pos (by omega)]

/-- The 16 dots after these fetch the first tiles of the next row. -/
theorem tick_prefetch (h : Drawing p d) (h1 : 320 ≤ d) (h2 : d < 336) (c : γ) :
    p.tick c = (.ok (), (p.onDot (d + 1)).prefetchDot c) := by
  have := le_rowDots p
  rw [h.tick_drawing (by omega), if_neg (by omega), if_neg (by omega), if_pos (by omega)]

/-- At its end a row gives way to the next. -/
theorem row_end (h : Drawing p 0) (cart : Nat → γ) :
    ∃ q, SameRow p q ∧ p.after cart p.rowDots = q.beginRow := by
  have hbound := le_rowDots p
  obtain ⟨n, hn⟩ : ∃ n, p.rowDots = n + 1 := ⟨p.rowDots - 1, by omega⟩
  obtain ⟨hd, hr⟩ := h.along cart n (by omega)
  refine ⟨p.after cart n, hr, ?_⟩
  rw [hn, after_succ, hd.tick_last (by rw [hr.rowDots, hn])]

/-- Rows that are seen are not the one before the first. -/
theorem not_prerender {p : Picture} (hrow : p.row.toNat ≤ 240) : p.onPrerender = false := by
  have hp : 261 ≤ p.region.prerenderRow.toNat := by cases p.region <;> decide
  refine decide_eq_false fun e => ?_
  rw [e] at hrow
  omega

/-- Only on the row before the first a dot may be left out. -/
theorem rowDots_seen {p : Picture} (hv : p.onPrerender = false) : p.rowDots = 341 := by
  simp [Picture.rowDots, skipsDot, hv]

/-- At the start of a row that is seen. -/
theorem of_seen {p : Picture} (hw : p.warmingUp = false) (hm : p.mask.draws = true)
    (hrow : p.row.toNat < 240) (hdot : p.dot = 0) : Drawing p 0 := by
  refine ⟨hw, hm, ?_, hdot, ?_, fun z => absurd rfl z⟩
  · have : p.row < visibleRows := UInt16.lt_iff_toNat_lt.mpr hrow
    simp [Picture.onDrawnRow, this]
  · rw [rowDots_seen (not_prerender (Nat.le_of_lt hrow))]
    decide

/-- A row that is seen gives way to the one below. -/
theorem next_row (h : Drawing p 0) (hv : p.onPrerender = false) (cart : Nat → γ) :
    (p.after cart 341).settings = p.settings ∧ (p.after cart 341).row = p.row + 1 ∧
      (p.after cart 341).dot = 0 := by
  obtain ⟨q, hq, hend⟩ := h.row_end cart
  have hrow : q.beginRow = { q with dot := 0, row := q.row + 1, rendering := false } :=
    if_neg (by rw [hq.onPrerender, hv]; decide)
  rw [rowDots_seen hv, hrow] at hend
  rw [hend]
  exact ⟨hq.settings, congrArg (· + 1) hq.row, rfl⟩

end Drawing

end Picture

end Famicom
