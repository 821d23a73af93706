/-
  The course of a picture: what the unit does on each dot of each row.

  A row has 341 dots.  On dots 1 to 256 pixels are drawn and the sprites of the next row are looked
  for, on 257 to 320 their patterns are fetched, and on 321 to 336 the first two tiles of the next row.
  The row before the first does all this without drawing.  On an odd NTSC picture its last dot is left
  out.
-/
import Famicom.Picture.Pixel

namespace Famicom

namespace Picture

/-- On to the next dot. -/
def nextDot (p : Picture) : Picture :=
  if p.dot = lastDot || (p.dot = lastDot - 1 && p.region = .ntsc && p.rendering && p.oddFrame &&
      p.onPrerender) then
    if p.onPrerender then { p with dot := 0, row := 0, oddFrame := !p.oddFrame }
    else { p with dot := 0, row := p.row + 1 }
  else { p with dot := p.dot + 1 }

/-- One dot of the time after power-on. -/
def warmUp (p : Picture) : Picture :=
  if p.warmUpCount = p.region.warmUpDots then { p with warmingUp := false, warmUpCount := 0 }
  else { p with warmUpCount := p.warmUpCount + 1 }

/-- Vertical blank begins, unless the status was read on the dot before. -/
def beginVblank (p : Picture) : Picture :=
  if p.missVblank then { p with missVblank := false }
  else { p with vblank := true, nmiRequested := p.nmiRequested || p.control.nmi }

/-- The first eight dots of the row before the first: the status is cleared, and eight bytes of sprite
    memory are overwritten if the address points past them. -/
def beginPicture (p : Picture) : Picture :=
  let p := if p.dot = 1 then { p with vblank := false, spriteHit := false, overflow := false } else p
  if p.rendering && 0x08 ≤ p.oamAddr then
    let offset := (p.dot - 1).toUInt8
    p.writeOam offset (p.readOam ((p.oamAddr &&& 0xF8) + offset))
  else p

variable {γ : Type} [Cartridge γ]

/-- Dots 1 to 256. -/
@[specialize] def pixelDot (p : Picture) (c : γ) : Picture × γ :=
  let (p, c) := p.fetchBackground c
  let p :=
    if p.rendering && p.dot &&& 7 = 0 then
      let scroll := p.scroll.nextColumn
      { p with scroll := if p.dot = 256 then scroll.nextRow else scroll }
    else p
  if p.onPrerender then (if p.dot < 9 then p.beginPicture else p, c)
  else
    let p := p.drawPixel
    ({ p with background := p.background.shift 1 }.evaluateSprites, c)

/-- The reads of dots 257 to 320, which repeat every eight: two that nothing comes of, then a sprite. -/
@[specialize] def spriteFetches (p : Picture) (c : γ) : Except PictureFault Unit × Picture × γ :=
  match (p.dot - 257) &&& 7 with
  | 0 => (.ok (), p, (Cartridge.ppuRead c p.scroll.tileAddr).2)
  | 2 => (.ok (), p, (Cartridge.ppuRead c p.scroll.attributeAddr).2)
  | 4 => p.fetchSprite c
  | _ => (.ok (), p, c)

/-- Dots 257 to 320. -/
@[specialize] def spriteDot (p : Picture) (c : γ) : Except PictureFault Unit × Picture × γ :=
  let p :=
    if p.dot = 257 then
      { p with
        sprites := p.sprites.clear
        scroll := if p.rendering then p.scroll.restartRow else p.scroll }
    else p
  if !p.rendering then (.ok (), p, c)
  else
    match { p with oamAddr := 0 }.spriteFetches c with
    | (r, p, c) =>
      if p.onPrerender && (280 ≤ p.dot && p.dot ≤ 304) then
        (r, { p with scroll := p.scroll.restartPicture }, c)
      else (r, p, c)

/-- Dots 321 to 336. -/
@[specialize] def prefetchDot (p : Picture) (c : γ) : Picture × γ :=
  let (p, c) := p.fetchBackground c
  if !p.rendering then (p, c)
  else if p.dot = 321 then
    ({ p with evaluation := { p.evaluation with buffer := p.readSecondary 0 } }, c)
  else if p.dot &&& 7 = 0 then
    ({ p with background := p.background.shift 8, scroll := p.scroll.nextColumn }, c)
  else (p, c)

/-- Dots 337 and 339: the number of a tile is read twice without use. -/
@[specialize] def idleDot (p : Picture) (c : γ) : Picture × γ :=
  if !p.rendering then (p, c)
  else
    let (tile, c) := Cartridge.ppuRead c p.scroll.tileAddr
    ({ p with background := { p.background with tileAddr := tile.toUInt16 } }, c)

/-- A dot of a row that takes part in drawing. -/
@[specialize] def drawingDot (p : Picture) (c : γ) : Except PictureFault Unit × Picture × γ :=
  let p := { p with rendering := p.mask.draws }
  if p.dot ≤ 256 then (.ok (), p.pixelDot c)
  else if p.dot ≤ 320 then p.spriteDot c
  else if p.dot ≤ 336 then (.ok (), p.prefetchDot c)
  else if p.dot = 337 || p.dot = 339 then (.ok (), p.idleDot c)
  else (.ok (), p, c)

/-- One dot. -/
@[specialize] def tick (p : Picture) (c : γ) : Except PictureFault Unit × Picture × γ :=
  let p := p.nextDot
  if p.warmingUp then (.ok (), p.warmUp, c)
  else
    let p := if p.enteredVblank then p.beginVblank else p
    let p :=
      if p.dot = 0 && p.row = 0 then { p with sprites := { p.sprites with count := 0 } } else p
    if p.dot != 0 && (p.row < visibleRows || p.onPrerender) then p.drawingDot c
    else (.ok (), { p with rendering := false }, c)

end Picture

end Famicom
