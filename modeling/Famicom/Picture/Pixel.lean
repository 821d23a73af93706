/-
  Drawing a pixel: the background, the sprites, and which of them is in front.

  Of the sprites that cover a pixel the first with a colour there is taken, whatever lies in front of
  it, and its own priority then decides between it and the background.
-/
import Famicom.Picture.Sprite

namespace Famicom

namespace SpriteLine

/-- The first sprite from place `i` on that has a colour in column `x`: its place and the colour. -/
def opaqueFrom (l : SpriteLine) (x : UInt8) (i : Nat) : Option (SpriteTile × UInt8 × Nat) :=
  if h : i < 8 then
    if i < l.count.toNat then
      let tile := l.tiles[i]
      let distance := x - tile.x
      let pixel := if tile.x ≤ x && distance < 8 then tile.pixel distance else 0
      if pixel = 0 then l.opaqueFrom x (i + 1) else some (tile, tile.palette + pixel, i)
    else none
  else none
termination_by 8 - i

/-- The first sprite that has a colour in a column. -/
def opaqueAt (l : SpriteLine) (x : UInt8) : Option (SpriteTile × UInt8 × Nat) :=
  have : x.toNat < screenWidth := x.toNat_lt
  if l.covered[x.toNat] then l.opaqueFrom x 0 else none

end SpriteLine

namespace Picture

theorem paletteOffset_lt (index : UInt8) : (index &&& 0x1F).toNat < 32 := secondaryIndex_lt index

/-- The colour number at an offset into the palette memory. -/
def paletteEntry (p : Picture) (offset : UInt8) : UInt8 :=
  have := paletteOffset_lt offset
  p.palette[(offset &&& 0x1F).toNat]

/-- What is shown while nothing is drawn: the common background, or the colour that the address in use
    points at. -/
def idleColor (p : Picture) : UInt32 :=
  if 0x3F00 ≤ p.scroll.addr &&& 0x3FFF then
    color (p.paletteEntry (p.scroll.addr &&& 0x1F).toUInt8)
  else color (p.paletteEntry 0)

theorem emphasisIndex_lt (m : Mask) (index : UInt8) :
    m.emphasis.toNat * 64 + (index &&& 0x3F).toNat < 512 := by
  have h := colorIndex_lt index
  have he : m.emphasis.toNat < 8 := by
    have := m.bits.toNat_lt
    simp only [Mask.emphasis, UInt8.toNat_shiftRight]
    rw [Nat.shiftRight_eq_div_pow]
    have : (5 : UInt8).toNat % 8 = 5 := rfl
    rw [this]
    omega
  omega

/-- The colour of a palette offset as the mask shows it. -/
def maskedColor (p : Picture) (offset : UInt8) : UInt32 :=
  let index := p.paletteEntry offset
  let index := if p.mask.grey then index &&& 0x30 else index
  have := emphasisIndex_lt p.mask index
  emphasizedTable[p.mask.emphasis.toNat * 64 + (index &&& 0x3F).toNat]

/-- Draws the pixel of this dot. -/
def drawPixel (p : Picture) : Picture :=
  let x := (p.dot - 1).toUInt8
  let plot (p : Picture) (rgb : UInt32) : Picture :=
    { p with frame := p.frame.set x.toNat p.row.toNat rgb }
  if !p.rendering then plot p p.idleColor
  else
    let behind :=
      if p.mask.showsBackground x then p.background.color p.scroll.fineX x else 0
    match if p.mask.showsSprites x then p.sprites.opaqueAt x else none with
    | none => plot p (p.maskedColor behind)
    | some (tile, sprite, place) =>
      let hit := place = 0 && behind != 0 && p.sprites.hasFirst && x != 255
      let p := { p with spriteHit := p.spriteHit || hit }
      plot p (p.maskedColor (if !tile.behind || behind = 0 then sprite else behind))

end Picture

end Famicom
