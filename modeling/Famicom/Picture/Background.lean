/-
  The background: one tile is fetched every eight dots and shifted out over the eight after the next.

  A tile takes four reads: its number, the byte that holds its palette, and the two bit planes of the
  row being drawn.  The cartridge is shown the addresses of the bit planes, which tell it the pattern
  table in use.
-/
import Famicom.Picture.Basic

namespace Famicom

namespace Background

/-- Moves the fetched tile into the shift registers and names the pattern of the next one. -/
def load (b : Background) (tileAddr : UInt16) : Background :=
  { b with
    tileAddr
    shiftLow := b.shiftLow ||| b.low.toUInt16
    shiftHigh := b.shiftHigh ||| b.high.toUInt16
    shownPalette := b.nextPalette
    nextPalette := b.palette }

/-- Shifts both bit planes. -/
def shift (b : Background) (dots : UInt16) : Background :=
  { b with shiftLow := b.shiftLow <<< dots, shiftHigh := b.shiftHigh <<< dots }

/-- The colour shown in a column, as an offset into the palette memory.  The first colour of every
    palette lets what lies behind it through and is given as 0. -/
def color (b : Background) (fineX x : UInt8) : UInt8 :=
  let bit (plane : UInt16) : UInt8 := ((plane <<< fineX.toUInt16) >>> (15 : UInt16)).toUInt8
  let pixel := bit b.shiftLow ||| (bit b.shiftHigh <<< (1 : UInt8))
  if pixel = 0 then 0
  else if fineX + (x &&& 7) < 8 then b.shownPalette + pixel
  else b.nextPalette + pixel

end Background

namespace Picture

variable {γ : Type} [Cartridge γ]

/-- Reads one bit plane of a tile, which shows the cartridge the address. -/
@[specialize] def readPattern (c : γ) (addr : UInt16) : UInt8 × γ :=
  let (plane, c) := Cartridge.ppuRead c addr
  (plane, Cartridge.watchA12 c addr)

/-- The background's part of a dot. -/
@[specialize] def fetchBackground (p : Picture) (c : γ) : Picture × γ :=
  if !p.rendering then (p, c)
  else if p.dot &&& 1 = 0 then (p, c)
  else match p.dot &&& 7 with
    | 1 =>
      let (tile, c) := Cartridge.ppuRead c p.scroll.tileAddr
      let table := if p.control.highBackground then 0x1000 else 0
      let tileAddr := (tile.toUInt16 <<< (4 : UInt16)) ||| p.scroll.tileRow ||| table
      ({ p with background := p.background.load tileAddr }, c)
    | 3 =>
      let shift := p.scroll.attributeShift
      let (attributes, c) := Cartridge.ppuRead c p.scroll.attributeAddr
      let palette := ((attributes >>> shift.toUInt8) &&& 0x03) <<< (2 : UInt8)
      ({ p with background := { p.background with palette } }, c)
    | 5 =>
      let (low, c) := readPattern c p.background.tileAddr
      ({ p with background := { p.background with low } }, c)
    | _ =>
      let (high, c) := readPattern c (p.background.tileAddr + 8)
      ({ p with background := { p.background with high } }, c)

end Picture

end Famicom
