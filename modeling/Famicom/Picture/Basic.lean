/-
  The picture unit: its registers, its memories and where it stands in the picture.

  The state falls into the parts the unit works with: what the program sets (`Control`, `Mask`,
  `Scroll`), the background tiles in flight (`Background`), the search for the sprites of the next row
  (`Evaluation`) and the sprites of this one (`SpriteLine`).  What happens on a dot is told in the
  modules beside this one; here are the state, power-on, and what the console takes from it.
-/
import Famicom.Region
import Famicom.Cartridge.Board
import Famicom.Picture.Frame
import Famicom.Picture.Scroll

namespace Famicom

/-- The control register. -/
structure Control where
  bits : UInt8 := 0
  deriving DecidableEq, Repr, Inhabited

namespace Control

/-- A data access moves the address by 32 instead of 1. -/
def stepsDown (c : Control) : Bool := c.bits &&& 0x04 != 0

/-- Small sprites come from the second pattern table. -/
def highSprites (c : Control) : Bool := c.bits &&& 0x08 != 0

/-- The background comes from the second pattern table. -/
def highBackground (c : Control) : Bool := c.bits &&& 0x10 != 0

/-- Sprites are 16 rows high instead of 8. -/
def largeSprites (c : Control) : Bool := c.bits &&& 0x20 != 0

/-- Vertical blank interrupts the processor. -/
def nmi (c : Control) : Bool := c.bits &&& 0x80 != 0

/-- Rows of a sprite. -/
def spriteHeight (c : Control) : UInt16 := if c.largeSprites then 16 else 8

end Control

/-- The mask register, with the emphasis bits in the order red, green, blue. -/
structure Mask where
  bits : UInt8 := 0
  deriving DecidableEq, Repr, Inhabited

namespace Mask

/-- Only the grey column of the palette is shown. -/
def grey (m : Mask) : Bool := m.bits &&& 0x01 != 0

/-- Whether the background is shown in a column: it may be hidden in the leftmost eight. -/
def showsBackground (m : Mask) (x : UInt8) : Bool :=
  m.bits &&& 0x08 != 0 && (8 ≤ x || m.bits &&& 0x02 != 0)

/-- Whether sprites are shown in a column: they may be hidden in the leftmost eight. -/
def showsSprites (m : Mask) (x : UInt8) : Bool :=
  m.bits &&& 0x10 != 0 && (8 ≤ x || m.bits &&& 0x04 != 0)

/-- The unit draws if the background or the sprites are shown. -/
def draws (m : Mask) : Bool := m.bits &&& 0x18 != 0

/-- The three emphasis bits, red lowest. -/
def emphasis (m : Mask) : UInt8 := m.bits >>> (5 : UInt8)

/-- The mask that a written byte sets.  Outside NTSC the first two emphasis bits change places. -/
def ofWrite (region : Region) (data : UInt8) : Mask :=
  match region with
  | .ntsc => ⟨data⟩
  | .pal => ⟨(data &&& ~~~0x60) ||| ((data &&& 0x20) <<< (1 : UInt8)) |||
      ((data &&& 0x40) >>> (1 : UInt8))⟩

end Mask

/-- The background tiles in flight: the fetched one, and the two being shifted out. -/
structure Background where
  /-- Where the pattern of the tile is found. -/
  tileAddr : UInt16 := 0
  /-- The two bit planes of the fetched row of the tile. -/
  low : UInt8 := 0
  high : UInt8 := 0
  /-- The palette of the fetched tile, as an offset. -/
  palette : UInt8 := 0
  /-- The palettes of the tile being shown and of the one after it. -/
  shownPalette : UInt8 := 0
  nextPalette : UInt8 := 0
  /-- The bit planes being shifted out. -/
  shiftLow : UInt16 := 0
  shiftHigh : UInt16 := 0
  deriving DecidableEq, Repr, Inhabited

/-- The search for the sprites of the next row. -/
structure Evaluation where
  /-- Bytes copied so far. -/
  copied : UInt8 := 0
  /-- The byte last read. -/
  buffer : UInt8 := 0
  /-- The first sprite of the search was copied. -/
  foundFirst : Bool := false
  /-- The sprite being looked at lies on the row. -/
  inRange : Bool := false
  /-- Every sprite has been looked at. -/
  finished : Bool := false
  /-- Bytes still to be skipped after a sprite too many. -/
  skipping : UInt8 := 0
  /-- The sprite being looked at. -/
  sprite : UInt8 := 0
  /-- The byte of it being looked at. -/
  byte : UInt8 := 0
  deriving DecidableEq, Repr, Inhabited

/-- One row of a sprite, ready to be shown. -/
structure SpriteTile where
  x : UInt8 := 0
  low : UInt8 := 0
  high : UInt8 := 0
  palette : UInt8 := 0
  behind : Bool := false
  flipped : Bool := false
  deriving DecidableEq, Repr, Inhabited

/-- The sprites of a row. -/
structure SpriteLine where
  /-- How many there are. -/
  count : UInt8 := 0
  /-- The next one to fetch. -/
  next : UInt8 := 0
  /-- The first one is the first sprite of all. -/
  hasFirst : Bool := false
  tiles : Vector SpriteTile 8 := .replicate _ {}
  /-- The columns under some sprite. -/
  covered : Vector Bool screenWidth := .replicate _ false
  deriving DecidableEq, Inhabited

/-- What a picture unit cannot go on from. -/
inductive PictureFault where
  /-- A sprite is fetched for a row that has all its eight already. -/
  | ninthSprite
  deriving DecidableEq, Repr

/-- The picture unit. -/
structure Picture where
  region : Region
  control : Control := {}
  mask : Mask := {}
  /-- Status: in vertical blank. -/
  vblank : Bool := false
  /-- Status: the first sprite met the background. -/
  spriteHit : Bool := false
  /-- Status: a row had more than eight sprites. -/
  overflow : Bool := false
  oamAddr : UInt8 := 0
  /-- What the data lines towards the processor still hold. -/
  latch : UInt8 := 0
  readBuffer : UInt8 := 0
  scroll : Scroll := {}
  oam : Vector UInt8 256 := .replicate _ 0
  secondaryOam : Vector UInt8 32 := .replicate _ 0
  palette : Vector UInt8 32 := .replicate _ 0
  background : Background := {}
  evaluation : Evaluation := {}
  sprites : SpriteLine := {}
  row : UInt16 := 0
  /-- The dot within the row.  At power-on it is one before the first. -/
  dot : UInt16 := 0xFFFF
  oddFrame : Bool := false
  rendering : Bool := false
  warmingUp : Bool := true
  warmUpCount : Nat := 0
  /-- The status was read on the dot before vertical blank, which then goes unnoticed. -/
  missVblank : Bool := false
  nmiRequested : Bool := false
  /-- The page from which sprites are to be copied. -/
  dmaPage : Option UInt8 := none
  frame : Frame := .black

namespace Picture

/-- The last dot of a row. -/
def lastDot : UInt16 := 340

/-- Rows that are seen. -/
def visibleRows : UInt16 := 240

/-- A picture unit at power-on. -/
def new (region : Region) : Picture := { region }

instance : Inhabited Picture := ⟨new .ntsc⟩

/-- Back to power-on. -/
def reset (p : Picture) : Picture := new p.region

/-- Changes the region.  A row that the new region does not have becomes its last. -/
def setRegion (p : Picture) (region : Region) : Picture :=
  { p with region, row := min p.row region.prerenderRow }

/-- The unit stands on the row before the first. -/
def onPrerender (p : Picture) : Bool := p.row = p.region.prerenderRow

/-- The unit stands on the dot on which vertical blank begins. -/
def enteredVblank (p : Picture) : Bool := p.row = p.region.vblankRow && p.dot = 1

/-- The three status bits. -/
def status (p : Picture) : UInt8 :=
  (if p.vblank then 0x80 else 0) ||| (if p.spriteHit then 0x40 else 0) |||
    (if p.overflow then 0x20 else 0)

/-- Answers a request to interrupt the processor. -/
def takeNmi (p : Picture) : Bool × Picture := (p.nmiRequested, { p with nmiRequested := false })

/-- Asks for sprites to be copied from a page. -/
def requestDma (p : Picture) (page : UInt8) : Picture := { p with dmaPage := some page }

/-- Answers the request to copy sprites. -/
def takeDma (p : Picture) : Option UInt8 × Picture := (p.dmaPage, { p with dmaPage := none })

/-! ## Palette memory -/

/-- Where a palette address is kept.  The first colour of each sprite palette is that of the
    background palette of the same number. -/
def paletteIndex (addr : UInt16) : UInt16 :=
  let index := addr &&& 0x1F
  if index &&& 0x13 = 0x10 then index &&& ~~~0x10 else index

theorem paletteIndex_lt (addr : UInt16) : (paletteIndex addr).toNat < 32 := by
  have h : (addr &&& 0x1F).toNat < 32 := by
    rw [UInt16.toNat_and]; exact Nat.lt_of_le_of_lt Nat.and_le_right (by decide)
  unfold paletteIndex
  dsimp only
  split
  · rw [UInt16.toNat_and]; exact Nat.lt_of_le_of_lt Nat.and_le_left h
  · exact h

/-- A colour of the palette memory. -/
def readPalette (p : Picture) (addr : UInt16) : UInt8 :=
  have := paletteIndex_lt addr
  p.palette[(paletteIndex addr).toNat]

/-- Sets a colour, six bits of it, and its copy among the sprite palettes if it has one. -/
def writePalette (p : Picture) (addr : UInt16) (value : UInt8) : Picture :=
  let index := paletteIndex addr
  let value := value &&& 0x3F
  have h : index.toNat < 32 := paletteIndex_lt addr
  have hc : (index ||| 0x10).toNat < 32 := by
    rw [UInt16.toNat_or]; exact Nat.or_lt_two_pow (n := 5) h (by decide)
  let palette := p.palette.set index.toNat value h
  { p with
    palette :=
      if index &&& 0x03 = 0 then palette.set (index ||| 0x10).toNat value hc else palette }

end Picture

end Famicom
