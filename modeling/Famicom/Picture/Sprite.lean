/-
  Sprites: the search for those of the next row, and the fetching of their patterns.

  The search goes through sprite memory while the row before is drawn.  On odd dots it reads a byte, on
  even dots it copies it.  After eight sprites it goes on looking for a ninth, but by then counts the
  byte within a sprite up along with the sprite, so it looks at the wrong bytes.

  Fetching happens at the end of the row, one sprite every eight dots.  Main statement of the search:
  it never copies past the 32 bytes there are room for, which the bounds of the vectors carry.
-/
import Famicom.Picture.Background

namespace Famicom

namespace Evaluation

/-- The sprite memory address being looked at. -/
def oamAddr (e : Evaluation) : UInt8 := (e.byte &&& 0x03) ||| (e.sprite <<< (2 : UInt8))

/-- The search starts at an address of sprite memory. -/
def start (e : Evaluation) (oamAddr : UInt8) : Evaluation :=
  { e with
    foundFirst := false, inRange := false, copied := 0, skipping := 0, finished := false
    sprite := oamAddr >>> (2 : UInt8)
    byte := oamAddr &&& 0x03 }

/-- On to the next sprite. -/
def nextSprite (e : Evaluation) : Evaluation := { e with sprite := (e.sprite + 1) &&& 0x3F }

/-- On to the next sprite, which ends the search after the last. -/
def nextSpriteOrEnd (e : Evaluation) : Evaluation :=
  let e := e.nextSprite
  if e.sprite = 0 then { e with finished := true } else e

/-- The step after a byte was copied: within a sprite of the row on to its next byte, else on to the
    next sprite. -/
def afterCopy (e : Evaluation) : Evaluation :=
  if e.inRange then
    let e := { e with
      byte := e.byte + 1, copied := e.copied + 1, foundFirst := e.foundFirst || e.sprite = 0 }
    if e.copied &&& 0x03 = 0 then nextSpriteOrEnd { e with inRange := false, byte := 0 } else e
  else e.nextSpriteOrEnd

/-- The step once there is no more room.  Of a ninth sprite the four bytes are skipped; where none was
    met, the sprite and the byte within it are counted up together. -/
def afterFull (e : Evaluation) : Evaluation :=
  if e.inRange then
    let e := { e with byte := e.byte + 1 }
    let e : Evaluation := if e.byte = 4 then { e.nextSprite with byte := 0 } else e
    if e.skipping = 0 then { e with skipping := 3 }
    else if e.skipping = 1 then { e with skipping := 0, finished := true, byte := 0 }
    else { e with skipping := e.skipping - 1 }
  else nextSpriteOrEnd { e with byte := (e.byte + 1) &&& 0x03 }

end Evaluation

namespace SpriteTile

/-- The pixel of a sprite at a distance from its left edge, two bits. -/
def pixel (t : SpriteTile) (distance : UInt8) : UInt8 :=
  let bit (plane : UInt8) : UInt8 :=
    if t.flipped then (plane >>> distance) &&& 0x01 else (plane <<< distance) >>> (7 : UInt8)
  bit t.low ||| (bit t.high <<< (1 : UInt8))

end SpriteTile

namespace SpriteLine

/-- Empties the row: nothing is covered and the first sprite is next. -/
def clear (l : SpriteLine) : SpriteLine := { l with next := 0, covered := .replicate _ false }

/-- Marks the columns from `x` on that lie under a sprite. -/
def cover (covered : Vector Bool screenWidth) (x : UInt8) : Vector Bool screenWidth :=
  (List.range 8).foldl (fun covered i => covered.setIfInBounds (x.toNat + i) true) covered

/-- Puts a sprite in its place. -/
def put (l : SpriteLine) (tile : SpriteTile) (h : l.next.toNat < 8) : SpriteLine :=
  { l with tiles := l.tiles.set l.next.toNat tile h, covered := cover l.covered tile.x }

end SpriteLine

namespace Picture

theorem secondaryIndex_lt (addr : UInt8) : (addr &&& 0x1F).toNat < 32 := by
  rw [UInt8.toNat_and]; exact Nat.lt_of_le_of_lt Nat.and_le_right (by decide)

/-- A byte of the sprites found so far. -/
def readSecondary (p : Picture) (addr : UInt8) : UInt8 :=
  have := secondaryIndex_lt addr
  p.secondaryOam[(addr &&& 0x1F).toNat]

/-- A byte of sprite memory. -/
def readOam (p : Picture) (addr : UInt8) : UInt8 :=
  have : addr.toNat < 256 := addr.toNat_lt
  p.oam[addr.toNat]

/-- Writes a byte of sprite memory. -/
def writeOam (p : Picture) (addr value : UInt8) : Picture :=
  { p with oam := p.oam.set addr.toNat value addr.toNat_lt }

/-- The byte in the buffer puts a sprite on the row. -/
def bufferOnRow (p : Picture) : Bool :=
  let top := p.evaluation.buffer.toUInt16
  top ≤ p.row && p.row < top + p.control.spriteHeight

/-- An even dot of the search, up to the address. -/
def evaluateByte (p : Picture) : Picture :=
  let e := p.evaluation
  if e.finished then
    let buffer := if e.copied < 0x20 then e.buffer else p.readSecondary e.copied
    { p with evaluation := { e.nextSprite with buffer } }
  else
    let inRange := e.inRange || p.bufferOnRow
    if h : e.copied.toNat < 32 then
      { p with
        secondaryOam := p.secondaryOam.set e.copied.toNat e.buffer h
        evaluation := { e with inRange }.afterCopy }
    else
      let buffer := p.readSecondary e.copied
      { p with
        overflow := p.overflow || inRange
        evaluation := { e with inRange, buffer }.afterFull }

/-- The search's part of a dot, on the visible dots of a visible row. -/
def evaluateSprites (p : Picture) : Picture :=
  if !p.rendering then p
  else if p.dot < 65 then
    { p with
      evaluation := { p.evaluation with buffer := 0xFF }
      secondaryOam := p.secondaryOam.setIfInBounds ((p.dot - 1) >>> (1 : UInt16)).toNat 0xFF }
  else
    let p :=
      if p.dot = 65 then { p with evaluation := p.evaluation.start p.oamAddr }
      else if p.dot = 256 then
        { p with
          sprites := { p.sprites with
            hasFirst := p.evaluation.foundFirst, count := p.evaluation.copied >>> (2 : UInt8) } }
      else p
    if p.dot &&& 1 = 1 then
      { p with evaluation := { p.evaluation with buffer := p.readOam p.oamAddr } }
    else
      let p := p.evaluateByte
      { p with oamAddr := p.evaluation.oamAddr }

/-- Where the row of a sprite's pattern is found that is shown on the next row of the picture. -/
def spritePattern (p : Picture) (y tile attributes : UInt8) : UInt16 :=
  let row : UInt8 := if p.onPrerender then 0xFF else p.row.toUInt8
  let line := row - y
  let line := if attributes &&& 0x80 != 0 then p.control.spriteHeight.toUInt8 - 1 - line else line
  let line := line.toUInt16
  if p.control.largeSprites then
    let table := if tile &&& 0x01 != 0 then 0x1000 else 0
    (table ||| ((tile &&& ~~~0x01).toUInt16 <<< (4 : UInt16))) +
      (if 8 ≤ line then line + 8 else line)
  else
    let table := if p.control.highSprites then 0x1000 else 0
    ((tile.toUInt16 <<< (4 : UInt16)) ||| table) + line

/-- Where a pattern is read that nothing will show, for want of a sprite. -/
def idlePattern (p : Picture) : UInt16 :=
  if p.control.largeSprites then 0x1FE0 else if p.control.highSprites then 0x1FF0 else 0x0FF0

variable {γ : Type} [Cartridge γ]

/-- Fetches the pattern of the next sprite of the row.  There is room for eight. -/
@[specialize] def fetchSprite (p : Picture) (c : γ) : Except PictureFault Unit × Picture × γ :=
  if h : p.sprites.next.toNat < 8 then
    let base := p.sprites.next <<< (2 : UInt8)
    let y := p.readSecondary base
    let tile := p.readSecondary (base + 1)
    let attributes := p.readSecondary (base + 2)
    let x := p.readSecondary (base + 3)
    let shown := p.sprites.next < p.sprites.count && y < 240
    let addr := if shown then p.spritePattern y tile attributes else p.idlePattern
    let (low, c) := readPattern c addr
    let (high, c) := readPattern c (addr + 8)
    let line :=
      if shown then
        p.sprites.put
          { x, low, high
            palette := ((attributes &&& 0x03) <<< (2 : UInt8)) ||| 0x10
            behind := attributes &&& 0x20 != 0
            flipped := attributes &&& 0x40 != 0 } h
      else p.sprites
    (.ok (), { p with sprites := { line with next := line.next + 1 } }, c)
  else (.error .ninthSprite, p, c)

end Picture

end Famicom
