/-
  The address registers of the picture unit, which are its scroll position as well.

  Fifteen bits: five of coarse column, five of coarse row, two that choose a name table, three of fine
  row.  `addr` is used for every fetch; `start` holds where the next row and the next picture begin.
  Both registers that set it take two writes each and share the memory of which one is next.
-/

namespace Famicom

/-- The address in use, the address to start from, the fine column, and whether the second of two
    writes is next. -/
structure Scroll where
  addr : UInt16 := 0
  start : UInt16 := 0
  fineX : UInt8 := 0
  second : Bool := false
  deriving DecidableEq, Repr, Inhabited

namespace Scroll

/-- The bits of the coarse column. -/
def coarseX : UInt16 := 0x001F

/-- The bits of the coarse row. -/
def coarseY : UInt16 := 0x03E0

/-- The bits of the fine row. -/
def fineY : UInt16 := 0x7000

/-- The bits that say where a row starts. -/
def horizontal : UInt16 := 0x041F

/-- The bits that say where a picture starts. -/
def vertical : UInt16 := 0x7BE0

/-- Where the number of the tile is found. -/
def tileAddr (s : Scroll) : UInt16 := 0x2000 ||| (s.addr &&& 0x0FFF)

/-- Where the attributes of the tile are found. -/
def attributeAddr (s : Scroll) : UInt16 :=
  0x23C0 ||| (s.addr &&& 0x0C00) ||| (s.addr >>> (4 : UInt16) &&& 0x38) |||
    (s.addr >>> (2 : UInt16) &&& 0x07)

/-- By how much the attributes of the tile are shifted in their byte. -/
def attributeShift (s : Scroll) : UInt16 :=
  (s.addr >>> (4 : UInt16) &&& 0x04) ||| (s.addr &&& 0x02)

/-- The row of the tile that is shown. -/
def tileRow (s : Scroll) : UInt16 := s.addr >>> (12 : UInt16)

/-- One tile to the right; past the last column the name table beside this one goes on. -/
def nextColumn (s : Scroll) : Scroll :=
  { s with addr := if s.addr &&& coarseX = coarseX then (s.addr &&& ~~~coarseX) ^^^ 0x0400
                   else s.addr + 1 }

/-- The coarse row and name table below those of an address.  Row 29 is the last of a name table; rows
    30 and 31, which hold attributes, are only reached by scrolling there and lead back to row 0. -/
def nextTileRow (addr : UInt16) : UInt16 :=
  let row := (addr &&& coarseY) >>> (5 : UInt16)
  if row = 29 then (addr ^^^ 0x0800) &&& ~~~coarseY
  else if row = 31 then addr &&& ~~~coarseY
  else (addr &&& ~~~coarseY) ||| ((row + 1) <<< (5 : UInt16))

/-- One row down. -/
def nextRow (s : Scroll) : Scroll :=
  { s with addr := if s.addr &&& fineY = fineY then nextTileRow (s.addr &&& ~~~fineY)
                   else s.addr + 0x1000 }

/-- A data access moves the address on by 1 or 32. -/
def skip (s : Scroll) (step : UInt16) : Scroll := { s with addr := (s.addr + step) &&& 0x7FFF }

/-- Returns to the column where rows start. -/
def restartRow (s : Scroll) : Scroll :=
  { s with addr := (s.addr &&& ~~~horizontal) ||| (s.start &&& horizontal) }

/-- Returns to the row where pictures start. -/
def restartPicture (s : Scroll) : Scroll :=
  { s with addr := (s.addr &&& ~~~vertical) ||| (s.start &&& vertical) }

/-- Chooses the name table pictures start in, by two bits. -/
def chooseTable (s : Scroll) (data : UInt8) : Scroll :=
  { s with start := (s.start &&& ~~~0x0C00) ||| ((data.toUInt16 &&& 0x03) <<< (10 : UInt16)) }

/-- Writes the scroll register: first the column, then the row. -/
def writePosition (s : Scroll) (data : UInt8) : Scroll :=
  if s.second then
    { s with
      start := (s.start &&& ~~~(fineY ||| coarseY)) |||
        ((data.toUInt16 &&& 0xF8) <<< (2 : UInt16)) ||| ((data.toUInt16 &&& 0x07) <<< (12 : UInt16))
      second := false }
  else
    { s with
      start := (s.start &&& ~~~coarseX) ||| (data.toUInt16 >>> (3 : UInt16))
      fineX := data &&& 0x07
      second := true }

/-- Writes the address register: first the high six bits, then the low byte, which brings the address into
    use. -/
def writeAddr (s : Scroll) (data : UInt8) : Scroll :=
  if s.second then
    let start := (s.start &&& 0xFF00) ||| data.toUInt16
    { s with start, addr := start, second := false }
  else
    { s with
      start := (s.start &&& 0x00FF) ||| ((data.toUInt16 &&& 0x3F) <<< (8 : UInt16))
      second := true }

/-- The first of two writes is next. -/
def expectFirst (s : Scroll) : Scroll := { s with second := false }

end Scroll

end Famicom
