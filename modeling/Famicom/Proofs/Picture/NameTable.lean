/-
  The four name tables as one plane, and the way of the scroll position through it.

  A `Spot` is a pixel of the plane, told in whole numbers.  `right` and `down` are the two ways to move;
  the tables are joined at their left and right edges and, below row 29, at their upper and lower ones.
  `Spot.colorOffset` is the picture the plane shows: the tile, the palette of its quadrant and the two
  bit planes of its line.

  `Scroll.spot` says where a scroll address stands.  Main statements: the bit tricks by which the unit
  moves the address (`spot_nextColumn`, `spot_nextRow`, `spot_restartRow`, `spot_restartPicture`) and
  by which it finds a tile (`tileAddr_toNat`, `attributeAddr_toNat`, `attributeShift_toNat`) are the
  plain arithmetic of the plane.
-/
import Famicom.Picture.Scroll
import Famicom.Proofs.Words

namespace Famicom

/-- A pixel of the four name tables. -/
structure Spot where
  /-- The column, counted through two tables that stand side by side. -/
  column : Nat
  /-- 0 in the upper two tables, 1 in the lower two. -/
  lower : Nat
  /-- The row of tiles within the table. -/
  tileRow : Nat
  /-- The row of pixels within the tile. -/
  line : Nat
  deriving DecidableEq, Repr

namespace Spot

/-- So many pixels to the right, round both tables. -/
def right (s : Spot) (n : Nat) : Spot := { s with column := (s.column + n) % 512 }

/-- One pixel down.  Below row 29 the other table goes on; rows 30 and 31, which hold attributes, lead
    back to the top of the same table. -/
def down (s : Spot) : Spot :=
  if s.line < 7 then { s with line := s.line + 1 }
  else if s.tileRow = 29 then { s with line := 0, tileRow := 0, lower := 1 - s.lower }
  else if s.tileRow = 31 then { s with line := 0, tileRow := 0 }
  else { s with line := 0, tileRow := s.tileRow + 1 }

/-- So many pixels down. -/
def downBy (s : Spot) : Nat → Spot
  | 0 => s
  | n + 1 => (s.downBy n).down

/-- The name table, of four. -/
def table (s : Spot) : Nat := 2 * s.lower + s.column / 256

/-- Where the number of the tile is found. -/
def tileAddr (s : Spot) : Nat :=
  0x2000 + 0x400 * s.table + 32 * s.tileRow + s.column % 256 / 8

/-- Where the attributes of the tile are found, a byte for four by four tiles. -/
def attributeAddr (s : Spot) : Nat :=
  0x23C0 + 0x400 * s.table + 8 * (s.tileRow / 4) + s.column % 256 / 32

/-- Which of the four quadrants of its attribute byte the tile lies in. -/
def quadrant (s : Spot) : Nat := 2 * (s.tileRow / 2 % 2) + s.column / 16 % 2

/-- The palette of the tile, of four. -/
def palette (memory : UInt16 → UInt8) (s : Spot) : Nat :=
  (memory (.ofNat s.attributeAddr)).toNat / 4 ^ s.quadrant % 4

/-- Where the first bit plane of the line of the tile is found, the patterns being those of the table at
    `base`. -/
def planeAddr (memory : UInt16 → UInt8) (base : Nat) (s : Spot) : Nat :=
  base + 16 * (memory (.ofNat s.tileAddr)).toNat + s.line

/-- The bit that a bit plane has for the pixel.  The leftmost is the highest. -/
def bit (s : Spot) (plane : UInt8) : Nat := plane.toNat / 2 ^ (7 - s.column % 8) % 2

/-- The two bits of the pixel. -/
def pixel (memory : UInt16 → UInt8) (base : Nat) (s : Spot) : Nat :=
  s.bit (memory (.ofNat (s.planeAddr memory base))) +
    2 * s.bit (memory (.ofNat (s.planeAddr memory base + 8)))

/-- The offset of the pixel's colour into the palette memory.  The first colour of every palette is the
    common backdrop. -/
def colorOffset (memory : UInt16 → UInt8) (base : Nat) (s : Spot) : Nat :=
  if s.pixel memory base = 0 then 0 else 4 * s.palette memory + s.pixel memory base

/-- To go right twice is to go right by the sum. -/
theorem right_right (s : Spot) (m n : Nat) : (s.right m).right n = s.right (m + n) := by
  simp [right, Nat.add_assoc]

/-- Within a tile, moving right does not leave it. -/
theorem right_of_lt {s : Spot} (h8 : s.column % 8 = 0) (hlt : s.column < 512) {e : Nat} (he : e < 8) :
    s.right e = { s with column := s.column + e } := by
  rw [right, Nat.mod_eq_of_lt (by omega)]

/-- Within a tile the address of the tile stays. -/
theorem right_tileAddr {s : Spot} (h8 : s.column % 8 = 0) (hlt : s.column < 512) {e : Nat}
    (he : e < 8) : (s.right e).tileAddr = s.tileAddr := by
  rw [right_of_lt h8 hlt he]
  simp only [tileAddr, table]
  omega

/-- Within a tile the byte of attributes stays. -/
theorem right_attributeAddr {s : Spot} (h8 : s.column % 8 = 0) (hlt : s.column < 512) {e : Nat}
    (he : e < 8) : (s.right e).attributeAddr = s.attributeAddr := by
  rw [right_of_lt h8 hlt he]
  simp only [attributeAddr, table]
  omega

/-- Within a tile the quadrant stays. -/
theorem right_quadrant {s : Spot} (h8 : s.column % 8 = 0) (hlt : s.column < 512) {e : Nat}
    (he : e < 8) : (s.right e).quadrant = s.quadrant := by
  rw [right_of_lt h8 hlt he]
  simp only [quadrant]
  omega

/-- There are four quadrants. -/
theorem quadrant_lt (s : Spot) : s.quadrant < 4 := by
  unfold quadrant
  omega

/-- Going right and going down do not depend on their order. -/
theorem right_down (s : Spot) (n : Nat) : (s.right n).down = s.down.right n := by
  unfold down
  by_cases hl : s.line < 7
  · simp [right, hl]
  by_cases h29 : s.tileRow = 29
  · simp [right, hl, h29]
  by_cases h31 : s.tileRow = 31
  · simp [right, hl, h31]
  · simp [right, hl, h29, h31]

end Spot

namespace Scroll

/-- The leftmost pixel of the tile that a scroll address stands on. -/
def spot (addr : UInt16) : Spot where
  column := 8 * (32 * field addr 10 1 + field addr 0 5)
  lower := field addr 11 1
  tileRow := field addr 5 5
  line := field addr 12 3

/-- Two tables side by side have 512 columns. -/
theorem spot_column_lt (addr : UInt16) : (spot addr).column < 512 := by
  have := field_lt addr 10 1
  have := field_lt addr 0 5
  simp only [spot]
  omega

/-- A scroll address has fifteen bits. -/
def Fits (addr : UInt16) : Prop := addr.toNat < 0x8000

instance (addr : UInt16) : Decidable (Fits addr) := inferInstanceAs (Decidable (_ < _))

/-! ## Moving -/

theorem nextRow_start (s : Scroll) : s.nextRow.start = s.start := rfl

theorem restartRow_start (s : Scroll) : s.restartRow.start = s.start := rfl

theorem restartPicture_start (s : Scroll) : s.restartPicture.start = s.start := rfl

/-- The bits of the column are all set in the last of 32. -/
theorem atLastColumn_iff (addr : UInt16) : addr &&& coarseX = coarseX ↔ field addr 0 5 = 31 := by
  have h : (addr &&& coarseX).toNat = field addr 0 5 := by
    rw [UInt16.toNat_and]
    show addr.toNat &&& 2 ^ 5 - 1 = addr.toNat / 2 ^ 0 % 2 ^ 5
    rw [Nat.and_two_pow_sub_one_eq_mod, Nat.pow_zero, Nat.div_one]
  rw [← UInt16.toNat_inj, h]
  rfl

/-- The bits of the line are all set in the last of eight. -/
theorem atLastLine_iff (addr : UInt16) : addr &&& fineY = fineY ↔ field addr 12 3 = 7 := by
  have h : (addr &&& fineY).toNat = field addr 12 3 * 2 ^ 12 := by
    rw [UInt16.toNat_and]
    exact and_mask addr.toNat 3 12
  rw [← UInt16.toNat_inj, h]
  show _ * 4096 = 7 * 4096 ↔ _
  omega

/-- The next column of the unit is one tile to the right in the plane. -/
theorem spot_nextColumn (s : Scroll) : spot s.nextColumn.addr = (spot s.addr).right 8 := by
  unfold nextColumn
  by_cases h : s.addr &&& coarseX = coarseX
  · -- past the last column: the column is cleared, the other table chosen, the rest stays
    have hx := (atLastColumn_iff s.addr).mp h
    have same (k n : Nat) (hk : field (~~~coarseX) k n = 2 ^ n - 1) (hn : field 0x0400 k n = 0) :
        field ((s.addr &&& ~~~coarseX) ^^^ 0x0400) k n = field s.addr k n := by
      rw [field_xor, field_and_ones _ _ _ _ hk, hn, Nat.xor_zero]
    have clear : field ((s.addr &&& ~~~coarseX) ^^^ 0x0400) 0 5 = 0 := by
      rw [field_xor, field_and_zeros _ _ _ _ rfl]; rfl
    have flip : field ((s.addr &&& ~~~coarseX) ^^^ 0x0400) 10 1 = 1 - field s.addr 10 1 := by
      rw [field_xor, field_and_ones _ _ _ _ rfl]
      exact xor_one (field_lt s.addr 10 1)
    have h10 := field_lt s.addr 10 1
    simp only [h, if_true, spot, Spot.right, clear, flip, hx, same 11 1 rfl rfl, same 5 5 rfl rfl,
      same 12 3 rfl rfl, Spot.mk.injEq, and_true]
    omega
  · have hx : field s.addr 0 5 ≠ 31 := mt (atLastColumn_iff s.addr).mpr h
    have hlt := s.addr.toNat_lt
    have hadd : (s.addr + 1).toNat = (s.addr.toNat + 1) % 2 ^ 16 := UInt16.toNat_add ..
    simp only [h, if_false, spot, Spot.right, Spot.mk.injEq]
    simp only [field, hadd, Nat.reducePow, Nat.div_one] at hx ⊢
    omega

/-- The part of a word outside a mask, where the part inside comes from another. -/
theorem field_merge_outside (v w m : UInt16) (k n : Nat) (hm : field m k n = 0)
    (hn : field (~~~m) k n = 2 ^ n - 1) : field ((v &&& ~~~m) ||| (w &&& m)) k n = field v k n := by
  rw [field_or, field_and_ones _ _ _ _ hn, field_and_zeros _ _ _ _ hm, Nat.or_zero]

/-- The part of a word inside a mask, where it comes from another. -/
theorem field_merge_inside (v w m : UInt16) (k n : Nat) (hm : field m k n = 2 ^ n - 1)
    (hn : field (~~~m) k n = 0) : field ((v &&& ~~~m) ||| (w &&& m)) k n = field w k n := by
  rw [field_or, field_and_ones _ _ _ _ hm, field_and_zeros _ _ _ _ hn, Nat.zero_or]

/-- At the start of a row the column is taken from the start of the picture. -/
theorem spot_restartRow (s : Scroll) :
    spot s.restartRow.addr = { spot s.addr with column := (spot s.start).column } := by
  simp only [spot, restartRow]
  rw [field_merge_inside _ _ _ 10 1 rfl rfl, field_merge_inside _ _ _ 0 5 rfl rfl,
    field_merge_outside _ _ _ 11 1 rfl rfl, field_merge_outside _ _ _ 5 5 rfl rfl,
    field_merge_outside _ _ _ 12 3 rfl rfl]

/-- At the start of a picture the rows are taken from there. -/
theorem spot_restartPicture (s : Scroll) :
    spot s.restartPicture.addr = { spot s.start with column := (spot s.addr).column } := by
  simp only [spot, restartPicture]
  rw [field_merge_outside _ _ _ 10 1 rfl rfl, field_merge_outside _ _ _ 0 5 rfl rfl,
    field_merge_inside _ _ _ 11 1 rfl rfl, field_merge_inside _ _ _ 5 5 rfl rfl,
    field_merge_inside _ _ _ 12 3 rfl rfl]

/-- To go back to the start of the picture once more changes nothing. -/
theorem restartPicture_twice (s : Scroll) : s.restartPicture.restartPicture = s.restartPicture := by
  have h : (((s.addr &&& ~~~vertical) ||| (s.start &&& vertical)) &&& ~~~vertical) |||
      (s.start &&& vertical) = (s.addr &&& ~~~vertical) ||| (s.start &&& vertical) := by
    -- each bit is either that of the start or that of the address
    apply UInt16.eq_of_toBitVec_eq
    apply BitVec.eq_of_getLsbD_eq
    intro i hi
    simp only [UInt16.toBitVec_or, UInt16.toBitVec_and, UInt16.toBitVec_not, BitVec.getLsbD_or,
      BitVec.getLsbD_and, BitVec.getLsbD_not]
    cases s.addr.toBitVec.getLsbD i <;> cases s.start.toBitVec.getLsbD i <;>
      cases vertical.toBitVec.getLsbD i <;> simp
  unfold restartPicture
  rw [h]

theorem coarseRow_toNat (addr : UInt16) :
    ((addr &&& coarseY) >>> (5 : UInt16)).toNat = field addr 5 5 := by
  rw [UInt16.toNat_shiftRight, UInt16.toNat_and, Nat.shiftRight_eq_div_pow]
  show (addr.toNat &&& (2 ^ 5 - 1) * 2 ^ 5) / 2 ^ 5 = _
  rw [and_mask, Nat.mul_div_cancel _ (by decide)]
  rfl

/-- Clearing the bits of the line leads to the first line of the tile. -/
theorem spot_firstLine (addr : UInt16) : spot (addr &&& ~~~fineY) = { spot addr with line := 0 } := by
  simp only [spot]
  rw [field_and_ones _ _ 10 1 rfl, field_and_ones _ _ 0 5 rfl, field_and_ones _ _ 11 1 rfl,
    field_and_ones _ _ 5 5 rfl, field_and_zeros _ _ 12 3 rfl]

/-- Clearing the bits of the row leads to the top of the table. -/
theorem spot_topRow (addr : UInt16) :
    spot (addr &&& ~~~coarseY) = { spot addr with tileRow := 0 } := by
  simp only [spot]
  rw [field_and_ones _ _ 10 1 rfl, field_and_ones _ _ 0 5 rfl, field_and_ones _ _ 11 1 rfl,
    field_and_zeros _ _ 5 5 rfl, field_and_ones _ _ 12 3 rfl]

/-- Turning the bit of the lower tables leads to the table above or below. -/
theorem spot_otherTable (addr : UInt16) :
    spot (addr ^^^ 0x0800) = { spot addr with lower := 1 - (spot addr).lower } := by
  have same (k n : Nat) (h : field 0x0800 k n = 0) : field (addr ^^^ 0x0800) k n = field addr k n := by
    rw [field_xor, h, Nat.xor_zero]
  simp only [spot]
  rw [same 10 1 rfl, same 0 5 rfl, field_xor, same 5 5 rfl, same 12 3 rfl]
  exact congrArg (Spot.mk _ · _ _) (xor_one (field_lt addr 11 1))

/-- The bits of the row can be put in by themselves. -/
theorem spot_putRow (addr row : UInt16) (h : row.toNat < 32) :
    spot ((addr &&& ~~~coarseY) ||| (row <<< (5 : UInt16))) =
      { spot addr with tileRow := row.toNat } := by
  have hn : (row <<< (5 : UInt16)).toNat = 32 * row.toNat := by
    rw [UInt16.toNat_shiftLeft, Nat.shiftLeft_eq]
    show row.toNat * 32 % 65536 = _
    omega
  have low : field (row <<< (5 : UInt16)) 0 5 = 0 := by
    rw [field, hn]
    show 32 * row.toNat / 1 % 32 = 0
    omega
  have mid : field (row <<< (5 : UInt16)) 5 5 = row.toNat := by
    rw [field, hn]
    show 32 * row.toNat / 32 % 32 = _
    omega
  have high (k n : Nat) (hk : 10 ≤ k) : field (row <<< (5 : UInt16)) k n = 0 := by
    have : 2 ^ 10 ≤ 2 ^ k := Nat.pow_le_pow_right (by decide) hk
    rw [field, hn, Nat.div_eq_of_lt (by omega), Nat.zero_mod]
  simp only [spot, field_or, low, mid, high 10 1 (by decide), high 11 1 (by decide),
    high 12 3 (by decide), Nat.or_zero]
  rw [field_and_ones _ _ 10 1 rfl, field_and_ones _ _ 0 5 rfl, field_and_ones _ _ 11 1 rfl,
    field_and_zeros _ _ 5 5 rfl, field_and_ones _ _ 12 3 rfl, Nat.zero_or]

/-- From the last line of a tile, with the fine row already cleared. -/
theorem spot_nextTileRow (addr : UInt16) (h : (spot addr).line = 0) :
    spot (nextTileRow addr) = { spot addr with line := 7 }.down := by
  have hrow := coarseRow_toNat addr
  have h5 : field addr 5 5 < 32 := field_lt addr 5 5
  have hdef : (spot addr).tileRow = field addr 5 5 := rfl
  unfold nextTileRow Spot.down
  dsimp only
  by_cases h29 : field addr 5 5 = 29
  · have : (addr &&& coarseY) >>> (5 : UInt16) = 29 := UInt16.toNat_inj.mp (hrow.trans h29)
    simp [this, hdef, h29, h, spot_topRow, spot_otherTable]
  by_cases h31 : field addr 5 5 = 31
  · have : (addr &&& coarseY) >>> (5 : UInt16) = 31 := UInt16.toNat_inj.mp (hrow.trans h31)
    simp [this, hdef, h31, h, spot_topRow]
  · have n29 : (addr &&& coarseY) >>> (5 : UInt16) ≠ 29 := fun e => h29 (hrow.symm.trans (congrArg _ e))
    have n31 : (addr &&& coarseY) >>> (5 : UInt16) ≠ 31 := fun e => h31 (hrow.symm.trans (congrArg _ e))
    have hnext : ((addr &&& coarseY) >>> (5 : UInt16) + 1).toNat = field addr 5 5 + 1 := by
      rw [UInt16.toNat_add, hrow]
      show (field addr 5 5 + 1) % 65536 = _
      omega
    -- any other row goes on to the next, which still has five bits
    rw [if_neg n29, if_neg n31, spot_putRow _ _ (by omega), hnext]
    simp [hdef, h29, h31, h]

/-- The next row of the unit is one line down in the plane. -/
theorem spot_nextRow (s : Scroll) : spot s.nextRow.addr = (spot s.addr).down := by
  have hlt : field s.addr 12 3 < 8 := field_lt s.addr 12 3
  unfold nextRow
  by_cases h : s.addr &&& fineY = fineY
  · have hline : (spot s.addr).line = 7 := (atLastLine_iff s.addr).mp h
    simp only [h, if_true]
    rw [spot_nextTileRow _ (by rw [spot_firstLine]), spot_firstLine, ← hline]
  · have hline : field s.addr 12 3 ≠ 7 := mt (atLastLine_iff s.addr).mpr h
    have hl : field s.addr 12 3 < 7 := by omega
    have hbits := s.addr.toNat_lt
    have hadd : (s.addr + 0x1000).toNat = (s.addr.toNat + 2 ^ 12) % 2 ^ 16 := UInt16.toNat_add ..
    simp only [h, if_false, spot, Spot.down, hl, if_true, Spot.mk.injEq]
    simp only [field, hadd, Nat.reducePow, Nat.div_one] at hline ⊢
    omega

/-! ## Where a tile is found -/

theorem spot_column_div (addr : UInt16) : (spot addr).column / 256 = field addr 10 1 := by
  have := field_lt addr 0 5
  simp only [spot]
  omega

theorem spot_column_mod (addr : UInt16) : (spot addr).column % 256 / 8 = field addr 0 5 := by
  have := field_lt addr 0 5
  simp only [spot]
  omega

/-- The unit reads the tile where the plane has it. -/
theorem tileAddr_toNat (s : Scroll) : s.tileAddr.toNat = (spot s.addr).tileAddr := by
  have h : s.tileAddr.toNat = 0x2000 + s.addr.toNat % 2 ^ 12 := by
    simp only [Scroll.tileAddr, UInt16.toNat_or, UInt16.toNat_and]
    show 1 * 2 ^ 13 ||| (s.addr.toNat &&& 2 ^ 12 - 1) = _
    rw [Nat.and_two_pow_sub_one_eq_mod, Nat.or_comm, or_mul_two_pow 1 (by omega)]
    omega
  rw [h, Spot.tileAddr, Spot.table, spot_column_div, spot_column_mod]
  simp only [spot, field, Nat.reducePow, Nat.div_one]
  omega

/-- The line within the tile is that of the plane. -/
theorem tileRow_toNat (s : Scroll) (h : Fits s.addr) : s.tileRow.toNat = (spot s.addr).line := by
  unfold Fits at h
  simp only [tileRow, UInt16.toNat_shiftRight, spot, field]
  show s.addr.toNat >>> 12 = _
  rw [Nat.shiftRight_eq_div_pow]
  omega

/-- The unit shifts the attributes by two bits for each quadrant. -/
theorem attributeShift_toNat (s : Scroll) :
    s.attributeShift.toNat = 2 * (spot s.addr).quadrant := by
  have h4 : (s.addr >>> (4 : UInt16) &&& 0x04).toNat = s.addr.toNat / 2 ^ 6 % 2 * 4 := by
    rw [UInt16.toNat_and, UInt16.toNat_shiftRight, Nat.shiftRight_eq_div_pow]
    show s.addr.toNat / 2 ^ 4 &&& (2 ^ 1 - 1) * 2 ^ 2 = _
    rw [and_mask]
    omega
  have h2 : (s.addr &&& 0x02).toNat = s.addr.toNat / 2 % 2 * 2 := by
    rw [UInt16.toNat_and]
    exact and_mask s.addr.toNat 1 1
  have hq : (spot s.addr).column / 16 % 2 = s.addr.toNat / 2 % 2 := by
    simp only [spot, field, Nat.reducePow, Nat.div_one]
    omega
  have hr : (spot s.addr).tileRow / 2 % 2 = s.addr.toNat / 2 ^ 6 % 2 := by
    show s.addr.toNat / 2 ^ 5 % (2 * 2 ^ 4) / 2 % 2 = _
    rw [Nat.mod_mul_right_div_self, Nat.mod_mod_of_dvd _ (by decide)]
    omega
  rw [attributeShift, UInt16.toNat_or, h4, h2, Nat.or_comm, Spot.quadrant, hq, hr]
  rw [show s.addr.toNat / 2 ^ 6 % 2 * 4 = s.addr.toNat / 2 ^ 6 % 2 * 2 ^ 2 from rfl,
    or_mul_two_pow _ (by omega)]
  omega

/-- The unit reads the attributes where the plane has them. -/
theorem attributeAddr_toNat (s : Scroll) :
    s.attributeAddr.toNat = (spot s.addr).attributeAddr := by
  have h10 : (s.addr &&& 0x0C00).toNat = s.addr.toNat / 2 ^ 10 % 4 * 2 ^ 10 := by
    rw [UInt16.toNat_and]
    exact and_mask s.addr.toNat 2 10
  have h3 : (s.addr >>> (4 : UInt16) &&& 0x38).toNat = s.addr.toNat / 2 ^ 7 % 8 * 2 ^ 3 := by
    rw [UInt16.toNat_and, UInt16.toNat_shiftRight, Nat.shiftRight_eq_div_pow]
    show s.addr.toNat / 2 ^ 4 &&& (2 ^ 3 - 1) * 2 ^ 3 = _
    rw [and_mask]
    omega
  have h0 : (s.addr >>> (2 : UInt16) &&& 0x07).toNat = s.addr.toNat / 2 ^ 2 % 8 := by
    rw [UInt16.toNat_and, UInt16.toNat_shiftRight, Nat.shiftRight_eq_div_pow]
    exact Nat.and_two_pow_sub_one_eq_mod _ 3
  -- The four parts have no digit in common: the base leaves room for the number of the table.
  have hsum (t y x : Nat) (ht : t < 4) (hy : y < 8) (hx : x < 8) :
      0x23C0 ||| t * 2 ^ 10 ||| y * 2 ^ 3 ||| x = 0x23C0 + t * 2 ^ 10 + y * 2 ^ 3 + x := by
    have h1 : 0x23C0 ||| t * 2 ^ 10 = 0x23C0 + t * 2 ^ 10 := by
      rcases (by omega : t = 0 ∨ t = 1 ∨ t = 2 ∨ t = 3) with rfl | rfl | rfl | rfl <;> rfl
    have h2 : 0x23C0 + t * 2 ^ 10 ||| y * 2 ^ 3 ||| x = y * 2 ^ 3 + x ||| (0x8F + t * 2 ^ 4) * 2 ^ 6 := by
      rw [Nat.or_assoc, Nat.or_comm (y * 2 ^ 3), or_mul_two_pow y hx, Nat.or_comm, Nat.add_comm x]
      congr 1
      omega
    rw [h1, h2, or_mul_two_pow _ (by omega)]
    omega
  have hx : (spot s.addr).column % 256 / 32 = s.addr.toNat / 2 ^ 2 % 8 := by
    simp only [spot, field, Nat.reducePow, Nat.div_one]
    omega
  simp only [attributeAddr, UInt16.toNat_or, h10, h3, h0]
  show 0x23C0 ||| _ ||| _ ||| _ = _
  rw [hsum _ _ _ (by omega) (by omega) (by omega), Spot.attributeAddr, hx, Spot.table,
    spot_column_div]
  simp only [spot, field, Nat.reducePow]
  omega

/-! ## Fifteen bits are enough -/

/-- A mask adds no bits. -/
theorem and_fits {v : UInt16} (h : Fits v) (m : UInt16) : Fits (v &&& m) := by
  unfold Fits
  rw [UInt16.toNat_and]
  exact Nat.lt_of_le_of_lt Nat.and_le_left h

theorem mask_fits (v : UInt16) {m : UInt16} (h : Fits m) : Fits (v &&& m) := by
  unfold Fits
  rw [UInt16.toNat_and]
  exact Nat.lt_of_le_of_lt Nat.and_le_right h

/-- Two words of fifteen bits have fifteen together. -/
theorem or_fits {v w : UInt16} (hv : Fits v) (hw : Fits w) : Fits (v ||| w) := by
  unfold Fits
  rw [UInt16.toNat_or]
  exact Nat.or_lt_two_pow (n := 15) hv hw

/-- Turning bits among the fifteen stays among them. -/
theorem xor_fits {v w : UInt16} (hv : Fits v) (hw : Fits w) : Fits (v ^^^ w) := by
  unfold Fits
  rw [UInt16.toNat_xor]
  exact Nat.xor_lt_two_pow (n := 15) hv hw

theorem nextColumn_fits (s : Scroll) (h : Fits s.addr) : Fits s.nextColumn.addr := by
  unfold nextColumn
  dsimp only
  split
  · exact xor_fits (and_fits h _) (by decide)
  · next hx =>
    rw [atLastColumn_iff] at hx
    unfold Fits field at *
    rw [UInt16.toNat_add]
    show (s.addr.toNat + 1) % 65536 < _
    omega

theorem nextTileRow_fits (addr : UInt16) (h : Fits addr) : Fits (nextTileRow addr) := by
  have hrow := coarseRow_toNat addr
  have h5 : field addr 5 5 < 32 := field_lt addr 5 5
  unfold nextTileRow
  dsimp only
  split
  · exact and_fits (xor_fits h (by decide)) _
  · split
    · exact and_fits h _
    · refine or_fits (and_fits h _) ?_
      unfold Fits
      rw [UInt16.toNat_shiftLeft, UInt16.toNat_add, hrow, Nat.shiftLeft_eq]
      show (field addr 5 5 + 1) % 65536 * 32 % 65536 < _
      omega

theorem nextRow_fits (s : Scroll) (h : Fits s.addr) : Fits s.nextRow.addr := by
  unfold nextRow
  dsimp only
  split
  · exact nextTileRow_fits _ (and_fits h _)
  · next hy =>
    rw [atLastLine_iff] at hy
    unfold Fits field at *
    rw [UInt16.toNat_add]
    show (s.addr.toNat + 4096) % 65536 < _
    omega

theorem restartRow_fits (s : Scroll) (h : Fits s.addr) : Fits s.restartRow.addr :=
  or_fits (and_fits h _) (mask_fits _ (by decide))

theorem restartPicture_fits (s : Scroll) (h : Fits s.addr) : Fits s.restartPicture.addr :=
  or_fits (and_fits h _) (mask_fits _ (by decide))

end Scroll

end Famicom
