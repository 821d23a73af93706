/-
  The sprites of a row: which line of their patterns is fetched, and what is seen of them.

  1. **The picture of a sprite** (`spritePixel`): the line of the sprite that lies on the row, counted
     from below if it is upside down, and of the two bit planes of this line the bits in the column,
     counted from the right if it is mirrored.
  2. **Where the pattern is found** (`spritePattern_eq`): the unit puts the address together from bits;
     as a number it is that of the plane (`spritePlane`), for small sprites and for large ones.
  3. **What is seen** (`foremost`): of the chosen sprites the first that has a colour in the column.
     The unit looks through the tiles in flight in the same order (`Shows.opaqueAt`).
  4. **Fetching** (`Loaded`): by induction over the eight fetches, those done so far have put the tiles
     of the first chosen sprites into flight, and nothing behind them (`Loaded.next`).

  Main statements: the unit fetches for every chosen sprite the two bit planes of its line
  (`sprites_loaded`), keeps them up to the next row (`row_shows`), and finds the foremost one among
  them (`Shows.opaqueAt`, `foremost_eq`).
-/
import Famicom.Proofs.Picture.SpriteSearch

namespace Famicom

/-! ## The picture of a sprite -/

/-- The line of its pattern that a sprite shows below a row.  One that is upside down counts its lines
    from the bottom. -/
def spriteLine (oam : Vector UInt8 256) (row height i : Nat) : Nat :=
  let line := row - (spriteByte oam i 0).toNat
  if spriteByte oam i 2 &&& 0x80 != 0 then height - 1 - line else line

/-- Where the first bit plane of a line of a sprite is found.  A large sprite is a pair of tiles, one
    above the other, whose lowest bit chooses the table. -/
def spritePlane (c : Control) (tile line : Nat) : Nat :=
  if c.largeSprites then 0x1000 * (tile % 2) + 16 * (2 * (tile / 2) + line / 8) + line % 8
  else (if c.highSprites then 0x1000 else 0) + 16 * tile + line

/-- The bit that a bit plane has at a distance from the left edge of the sprite. -/
def spriteBit (flipped : Bool) (plane : UInt8) (distance : Nat) : Nat :=
  plane.toNat / 2 ^ (if flipped then distance else 7 - distance) % 2

/-- The column lies under the sprite. -/
def spriteOver (oam : Vector UInt8 256) (i x : Nat) : Bool :=
  (spriteByte oam i 3).toNat ≤ x && x < (spriteByte oam i 3).toNat + 8

/-- A sprite lies over eight columns. -/
theorem spriteOver_iff (oam : Vector UInt8 256) (i x : Nat) :
    spriteOver oam i x = true ↔
      (spriteByte oam i 3).toNat ≤ x ∧ x < (spriteByte oam i 3).toNat + 8 := by
  rw [spriteOver, Bool.and_eq_true, decide_eq_true_eq, decide_eq_true_eq]

namespace Picture

/-- Where the first bit plane of the line is found that a sprite shows below the row. -/
def planeOf (p : Picture) (i : Nat) : Nat :=
  spritePlane p.control (spriteByte p.oam i 1).toNat
    (spriteLine p.oam p.row.toNat p.control.spriteHeight.toNat i)

/-- The two bits that a sprite has in a column of the row below. -/
def spritePixel (p : Picture) (memory : UInt16 → UInt8) (i x : Nat) : Nat :=
  let distance := x - (spriteByte p.oam i 3).toNat
  let flipped := spriteByte p.oam i 2 &&& 0x40 != 0
  spriteBit flipped (memory (.ofNat (p.planeOf i))) distance +
    2 * spriteBit flipped (memory (.ofNat (p.planeOf i + 8))) distance

/-- A sprite has a colour in a column of the row below. -/
def spriteOpaque (p : Picture) (memory : UInt16 → UInt8) (x i : Nat) : Bool :=
  spriteOver p.oam i x && p.spritePixel memory i x != 0

/-- The sprite that is seen in a column of the row below, if any. -/
def foremost (p : Picture) (memory : UInt16 → UInt8) (x : Nat) : Option Nat :=
  p.chosen.find? (p.spriteOpaque memory x)

/-- The offset of a sprite's colour into the palette memory, of which sprites have the second half. -/
def spriteOffset (p : Picture) (memory : UInt16 → UInt8) (i x : Nat) : Nat :=
  0x10 + 4 * ((spriteByte p.oam i 2).toNat % 4) + p.spritePixel memory i x

/-- A sprite as it is fetched for the row below. -/
def tileFor (p : Picture) (memory : UInt16 → UInt8) (i : Nat) : SpriteTile where
  x := spriteByte p.oam i 3
  low := memory (.ofNat (p.planeOf i))
  high := memory (.ofNat (p.planeOf i + 8))
  palette := ((spriteByte p.oam i 2 &&& 0x03) <<< (2 : UInt8)) ||| 0x10
  behind := spriteByte p.oam i 2 &&& 0x20 != 0
  flipped := spriteByte p.oam i 2 &&& 0x40 != 0

variable {γ : Type} [Cartridge γ] {memory : UInt16 → UInt8} {cart : Nat → γ} {p q : Picture} {d i : Nat}

/-! ## Where the pattern is found -/

theorem spriteHeight_toUInt8 (c : Control) :
    (c.spriteHeight.toUInt8 - 1).toNat = c.spriteHeight.toNat - 1 := by
  unfold Control.spriteHeight
  split <;> rfl

/-- The line that is fetched, turned over if need be. -/
theorem fetchedLine_toNat (attributes : UInt8) {row y : UInt8} {height : Nat} {top : UInt8}
    (hy : y.toNat ≤ row.toNat) (hh : row.toNat < y.toNat + height) (htop : top.toNat = height - 1) :
    (if attributes &&& 0x80 != 0 then top - (row - y) else row - y).toNat =
      if attributes &&& 0x80 != 0 then height - 1 - (row.toNat - y.toNat)
      else row.toNat - y.toNat := by
  have hline : (row - y).toNat = row.toNat - y.toNat :=
    UInt8.toNat_sub_of_le _ _ (UInt8.le_iff_toNat_le.mpr hy)
  split
  · rw [UInt8.toNat_sub_of_le _ _ (UInt8.le_iff_toNat_le.mpr (by omega)), hline, htop]
  · exact hline

theorem shifted_tile_toNat (tile : UInt8) : (tile.toUInt16 <<< (4 : UInt16)).toNat = 16 * tile.toNat := by
  have := tile.toNat_lt
  rw [UInt16.toNat_shiftLeft, UInt8.toNat_toUInt16, Nat.shiftLeft_eq]
  show _ * 2 ^ 4 % 65536 = _
  omega

theorem even_toNat (tile : UInt8) : (tile &&& ~~~0x01).toNat = 2 * (tile.toNat / 2) := by
  revert tile
  exact forall_byte (by decide +kernel)

theorem odd_toNat (tile : UInt8) : (tile &&& 0x01 != 0) = decide (tile.toNat % 2 = 1) := by
  revert tile
  exact forall_byte (by decide +kernel)

theorem palette_toNat (attributes : UInt8) :
    (((attributes &&& 0x03) <<< (2 : UInt8)) ||| 0x10).toNat = 0x10 + 4 * (attributes.toNat % 4) := by
  revert attributes
  exact forall_byte (by decide +kernel)

/-- A table and a tile of it do not overlap. -/
theorem table_or (b : Bool) {v : UInt16} (hv : v.toNat < 2 ^ 12) :
    ((if b then 0x1000 else 0 : UInt16) ||| v).toNat = (if b then 0x1000 else 0) + v.toNat := by
  cases b with
  | false =>
    show ((0 : UInt16) ||| v).toNat = 0 + v.toNat
    rw [UInt16.zero_or, Nat.zero_add]
  | true =>
    show ((0x1000 : UInt16) ||| v).toNat = 0x1000 + v.toNat
    rw [UInt16.toNat_or, Nat.or_comm]
    show v.toNat ||| 1 * 2 ^ 12 = _
    rw [or_mul_two_pow 1 hv]
    omega

/-- Of a large sprite, the lines from the eighth on lie in the second of its two tiles. -/
theorem largePattern_toNat (tile : UInt8) {line : UInt16} (hl : line.toNat < 256) :
    (((if tile &&& 0x01 != 0 then 0x1000 else 0) ||| ((tile &&& ~~~0x01).toUInt16 <<< (4 : UInt16))) +
      (if 8 ≤ line then line + 8 else line)).toNat =
      0x1000 * (tile.toNat % 2) + 16 * (2 * (tile.toNat / 2)) +
        (line.toNat + if 8 ≤ line.toNat then 8 else 0) := by
  have hlt := tile.toNat_lt
  have htile : ((tile &&& ~~~0x01).toUInt16 <<< (4 : UInt16)).toNat = 16 * (2 * (tile.toNat / 2)) := by
    rw [shifted_tile_toNat, even_toNat]
  have hline : (if 8 ≤ line then line + 8 else line).toNat =
      line.toNat + if 8 ≤ line.toNat then 8 else 0 := by
    by_cases h8 : 8 ≤ line.toNat
    · rw [if_pos h8, if_pos (show 8 ≤ line from h8), UInt16.toNat_add]
      show (_ + 8) % 65536 = _
      omega
    · rw [if_neg h8, if_neg (show ¬ 8 ≤ line from h8)]
      rfl
  have hbit : (if tile &&& 0x01 != 0 then 0x1000 else 0) = 0x1000 * (tile.toNat % 2) := by
    rw [odd_toNat]
    split <;> simp_all
  rw [UInt16.toNat_add, table_or _ (by rw [htile]; omega), htile, hline, hbit]
  split <;> omega

/-- The address of a line of a large sprite: the table is chosen by the lowest bit of the tile, and the
    lower half is the next tile. -/
theorem largePlane_toNat (tile : UInt8) {line : UInt16} (hl : line.toNat < 16) :
    (((if tile &&& 0x01 != 0 then 0x1000 else 0) ||| ((tile &&& ~~~0x01).toUInt16 <<< (4 : UInt16))) +
      (if 8 ≤ line then line + 8 else line)).toNat =
      0x1000 * (tile.toNat % 2) + 16 * (2 * (tile.toNat / 2) + line.toNat / 8) + line.toNat % 8 := by
  rw [largePattern_toNat tile (by omega)]
  split <;> omega

/-- The address of a line of a small sprite. -/
theorem smallPattern_toNat (high : Bool) (tile : UInt8) {line : UInt16} (hl : line.toNat < 256) :
    (((tile.toUInt16 <<< (4 : UInt16)) ||| (if high then 0x1000 else 0)) + line).toNat =
      (if high then 0x1000 else 0) + 16 * tile.toNat + line.toNat := by
  have hlt := tile.toNat_lt
  have htile := shifted_tile_toNat tile
  rw [UInt16.toNat_add, UInt16.or_comm, table_or _ (by rw [htile]; omega), htile]
  split <;> omega

/-- A sprite that lies on the row has that row among its lines, mirrored or not. -/
theorem planeOf_lt (p : Picture) (hl : liesOn p.oam p.row.toNat p.control.spriteHeight.toNat i = true) :
    spriteLine p.oam p.row.toNat p.control.spriteHeight.toNat i < p.control.spriteHeight.toNat := by
  simp only [liesOn, Bool.and_eq_true, decide_eq_true_eq] at hl
  unfold spriteLine
  dsimp only
  split <;> omega

/-- The pattern of a sprite on the row is fetched from where it is. -/
theorem spritePattern_eq (hv : p.onPrerender = false) (hrow : p.row.toNat < 256)
    (hl : liesOn p.oam p.row.toNat p.control.spriteHeight.toNat i = true) :
    p.spritePattern (spriteByte p.oam i 0) (spriteByte p.oam i 1) (spriteByte p.oam i 2) =
      .ofNat (p.planeOf i) := by
  have hlt := planeOf_lt p hl
  have htile := (spriteByte p.oam i 1).toNat_lt
  have hon := hl
  simp only [liesOn, Bool.and_eq_true, decide_eq_true_eq] at hon
  have hr : p.row.toUInt8.toNat = p.row.toNat := by
    rw [UInt16.toNat_toUInt8]
    exact Nat.mod_eq_of_lt hrow
  have hline := fetchedLine_toNat (spriteByte p.oam i 2) (hr ▸ hon.1) (hr ▸ hon.2)
    (spriteHeight_toUInt8 p.control)
  rw [hr] at hline
  have hline : UInt8.toNat _ = spriteLine p.oam p.row.toNat p.control.spriteHeight.toNat i := hline
  rw [← UInt16.toNat_inj, UInt16.toNat_ofNat']
  unfold spritePattern planeOf spritePlane
  simp only [hv, Bool.false_eq_true, if_false]
  generalize (if spriteByte p.oam i 2 &&& 0x80 != 0 then _ else _ : UInt8) = line at hline ⊢
  rw [← hline, spriteHeight_toNat] at hlt
  rw [← hline]
  rw [← UInt8.toNat_toUInt16 line] at hlt ⊢
  by_cases hlarge : p.control.largeSprites = true
  · rw [if_pos hlarge] at hlt
    rw [if_pos hlarge, if_pos hlarge, largePlane_toNat _ hlt]
    exact (Nat.mod_eq_of_lt (by omega)).symm
  · rw [if_neg hlarge] at hlt
    rw [if_neg hlarge, if_neg hlarge, smallPattern_toNat _ _ (by omega)]
    exact (Nat.mod_eq_of_lt (by split <;> omega)).symm

/-! ## What a sprite shows -/

/-- A bit of the plane is taken from the left, or from the right if the sprite is mirrored. -/
theorem spriteBit_toNat (flipped : Bool) (plane : UInt8) {distance : UInt8} (hd : distance.toNat < 8) :
    (if flipped then (plane >>> distance) &&& 0x01 else (plane <<< distance) >>> (7 : UInt8)).toNat =
      spriteBit flipped plane distance.toNat := by
  have hmod : distance.toNat % 8 = distance.toNat := Nat.mod_eq_of_lt hd
  unfold spriteBit
  cases flipped with
  | true =>
    show ((plane >>> distance) &&& 0x01).toNat = plane.toNat / 2 ^ distance.toNat % 2
    rw [UInt8.toNat_and, UInt8.toNat_shiftRight, hmod, Nat.shiftRight_eq_div_pow]
    exact Nat.and_two_pow_sub_one_eq_mod _ 1
  | false =>
    show ((plane <<< distance) >>> (7 : UInt8)).toNat = plane.toNat / 2 ^ (7 - distance.toNat) % 2
    rw [UInt8.toNat_shiftRight, UInt8.toNat_shiftLeft, hmod, Nat.shiftLeft_eq,
      Nat.shiftRight_eq_div_pow]
    exact top_digit (n := 7) _ (by omega)

theorem spriteBit_lt (flipped : Bool) (plane : UInt8) (distance : Nat) :
    spriteBit flipped plane distance < 2 := Nat.mod_lt _ (by decide)

/-- A column under a sprite, seen from the left edge of the sprite. -/
theorem spriteOver_distance {left x : UInt8} :
    (left.toNat ≤ x.toNat && x.toNat < left.toNat + 8) = (left ≤ x && x - left < 8) := by
  by_cases hle : left ≤ x
  · have hle' : left.toNat ≤ x.toNat := hle
    have hsub : (x - left).toNat = x.toNat - left.toNat := UInt8.toNat_sub_of_le _ _ hle
    have hlt : x - left < 8 ↔ x.toNat < left.toNat + 8 := by
      rw [UInt8.lt_iff_toNat_lt, hsub]
      show _ < 8 ↔ _
      omega
    simp only [hle, hle', hlt]
  · have hle' : ¬ left.toNat ≤ x.toNat := hle
    simp only [hle, hle', decide_false, Bool.false_and]

/-- The two bits that a fetched sprite shows. -/
theorem tileFor_pixel {x : UInt8} (h : spriteOver p.oam i x.toNat = true) :
    ((p.tileFor memory i).pixel (x - (p.tileFor memory i).x)).toNat = p.spritePixel memory i x.toNat := by
  rw [spriteOver_iff] at h
  have hle : spriteByte p.oam i 3 ≤ x := h.1
  have hd : (x - spriteByte p.oam i 3).toNat = x.toNat - (spriteByte p.oam i 3).toNat :=
    UInt8.toNat_sub_of_le _ _ hle
  have hlt : (x - spriteByte p.oam i 3).toNat < 8 := by omega
  have low := spriteBit_toNat (spriteByte p.oam i 2 &&& 0x40 != 0) (memory (.ofNat (p.planeOf i))) hlt
  have high := spriteBit_toNat (spriteByte p.oam i 2 &&& 0x40 != 0)
    (memory (.ofNat (p.planeOf i + 8))) hlt
  unfold SpriteTile.pixel tileFor spritePixel
  dsimp only
  rw [two_bits _ _ (by rw [low]; exact spriteBit_lt _ _ _) (by rw [high]; exact spriteBit_lt _ _ _),
    low, high, hd]

/-- A pixel of a sprite is of two bits. -/
theorem spritePixel_lt (p : Picture) (memory : UInt16 → UInt8) (i x : Nat) : p.spritePixel memory i x < 4 := by
  have low := spriteBit_lt (spriteByte p.oam i 2 &&& 0x40 != 0) (memory (.ofNat (p.planeOf i)))
    (x - (spriteByte p.oam i 3).toNat)
  have high := spriteBit_lt (spriteByte p.oam i 2 &&& 0x40 != 0) (memory (.ofNat (p.planeOf i + 8)))
    (x - (spriteByte p.oam i 3).toNat)
  unfold spritePixel
  dsimp only
  omega

/-- The offset of the colour that a fetched sprite shows. -/
theorem tileFor_offset (memory : UInt16 → UInt8) {x : UInt8} (h : spriteOver p.oam i x.toNat = true) :
    ((p.tileFor memory i).palette + (p.tileFor memory i).pixel (x - (p.tileFor memory i).x)).toNat =
      p.spriteOffset memory i x.toNat := by
  have hlt := spritePixel_lt p memory i x.toNat
  have hpal : (p.tileFor memory i).palette.toNat = 0x10 + 4 * ((spriteByte p.oam i 2).toNat % 4) :=
    palette_toNat _
  rw [UInt8.toNat_add, tileFor_pixel h, hpal, spriteOffset]
  omega

/-! ## Which sprite is seen -/

/-- The place among the chosen sprites of the one that is seen in a column, from place `k` on. -/
def placeFrom (p : Picture) (memory : UInt16 → UInt8) (x k : Nat) : Option Nat :=
  (List.range' k (p.chosen.length - k)).find? fun j => p.spriteOpaque memory x (p.chosen.getD j 0)

/-- The line shows the sprites that are chosen on the row of `p`. -/
structure Shows (memory : UInt16 → UInt8) (p : Picture) (l : SpriteLine) : Prop where
  count : l.count.toNat = p.chosen.length
  hasFirst : l.hasFirst = true ↔ 0 ∈ p.chosen
  tiles : ∀ k (hk : k < 8), k < p.chosen.length → l.tiles[k] = p.tileFor memory (p.chosen.getD k 0)
  covered : ∀ x (hx : x < screenWidth), l.covered[x] = true ↔ ∃ i ∈ p.chosen, spriteOver p.oam i x = true

/-- A fetched sprite as it is seen in a column. -/
def seenTile (p : Picture) (memory : UInt16 → UInt8) (x j : Nat) : SpriteTile × UInt8 × Nat :=
  (p.tileFor memory (p.chosen.getD j 0), .ofNat (p.spriteOffset memory (p.chosen.getD j 0) x), j)

variable {l : SpriteLine}

/-- Looking at one sprite finds a colour where it has one. -/
theorem tileFor_pixel_eq_zero (p : Picture) (memory : UInt16 → UInt8) (x : UInt8) (i : Nat) :
    (if (p.tileFor memory i).x ≤ x && x - (p.tileFor memory i).x < 8 then
      (p.tileFor memory i).pixel (x - (p.tileFor memory i).x) else 0) = 0 ↔
      p.spriteOpaque memory x.toNat i = false := by
  have hover : ((p.tileFor memory i).x ≤ x && x - (p.tileFor memory i).x < 8) =
      spriteOver p.oam i x.toNat := spriteOver_distance.symm
  rw [hover, spriteOpaque]
  cases h : spriteOver p.oam i x.toNat with
  | false => simp
  | true =>
    rw [if_pos rfl, ← UInt8.toNat_inj, tileFor_pixel h]
    simp

/-- The first opaque tile in flight belongs to the first sprite with an opaque pixel here. -/
theorem opaqueFrom_eq (h : Shows memory p l) (x : UInt8) (m k : Nat) (hk : k + m = p.chosen.length) :
    l.opaqueFrom x k = (p.placeFrom memory x.toNat k).map (p.seenTile memory x.toNat) := by
  have hlen := chosen_length_le p
  induction m generalizing k with
  | zero =>
    rw [SpriteLine.opaqueFrom, placeFrom, show p.chosen.length - k = 0 by omega]
    split
    · rw [if_neg (by rw [h.count]; omega)]
      rfl
    · rfl
  | succ m ih =>
    have hpixel := tileFor_pixel_eq_zero p memory x (p.chosen.getD k 0)
    have hsub : p.chosen.length - k = p.chosen.length - (k + 1) + 1 := by omega
    rw [SpriteLine.opaqueFrom, dif_pos (by omega : k < 8), if_pos (by rw [h.count]; omega),
      h.tiles k (by omega) (by omega), placeFrom, hsub, List.range'_succ, List.find?_cons]
    dsimp only
    cases hseen : p.spriteOpaque memory x.toNat (p.chosen.getD k 0) with
    | false =>
      rw [if_pos (hpixel.mpr hseen)]
      exact ih (k + 1) (by omega)
    | true =>
      have hover : spriteOver p.oam (p.chosen.getD k 0) x.toNat = true := by
        rw [spriteOpaque, Bool.and_eq_true] at hseen
        exact hseen.1
      rw [if_neg (fun z => by rw [hpixel.mp z] at hseen; cases hseen)]
      have hcond : ((p.tileFor memory (p.chosen.getD k 0)).x ≤ x &&
          x - (p.tileFor memory (p.chosen.getD k 0)).x < 8) = true := spriteOver_distance.symm.trans hover
      have hoff := tileFor_offset memory hover
      rw [if_pos hcond, ← UInt8.ofNat_toNat (x := _ + _), hoff]
      rfl

/-- The sprite that is found in a column is the foremost one. -/
theorem Shows.opaqueAt (h : Shows memory p l) (x : UInt8) :
    l.opaqueAt x = (p.placeFrom memory x.toNat 0).map (p.seenTile memory x.toNat) := by
  unfold SpriteLine.opaqueAt
  dsimp only
  split
  · exact opaqueFrom_eq h x p.chosen.length 0 (Nat.zero_add _)
  · next hc =>
    -- No sprite is over the column, so none is seen there.
    rw [h.covered x.toNat x.toNat_lt] at hc
    have hnone : p.placeFrom memory x.toNat 0 = none := by
      refine List.find?_eq_none.mpr fun j hj hseen => hc ⟨p.chosen.getD j 0, ?_, ?_⟩
      · rw [List.mem_range'_1] at hj
        exact getD_mem (by omega)
      · rw [spriteOpaque, Bool.and_eq_true] at hseen
        exact hseen.1
    rw [hnone]
    rfl

/-- The places of the sprites shown, in order, name those sprites. -/
theorem chosen_places (p : Picture) :
    (List.range' 0 p.chosen.length).map (fun j => p.chosen.getD j 0) = p.chosen := by
  refine List.ext_getElem (by simp) fun n h₁ h₂ => ?_
  simp [List.getElem?_eq_getElem h₂]

/-- The sprite in the place that is seen is the foremost one. -/
theorem foremost_eq (p : Picture) (x : Nat) :
    p.foremost memory x = (p.placeFrom memory x 0).map fun j => p.chosen.getD j 0 := by
  rw [foremost, placeFrom, Nat.sub_zero]
  conv => lhs; rw [← chosen_places p]
  exact List.find?_map

/-- The sprites shown are in the order of sprite memory. -/
theorem chosen_sorted (p : Picture) : p.chosen.Pairwise (· < ·) :=
  (List.pairwise_lt_range.filter _).sublist (List.take_sublist _ _)

/-- The first sprite of all, if it is chosen, is the first of the row. -/
theorem chosen_first (h : 0 ∈ p.chosen) : p.chosen.getD 0 0 = 0 := by
  have hs := chosen_sorted p
  generalize p.chosen = l at h hs
  cases l with
  | nil => rfl
  | cons i rest =>
    rcases List.mem_cons.mp h with rfl | hrest
    · rfl
    · exact absurd (List.rel_of_pairwise_cons hs hrest) (Nat.not_lt_zero i)

/-- It is seen wherever it has a colour. -/
theorem placeFrom_first (p : Picture) (memory : UInt16 → UInt8) (x : Nat) :
    (p.placeFrom memory x 0 = some 0 ∧ 0 ∈ p.chosen) ↔
      0 ∈ p.chosen ∧ p.spriteOpaque memory x 0 = true := by
  constructor
  · rintro ⟨hplace, hmem⟩
    have hseen := List.find?_some hplace
    rw [chosen_first hmem] at hseen
    exact ⟨hmem, hseen⟩
  · rintro ⟨hmem, hseen⟩
    have hlen := List.length_pos_of_mem hmem
    refine ⟨?_, hmem⟩
    rw [placeFrom, show p.chosen.length - 0 = p.chosen.length - 1 + 1 by omega, List.range'_succ,
      List.find?_cons, chosen_first hmem, hseen]

/-! ## Fetching the sprites -/

/-- A cartridge that answers as `memory` does also when it has just been shown a pattern. -/
def AnswersOn (memory : UInt16 → UInt8) (c : γ) : Prop :=
  ∀ addr, Answers memory (readPattern c addr).2

/-- After `n` fetches the first `n` of the sprites chosen on the row of `p` can be shown. -/
structure Loaded (memory : UInt16 → UInt8) (p q : Picture) (n : Nat) : Prop where
  found : Found p q
  tiles : ∀ k (hk : k < 8), k < n → k < p.chosen.length →
    q.sprites.tiles[k] = p.tileFor memory (p.chosen.getD k 0)
  covered : ∀ x (hx : x < screenWidth), q.sprites.covered[x] = true ↔
    ∃ k < n, k < p.chosen.length ∧ spriteOver p.oam (p.chosen.getD k 0) x = true

/-- A tile covers its eight columns and those covered before. -/
theorem cover_getElem (covered : Vector Bool screenWidth) (left : UInt8) (x : Nat) (hx : x < screenWidth) :
    (SpriteLine.cover covered left)[x] = true ↔
      covered[x] = true ∨ left.toNat ≤ x ∧ x < left.toNat + 8 := by
  have step (n : Nat) :
      ((List.range n).foldl (fun c i => c.setIfInBounds (left.toNat + i) true) covered)[x] = true ↔
        covered[x] = true ∨ left.toNat ≤ x ∧ x < left.toNat + n := by
    induction n with
    | zero =>
      show covered[x] = true ↔ _
      constructor
      · exact .inl
      · rintro (h | h)
        · exact h
        · omega
    | succ n ih =>
      rw [List.range_succ, List.foldl_append, List.foldl_cons, List.foldl_nil,
        Vector.getElem_setIfInBounds]
      split
      · next he => exact ⟨fun _ => .inr (by omega), fun _ => rfl⟩
      · next he =>
        rw [ih]
        constructor
        · rintro (h | h)
          · exact .inl h
          · exact .inr (by omega)
        · rintro (h | h)
          · exact .inl h
          · exact .inr (by omega)
  exact step 8

namespace Loaded

variable {n : Nat}

/-- What has been fetched depends on the sprites in flight and the secondary memory only. -/
theorem congr (h : Loaded memory p q n) {q' : Picture} (hs : q'.sprites = q.sprites)
    (hsec : q'.secondaryOam = q.secondaryOam) : Loaded memory p q' n := by
  refine ⟨h.found.congr (by rw [hs]) (by rw [hs]) hsec, ?_, ?_⟩
  · rw [hs]
    exact h.tiles
  · rw [hs]
    exact h.covered

end Loaded

/-- A byte of the sprite that is fetched next. -/
theorem Found.readSecondary (h : Found p q) (hlt : q.sprites.next.toNat < p.chosen.length) {b : UInt8}
    {n : Nat} (hb : b.toNat = n) (hn : n < 4) :
    q.readSecondary ((q.sprites.next <<< (2 : UInt8)) + b) =
      spriteByte p.oam (p.chosen.getD q.sprites.next.toNat 0) n := by
  have hlen := chosen_length_le p
  generalize hj : q.sprites.next.toNat = j at hlt ⊢
  have hbase : (q.sprites.next <<< (2 : UInt8)).toNat = 4 * j := by
    rw [UInt8.toNat_shiftLeft, hj, Nat.shiftLeft_eq]
    show j * 2 ^ 2 % 256 = _
    omega
  have haddr : ((q.sprites.next <<< (2 : UInt8)) + b &&& 0x1F).toNat = 4 * j + n := by
    rw [UInt8.toNat_and, UInt8.toNat_add, hbase, hb]
    show _ % 256 &&& 2 ^ 5 - 1 = _
    rw [Nat.and_two_pow_sub_one_eq_mod]
    omega
  have hstored := h.stored (4 * j + n) (by omega) (by omega)
  rw [show (4 * j + n) / 4 = j by omega, show (4 * j + n) % 4 = n by omega] at hstored
  unfold Picture.readSecondary
  simp only [haddr]
  exact hstored

/-- A sprite that is shown lies on the row. -/
theorem chosen_lies {j : Nat} (hj : j < p.chosen.length) :
    liesOn p.oam p.row.toNat p.control.spriteHeight.toNat (p.chosen.getD j 0) = true :=
  (List.mem_filter.mp (List.mem_of_mem_take (getD_mem hj))).2

/-- The pattern of a sprite does not depend on the dot of the row. -/
theorem spritePattern_sameRow (h : SameRow p q) (y tile attributes : UInt8) :
    q.spritePattern y tile attributes = p.spritePattern y tile attributes := by
  unfold spritePattern
  rw [h.onPrerender, h.row, h.control]

/-- The unit has a sprite to fetch. -/
def fetchesSprite (q : Picture) : Bool :=
  q.sprites.next < q.sprites.count && q.readSecondary (q.sprites.next <<< (2 : UInt8)) < 240

/-- The sprite that the unit fetches. -/
def nextTile (q : Picture) (c : γ) : SpriteTile :=
  let base := q.sprites.next <<< (2 : UInt8)
  let attributes := q.readSecondary (base + 2)
  let addr := q.spritePattern (q.readSecondary base) (q.readSecondary (base + 1)) attributes
  { x := q.readSecondary (base + 3)
    low := (readPattern c addr).1
    high := (readPattern (readPattern c addr).2 (addr + 8)).1
    palette := ((attributes &&& 0x03) <<< (2 : UInt8)) ||| 0x10
    behind := attributes &&& 0x20 != 0
    flipped := attributes &&& 0x40 != 0 }

/-- A fetch of a sprite that was found puts its tile into flight. -/
theorem fetchSprite_shown (hnext : q.sprites.next.toNat < 8) (h : q.fetchesSprite = true) (c : γ) :
    (q.fetchSprite c).2.1.sprites =
      { q.sprites.put (q.nextTile c) hnext with next := q.sprites.next + 1 } := by
  have h : (q.sprites.next < q.sprites.count &&
      q.readSecondary (q.sprites.next <<< (2 : UInt8)) < 240) = true := h
  unfold fetchSprite
  rw [dif_pos hnext]
  simp only [h, if_true]
  rfl

/-- A fetch beyond those found puts nothing there. -/
theorem fetchSprite_idle (hnext : q.sprites.next.toNat < 8) (h : q.fetchesSprite = false) (c : γ) :
    (q.fetchSprite c).2.1.sprites = { q.sprites with next := q.sprites.next + 1 } := by
  have h : (q.sprites.next < q.sprites.count &&
      q.readSecondary (q.sprites.next <<< (2 : UInt8)) < 240) = false := h
  unfold fetchSprite
  rw [dif_pos hnext]
  simp only [h, Bool.false_eq_true, if_false]

/-- The unit has a sprite to fetch as long as there are chosen ones. -/
theorem Found.fetchesSprite (h : Found p q) (hrow : p.row.toNat < 240) :
    q.fetchesSprite = decide (q.sprites.next.toNat < p.chosen.length) := by
  have hcount : q.sprites.next < q.sprites.count ↔ q.sprites.next.toNat < p.chosen.length := by
    rw [UInt8.lt_iff_toNat_lt, h.count]
  unfold Picture.fetchesSprite
  by_cases hlt : q.sprites.next.toNat < p.chosen.length
  · have htop := h.readSecondary hlt (b := 0) (n := 0) rfl (by decide)
    have hon := chosen_lies hlt
    simp only [liesOn, Bool.and_eq_true, decide_eq_true_eq] at hon
    rw [UInt8.add_zero] at htop
    rw [htop, decide_eq_true (hcount.mpr hlt), decide_eq_true hlt, Bool.true_and, decide_eq_true_eq,
      UInt8.lt_iff_toNat_lt]
    show _ < 240
    exact Nat.lt_of_le_of_lt hon.1 hrow
  · rw [decide_eq_false (mt hcount.mp hlt), decide_eq_false hlt, Bool.false_and]

/-- What it fetches is one of the chosen sprites. -/
theorem Found.nextTile (h : Found p q) (hr : SameRow p q) (hv : p.onPrerender = false)
    (hrow : p.row.toNat < 240) (hlt : q.sprites.next.toNat < p.chosen.length) (c : γ)
    (ha : Answers memory c) (hon : AnswersOn memory c) :
    q.nextTile c = p.tileFor memory (p.chosen.getD q.sprites.next.toNat 0) := by
  have htop := h.readSecondary hlt (b := 0) (n := 0) rfl (by decide)
  have htile := h.readSecondary hlt (b := 1) (n := 1) rfl (by decide)
  have hattr := h.readSecondary hlt (b := 2) (n := 2) rfl (by decide)
  have hleft := h.readSecondary hlt (b := 3) (n := 3) rfl (by decide)
  have hlies := chosen_lies hlt
  rw [UInt8.add_zero] at htop
  generalize p.chosen.getD q.sprites.next.toNat 0 = i at htop htile hattr hleft hlies ⊢
  have hpattern := spritePattern_eq hv (by omega) hlies
  rw [← spritePattern_sameRow hr] at hpattern
  unfold Picture.nextTile tileFor
  dsimp only
  rw [htop, htile, hattr, hleft, hpattern]
  rw [show (readPattern c _).1 = _ from ha _, show (readPattern (readPattern c _).2 _).1 = _ from hon _ _,
    UInt16.ofNat_add]
  rfl

/-- One more sprite is fetched, if there is one more. -/
theorem Loaded.fetch {n : Nat} (h : Loaded memory p q n) (hnext : q.sprites.next.toNat = n) (h8 : n < 8)
    (hr : SameRow p q) (hv : p.onPrerender = false) (hrow : p.row.toNat < 240) (c : γ)
    (ha : Answers memory c) (hon : AnswersOn memory c) :
    Loaded memory p (q.fetchSprite c).2.1 (n + 1) := by
  have hsec : (q.fetchSprite c).2.1.secondaryOam = q.secondaryOam :=
    congrArg SpriteStore.secondaryOam (fetchSprite_store q c)
  have hfetches := h.found.fetchesSprite hrow
  rw [hnext] at hfetches
  by_cases hlt : n < p.chosen.length
  · rw [decide_eq_true hlt] at hfetches
    have hs := fetchSprite_shown (hnext ▸ h8) hfetches c
    rw [h.found.nextTile hr hv hrow (hnext ▸ hlt) c ha hon] at hs
    refine ⟨h.found.congr (by rw [hs]; rfl) (by rw [hs]; rfl) hsec, ?_,
      ?_⟩
    · intro k hk hkn hkl
      simp only [hs, SpriteLine.put, hnext]
      rw [Vector.getElem_set]
      split
      · next he => rw [he]
      · next he => exact h.tiles k hk (by omega) hkl
    · intro x hx
      simp only [hs, SpriteLine.put, hnext]
      rw [cover_getElem, h.covered x hx]
      constructor
      · rintro (⟨k, hk, hover⟩ | hover)
        · exact ⟨k, Nat.lt_succ_of_lt hk, hover⟩
        · exact ⟨n, Nat.lt_succ_self n, hlt, (spriteOver_iff _ _ _).mpr hover⟩
      · rintro ⟨k, hk, hkl, hover⟩
        by_cases he : k = n
        · subst he
          exact .inr ((spriteOver_iff _ _ _).mp hover)
        · exact .inl ⟨k, by omega, hkl, hover⟩
  · rw [decide_eq_false hlt] at hfetches
    have hs := fetchSprite_idle (hnext ▸ h8) hfetches c
    refine ⟨h.found.congr (by rw [hs]) (by rw [hs]) hsec, ?_, ?_⟩
    · intro k hk hkn hkl
      simp only [hs]
      exact h.tiles k hk (by omega) hkl
    · intro x hx
      simp only [hs]
      rw [h.covered x hx]
      constructor
      · rintro ⟨k, hk, hover⟩
        exact ⟨k, Nat.lt_succ_of_lt hk, hover⟩
      · rintro ⟨k, hk, hkl, hover⟩
        exact ⟨k, by omega, hkl, hover⟩

theorem fetcher_sameRow (q : Picture) (d : Nat) : SameRow q (q.fetcher d) := by
  have ho := turnRow_outline (q.onDot d)
  exact ⟨congrArg Outline.settings ho, congrArg Outline.oddFrame ho, congrArg Outline.row ho⟩

/-- The first dot after the search empties the row. -/
theorem Found.loaded (h : Found p q) (hd : Drawing q 256) (c : γ) :
    Loaded memory p (q.tick c).2.1 0 := by
  have hstore := sprite_store_first hd c
  have hs : (q.tick c).2.1.sprites = q.sprites.clear := congrArg SpriteStore.sprites hstore
  have hsec : (q.tick c).2.1.secondaryOam = q.secondaryOam := congrArg SpriteStore.secondaryOam hstore
  refine ⟨h.congr (by rw [hs]; rfl) (by rw [hs]; rfl) hsec,
    fun k _ hk => absurd hk (Nat.not_lt_zero k), fun x hx => ?_⟩
  simp only [hs, SpriteLine.clear, Vector.getElem_replicate]
  simp

/-- Of the eight dots that belong to a sprite, one fetches it. -/
theorem Loaded.next {m : Nat} (h : Loaded memory p q ((m + 4) / 8)) (hm : m < 63)
    (hnext : q.sprites.next.toNat = (m + 4) / 8) (hd : Drawing q (257 + m)) (hr : SameRow p q)
    (hv : p.onPrerender = false) (hrow : p.row.toNat < 240) (c : γ) (ha : Answers memory c)
    (hon : AnswersOn memory c) : Loaded memory p (q.tick c).2.1 ((m + 5) / 8) := by
  have hstore := sprite_store hd (by omega) (by omega) c
  have hfetcher := fetcher_store q (d := 257 + m + 1) (by omega)
  rw [if_neg (by omega)] at hfetcher
  by_cases h4 : (257 + m - 256) % 8 = 4
  · have hf : Loaded memory p (q.fetcher (257 + m + 1)) ((m + 4) / 8) :=
      h.congr (congrArg SpriteStore.sprites hfetcher) (congrArg SpriteStore.secondaryOam hfetcher)
    have hn : (q.fetcher (257 + m + 1)).sprites.next.toNat = (m + 4) / 8 := by
      rw [fetcher_next _ (by omega) (by omega), hnext]
    rw [if_pos h4] at hstore
    rw [show (m + 5) / 8 = (m + 4) / 8 + 1 by omega]
    exact (hf.fetch hn (by omega) (hr.trans (fetcher_sameRow q _)) hv hrow c ha hon).congr
      (congrArg SpriteStore.sprites hstore) (congrArg SpriteStore.secondaryOam hstore)
  · rw [if_neg h4] at hstore
    rw [show (m + 5) / 8 = (m + 4) / 8 by omega]
    exact h.congr (congrArg SpriteStore.sprites hstore) (congrArg SpriteStore.secondaryOam hstore)

/-- After the 64 dots the sprites of the next row can be shown. -/
theorem sprites_loaded (h : Drawing p 0) (hv : p.onPrerender = false) (hrow : p.row.toNat < 240)
    (hf : Found p (p.after cart 256)) (ha : ∀ n, Answers memory (cart n))
    (hon : ∀ n, AnswersOn memory (cart n)) (m : Nat) (hm : m < 64) :
    Loaded memory p (p.after cart (257 + m)) ((m + 4) / 8) := by
  have hbound := Drawing.le_rowDots p
  induction m with
  | zero =>
    rw [Nat.add_zero, after_succ _ _ 256]
    exact hf.loaded (h.along cart 256 (by omega)).1 (cart 256)
  | succ m ih =>
    obtain ⟨hd, hr⟩ := h.along cart (257 + m) (by omega)
    rw [← Nat.add_assoc, after_succ]
    exact (ih (by omega)).next (by omega) (sprites_next h m (by omega)).2 hd hr hv hrow _ (ha _) (hon _)

/-! ## To the next row -/

theorem fetchBackground_store (q : Picture) (c : γ) : (q.fetchBackground c).1.store = q.store := by
  unfold fetchBackground
  split
  · rfl
  · split
    · rfl
    · split <;> rfl

theorem prefetchDot_store (q : Picture) (c : γ) : (q.prefetchDot c).1.store = q.store := by
  have hf := fetchBackground_store q c
  unfold prefetchDot
  dsimp only
  split
  · exact hf
  · split
    · exact hf
    · split
      · exact hf
      · exact hf

theorem idleDot_store (q : Picture) (c : γ) : (q.idleDot c).1.store = q.store := by
  unfold idleDot
  split <;> rfl

/-- The last dots of a row leave sprite memory and the sprites in flight alone. -/
theorem rest_store (h : Drawing p 0) (cart : Nat → γ) (m : Nat) (hm : 320 + m < p.rowDots) :
    (p.after cart (320 + m)).store = (p.after cart 320).store := by
  induction m with
  | zero => rfl
  | succ m ih =>
    obtain ⟨hd, hr⟩ := h.along cart (320 + m) (by omega)
    rw [← ih (by omega), ← Nat.add_assoc, after_succ,
      hd.tick_drawing (by rw [hr.rowDots]; exact hm), if_neg (by omega), if_neg (by omega)]
    split
    · exact prefetchDot_store _ _
    · split
      · exact idleDot_store _ _
      · rfl

/-- The next row begins with what the last fetch has left. -/
theorem row_store (h : Drawing p 0) (cart : Nat → γ) :
    ∃ q, SameRow p q ∧ p.after cart p.rowDots = q.beginRow ∧ q.sprites = (p.after cart 320).sprites ∧
      q.oamAddr = (p.after cart 320).oamAddr ∧ q.oam = (p.after cart 320).oam := by
  have hbound := Drawing.le_rowDots p
  obtain ⟨m, hm⟩ : ∃ m, p.rowDots = 320 + m + 1 := ⟨p.rowDots - 321, by omega⟩
  obtain ⟨hd, hr⟩ := h.along cart (320 + m) (by omega)
  have hstore := rest_store h cart m (by omega)
  refine ⟨p.after cart (320 + m), hr, ?_, ?_⟩
  · rw [hm, after_succ, hd.tick_last (by rw [hr.rowDots, hm])]
  · generalize p.after cart 320 = r at hstore ⊢
    exact ⟨congrArg SpriteStore.sprites hstore, congrArg SpriteStore.oamAddr hstore,
      congrArg SpriteStore.oam hstore⟩

/-- A row that is drawn leaves the address where the search of the next is to start. -/
theorem row_oamAddr (h : Drawing p 0) : (p.after cart p.rowDots).oamAddr = 0 := by
  have hbound := Drawing.le_rowDots p
  obtain ⟨q, -, hend, -, haddr, -⟩ := row_store h cart
  have hlast : (p.after cart 320).oamAddr = 0 := by
    have hd := (h.along cart 319 (by omega)).1
    rw [after_succ _ _ 319]
    generalize p.after cart 319 = r at hd ⊢
    have hstore := sprite_store hd (by decide) (by decide) (cart 319)
    rw [if_neg (by decide)] at hstore
    exact congrArg SpriteStore.oamAddr hstore
  have hbegin : q.beginRow.oamAddr = q.oamAddr := by
    unfold beginRow
    split <;> rfl
  rw [hend, hbegin, haddr, hlast]

/-- The dots of the sprite fetches leave sprite memory alone. -/
theorem sprite_oam (h : Drawing p d) (h1 : 256 ≤ d) (h2 : d < 320) (c : γ) :
    (p.tick c).2.1.oam = p.oam := by
  by_cases h256 : d = 256
  · subst h256
    exact congrArg SpriteStore.oam (sprite_store_first h c)
  · have hstore := sprite_store h (by omega) h2 c
    split at hstore
    · rw [fetchSprite_store, fetcher_store p (by omega)] at hstore
      exact congrArg SpriteStore.oam hstore
    · exact congrArg SpriteStore.oam hstore

/-- So do the dots of the row before the first, if the sprite address is zero. -/
theorem prerender_oam_next (h : Drawing p d) (hd : d < 256) (hv : p.onPrerender = true)
    (h0 : p.oamAddr = 0) (c : γ) (ha : Answers memory c) :
    (p.tick c).2.1.oam = p.oam ∧ (p.tick c).2.1.oamAddr = 0 := by
  have hf := fetched_eq (p := p) (d := d + 1) (by omega) ha
  have hp : ((p.onDot (d + 1)).fetched c).onPrerender = true := by
    rw [hf]
    exact hv
  have haddr : ((p.onDot (d + 1)).fetched c).oamAddr = 0 := by
    rw [hf]
    exact h0
  have hoam : ((p.onDot (d + 1)).fetched c).oam = p.oam := by
    rw [hf]
    rfl
  rw [h.tick_pixel hd, pixelDot_fst, if_pos hp]
  generalize (p.onDot (d + 1)).fetched c = q at haddr hoam ⊢
  split
  · have hbegin : q.beginPicture.oam = q.oam ∧ q.beginPicture.oamAddr = q.oamAddr := by
      unfold beginPicture
      dsimp only
      split
      · dsimp only
        rw [if_neg (by rw [haddr]; simp)]
        exact ⟨rfl, rfl⟩
      · rw [if_neg (by rw [haddr]; simp)]
        exact ⟨rfl, rfl⟩
    exact ⟨hbegin.1.trans hoam, hbegin.2.trans haddr⟩
  · exact ⟨hoam, haddr⟩

/-- The row before the first leaves sprite memory alone if the address is at its start. -/
theorem prerender_oam (h : Drawing p 0) (hv : p.onPrerender = true) (h0 : p.oamAddr = 0)
    (ha : ∀ n, Answers memory (cart n)) : (p.after cart p.rowDots).oam = p.oam := by
  have hbound := Drawing.le_rowDots p
  have seen (n : Nat) (hn : n ≤ 256) :
      (p.after cart n).oam = p.oam ∧ (p.after cart n).oamAddr = 0 := by
    induction n with
    | zero => exact ⟨rfl, h0⟩
    | succ n ih =>
      obtain ⟨hd, hr⟩ := h.along cart n (by omega)
      obtain ⟨hoam, haddr⟩ := ih (by omega)
      obtain ⟨hoam', haddr'⟩ :=
        prerender_oam_next hd hn (hr.onPrerender.trans hv) haddr (cart n) (ha n)
      exact ⟨hoam'.trans hoam, haddr'⟩
  have fetched (m : Nat) (hm : m ≤ 64) : (p.after cart (256 + m)).oam = p.oam := by
    induction m with
    | zero => exact (seen 256 (by decide)).1
    | succ m ih =>
      rw [← Nat.add_assoc, after_succ]
      exact (sprite_oam (h.along cart (256 + m) (by omega)).1 (by omega) (by omega) _).trans
        (ih (by omega))
  obtain ⟨q, -, hend, -, -, hoam⟩ := row_store h cart
  have hbegin : q.beginRow.oam = q.oam := by
    unfold beginRow
    split <;> rfl
  rw [hend, hbegin, hoam]
  exact fetched 64 (by decide)

/-- With eight fetched, the sprites in flight show what lies on the row. -/
theorem Loaded.shows (h : Loaded memory p q 8) : Shows memory p q.sprites := by
  have hlen := chosen_length_le p
  refine ⟨h.found.count, h.found.hasFirst, fun k hk hkl => h.tiles k hk hk hkl, ?_⟩
  intro x hx
  rw [h.covered x hx]
  constructor
  · rintro ⟨k, -, hk, hover⟩
    exact ⟨p.chosen.getD k 0, getD_mem hk, hover⟩
  · rintro ⟨i, hi, hover⟩
    obtain ⟨k, hk, rfl⟩ := List.getElem_of_mem hi
    refine ⟨k, by omega, hk, ?_⟩
    rw [List.getD_eq_getElem?_getD, List.getElem?_eq_getElem hk]
    exact hover

/-- A row that is seen leaves the sprites chosen on it to be shown by the next. -/
theorem row_shows (h : Drawing p 0) (hv : p.onPrerender = false) (hrow : p.row.toNat < 240)
    (h0 : (p.after cart 65).oamAddr = 0) (ha : ∀ n, Answers memory (cart n))
    (hon : ∀ n, AnswersOn memory (cart n)) : Shows memory p (p.after cart p.rowDots).sprites := by
  have hbound := Drawing.le_rowDots p
  have hf := (search_found h hv h0).1
  have hl : Loaded memory p (p.after cart 320) 8 := sprites_loaded h hv hrow hf ha hon 63 (by decide)
  obtain ⟨q, hr, hend, hs, -⟩ := row_store h cart
  rw [hend, beginRow, if_neg (by rw [hr.onPrerender, hv]; decide), hs]
  exact hl.shows

end Picture

end Famicom
