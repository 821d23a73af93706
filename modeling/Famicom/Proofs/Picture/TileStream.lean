/-
  The background tiles in flight, told without the unit around them.

  A tile is fetched over eight dots, while the two before it are shifted out.  `Fetching t₁ t₂ i` says
  how far the fetch of `t₂` has come after `i` of them, and `Shown t₀ t₁ i` that the registers hold the
  two tiles with the first `i` columns of `t₀` gone.  Between tiles only one is left in them (`Waiting`).
  Each dot keeps these descriptions in step (`Fetching.fetch`, `Waiting.fetch`, `Shown.fetch`,
  `Shown.shift`), and at the eighth they start over for the next tile (`Fetching.next`, `Shown.done`).

  Main statement: the colour that the registers show is that of the plane of name tables, so many
  pixels to the right of the leftmost one of the tile (`Shown.color_eq`).
-/
import Famicom.Picture.Background
import Famicom.Proofs.Picture.NameTable

namespace Famicom

/-- What is fetched of a tile. -/
structure Tile where
  /-- Where its pattern is found. -/
  pattern : UInt16
  palette : UInt8
  low : UInt8
  high : UInt8

namespace Tile

/-- Where the patterns of the background start. -/
def base (control : Control) : UInt16 := if control.highBackground then 0x1000 else 0

variable (memory : UInt16 → UInt8) (control : Control)

/-- The tile a scroll address stands on, in a picture memory that answers with `memory`. -/
def under (s : Scroll) : Tile :=
  let pattern := ((memory s.tileAddr).toUInt16 <<< (4 : UInt16)) ||| s.tileRow ||| base control
  { pattern
    palette := ((memory s.attributeAddr >>> s.attributeShift.toUInt8) &&& 0x03) <<< (2 : UInt8)
    low := memory pattern
    high := memory (pattern + 8) }

/-- The two bits of a pixel of the tile, counted from the left. -/
def pixel (t : Tile) (e : Nat) : Nat :=
  t.low.toNat / 2 ^ (7 - e) % 2 + 2 * (t.high.toNat / 2 ^ (7 - e) % 2)

/-- The palette offset of a pixel of the tile. -/
def colorOffset (t : Tile) (e : Nat) : Nat :=
  if t.pixel e = 0 then 0 else t.palette.toNat + t.pixel e

end Tile

namespace Background

/-- The fetch of a tile on the dot `i` of its eight. -/
def fetch (memory : UInt16 → UInt8) (b : Background) (t : Tile) : Nat → Background
  | 1 => b.load t.pattern
  | 3 => { b with palette := t.palette }
  | 5 => { b with low := memory b.tileAddr }
  | 7 => { b with high := memory (b.tileAddr + 8) }
  | _ => b

/-- After `i` dots of the fetch of `t₂`, what is not fetched yet is still that of `t₁`. -/
structure Fetching (t₁ t₂ : Tile) (i : Nat) (b : Background) : Prop where
  pattern : 1 ≤ i → b.tileAddr = t₂.pattern
  palette : b.palette = if 3 ≤ i then t₂.palette else t₁.palette
  low : b.low = if 5 ≤ i then t₂.low else t₁.low
  high : b.high = if 7 ≤ i then t₂.high else t₁.high

/-- The registers hold two tiles, less the first `i` columns. -/
structure Shown (t₀ t₁ : Tile) (i : Nat) (b : Background) : Prop where
  shiftLow : b.shiftLow = (t₀.low.toUInt16 <<< (8 : UInt16) ||| t₁.low.toUInt16) <<< .ofNat i
  shiftHigh : b.shiftHigh = (t₀.high.toUInt16 <<< (8 : UInt16) ||| t₁.high.toUInt16) <<< .ofNat i
  shownPalette : b.shownPalette = t₀.palette
  nextPalette : b.nextPalette = t₁.palette

/-- The registers hold one tile, and the next is about to be added. -/
structure Waiting (t₀ : Tile) (b : Background) : Prop where
  shiftLow : b.shiftLow = t₀.low.toUInt16 <<< (8 : UInt16)
  shiftHigh : b.shiftHigh = t₀.high.toUInt16 <<< (8 : UInt16)
  nextPalette : b.nextPalette = t₀.palette

variable {memory : UInt16 → UInt8} {control : Control} {s : Scroll} {t₀ t₁ t₂ t₃ : Tile} {i : Nat}
  {b : Background}

/-- The next fetch of a tile goes on with it. -/
theorem Fetching.fetch (h : Fetching t₁ (.under memory control s) i b) (hi : i < 8) :
    Fetching t₁ (.under memory control s) (i + 1) (b.fetch memory (.under memory control s) (i + 1)) := by
  obtain ⟨hp, hc, hl, hh⟩ := h
  rcases (by omega : i = 0 ∨ i = 1 ∨ i = 2 ∨ i = 3 ∨ i = 4 ∨ i = 5 ∨ i = 6 ∨ i = 7) with
    rfl | rfl | rfl | rfl | rfl | rfl | rfl | rfl
  · exact ⟨fun _ => rfl, hc, hl, hh⟩
  · exact ⟨fun _ => hp (by decide), hc, hl, hh⟩
  · exact ⟨fun _ => hp (by decide), rfl, hl, hh⟩
  · exact ⟨fun _ => hp (by decide), hc, hl, hh⟩
  · exact ⟨fun _ => hp (by decide), hc, congrArg memory (hp (by decide)), hh⟩
  · exact ⟨fun _ => hp (by decide), hc, hl, hh⟩
  · exact ⟨fun _ => hp (by decide), hc, hl, congrArg (fun a => memory (a + 8)) (hp (by decide))⟩
  · exact ⟨fun _ => hp (by decide), hc, hl, hh⟩

/-- Shifting the tiles in flight does not disturb the fetches. -/
theorem Fetching.shift (h : Fetching t₁ t₂ i b) (n : UInt16) : Fetching t₁ t₂ i (b.shift n) :=
  ⟨h.pattern, h.palette, h.low, h.high⟩

/-- The tile is fetched, and the next one can be. -/
theorem Fetching.next (h : Fetching t₁ t₂ 8 b) : Fetching t₂ t₃ 0 b :=
  ⟨fun z => absurd z (by decide), h.palette, h.low, h.high⟩

/-- Adding a fetched tile to the one in the registers. -/
theorem Waiting.fetch (h : Waiting t₀ b) (hf : Fetching t₁ t₂ 0 b) :
    Shown t₀ t₁ 0 (b.fetch memory t₂ 1) := by
  have zero (v : UInt16) : v <<< UInt16.ofNat 0 = v := UInt16.shiftLeft_zero
  refine ⟨?_, ?_, h.nextPalette, hf.palette⟩
  · rw [zero, ← h.shiftLow, ← show b.low = t₁.low from hf.low]
    rfl
  · rw [zero, ← h.shiftHigh, ← show b.high = t₁.high from hf.high]
    rfl

/-- Only the first dot of a fetch touches the registers. -/
theorem fetch_registers (memory : UInt16 → UInt8) (b : Background) (t : Tile) {j : Nat} (hj : j ≠ 1) :
    (b.fetch memory t j).shiftLow = b.shiftLow ∧ (b.fetch memory t j).shiftHigh = b.shiftHigh ∧
      (b.fetch memory t j).shownPalette = b.shownPalette ∧
      (b.fetch memory t j).nextPalette = b.nextPalette := by
  unfold fetch
  split
  · exact absurd rfl hj
  all_goals exact ⟨rfl, rfl, rfl, rfl⟩

/-- Nor do the fetches disturb what is shown. -/
theorem Shown.fetch (h : Shown t₀ t₁ i b) (h0 : i ≠ 0) :
    Shown t₀ t₁ i (b.fetch memory t₂ (i + 1)) := by
  obtain ⟨hl, hh, hs, hn⟩ := fetch_registers memory b t₂ (j := i + 1) (by omega)
  exact ⟨hl.trans h.shiftLow, hh.trans h.shiftHigh, hs.trans h.shownPalette, hn.trans h.nextPalette⟩

theorem toNat_shiftLeft_ofNat (v : UInt16) (i : Nat) (hi : i < 16) :
    (v <<< UInt16.ofNat i).toNat = v.toNat * 2 ^ i % 65536 := by
  have h : (UInt16.ofNat i).toNat % 16 = i := by
    rw [UInt16.toNat_ofNat']
    omega
  rw [UInt16.toNat_shiftLeft, h, Nat.shiftLeft_eq]

theorem shiftLeft_succ (v : UInt16) (i : Nat) (hi : i < 15) :
    v <<< UInt16.ofNat (i + 1) = (v <<< UInt16.ofNat i) <<< (1 : UInt16) := by
  rw [← UInt16.toNat_inj, toNat_shiftLeft_ofNat _ _ (by omega),
    show (1 : UInt16) = .ofNat 1 from rfl, toNat_shiftLeft_ofNat _ _ (by decide),
    toNat_shiftLeft_ofNat _ _ (by omega), Nat.pow_succ, ← Nat.mul_assoc]
  omega

/-- Shifting a word by eight leaves only its lower byte. -/
theorem shiftLeft_eight_or (v : UInt16) (low : UInt8) :
    (v <<< (8 : UInt16) ||| low.toUInt16) <<< (8 : UInt16) = low.toUInt16 <<< (8 : UInt16) := by
  have hl := low.toNat_lt
  have h8 (w : UInt16) : (w <<< (8 : UInt16)).toNat = w.toNat * 2 ^ 8 % 65536 :=
    toNat_shiftLeft_ofNat w 8 (by decide)
  have hor : v.toNat * 2 ^ 8 % 65536 ||| low.toNat = v.toNat % 256 * 2 ^ 8 + low.toNat := by
    rw [show v.toNat * 2 ^ 8 % 65536 = v.toNat % 256 * 2 ^ 8 by omega, Nat.or_comm,
      or_mul_two_pow _ hl, Nat.add_comm]
  rw [← UInt16.toNat_inj, h8, UInt16.toNat_or, h8, h8, UInt8.toNat_toUInt16, hor]
  omega

/-- A shift goes one pixel on in the tile that is shown. -/
theorem Shown.shift (h : Shown t₀ t₁ i b) (hi : i < 8) : Shown t₀ t₁ (i + 1) (b.shift 1) := by
  refine ⟨?_, ?_, h.shownPalette, h.nextPalette⟩
  · rw [shiftLeft_succ _ _ (by omega), ← h.shiftLow]
    rfl
  · rw [shiftLeft_succ _ _ (by omega), ← h.shiftHigh]
    rfl

/-- With all its columns gone, a tile leaves the registers to the next. -/
theorem Shown.done (h : Shown t₀ t₁ 8 b) : Waiting t₁ b :=
  ⟨h.shiftLow.trans (shiftLeft_eight_or _ _), h.shiftHigh.trans (shiftLeft_eight_or _ _),
    h.nextPalette⟩

/-! ## The colour shown -/

/-- A digit of two bytes side by side is one of the upper byte or one of the lower. -/
theorem joined_digit (a b k : Nat) (hb : b < 256) (hk : k ≤ 15) :
    (a * 256 + b) / 2 ^ (15 - k) % 2 =
      if k < 8 then a / 2 ^ (7 - k) % 2 else b / 2 ^ (7 - (k - 8)) % 2 := by
  split
  · next h =>
    have : 2 ^ (15 - k) = 256 * 2 ^ (7 - k) := by
      rw [show 256 = 2 ^ 8 from rfl, ← Nat.pow_add, show 8 + (7 - k) = 15 - k by omega]
    rw [this, ← Nat.div_div_eq_div_mul, show (a * 256 + b) / 256 = a by omega]
  · next h =>
    obtain ⟨e, rfl⟩ : ∃ e, k = 8 + e := ⟨k - 8, by omega⟩
    -- the upper byte is an even multiple of the place of the digit, so it does not count
    have : a * 256 = a * 2 ^ e * 2 * 2 ^ (7 - e) := by
      rw [Nat.mul_assoc _ 2, ← Nat.pow_succ', Nat.mul_assoc, ← Nat.pow_add,
        show e + (7 - e + 1) = 8 by omega]
    rw [show 15 - (8 + e) = 7 - e by omega, show 8 + e - 8 = e by omega, this, Nat.add_comm,
      Nat.add_mul_div_right _ _ (Nat.two_pow_pos _), Nat.add_mul_mod_self_right]

/-- The bit that a register shows in a fine column. -/
theorem shown_bit (upper lower : UInt8) (f : UInt8) (i : Nat) (hk : f.toNat + i ≤ 15) :
    ((((upper.toUInt16 <<< (8 : UInt16) ||| lower.toUInt16) <<< UInt16.ofNat i) <<< f.toUInt16) >>>
        (15 : UInt16)).toUInt8.toNat =
      if f.toNat + i < 8 then upper.toNat / 2 ^ (7 - (f.toNat + i)) % 2
      else lower.toNat / 2 ^ (7 - (f.toNat + i - 8)) % 2 := by
  have hu := upper.toNat_lt
  have hl := lower.toNat_lt
  have hw : (upper.toUInt16 <<< (8 : UInt16) ||| lower.toUInt16).toNat =
      upper.toNat * 256 + lower.toNat := by
    have h8 : (upper.toUInt16 <<< (8 : UInt16)).toNat = upper.toNat * 2 ^ 8 := by
      rw [show (8 : UInt16) = .ofNat 8 from rfl, toNat_shiftLeft_ofNat _ _ (by decide),
        UInt8.toNat_toUInt16]
      omega
    rw [UInt16.toNat_or, h8, UInt8.toNat_toUInt16, Nat.or_comm, or_mul_two_pow _ hl]
    omega
  have hf : f.toUInt16 = .ofNat f.toNat := by
    rw [← UInt16.toNat_inj, UInt8.toNat_toUInt16, UInt16.toNat_ofNat']
    have := f.toNat_lt
    omega
  generalize (upper.toUInt16 <<< (8 : UInt16) ||| lower.toUInt16) = w at hw ⊢
  rw [UInt16.toNat_toUInt8, UInt16.toNat_shiftRight, hf, toNat_shiftLeft_ofNat _ _ (by omega),
    toNat_shiftLeft_ofNat _ _ (by omega), hw, Nat.shiftRight_eq_div_pow]
  show _ % 65536 / 2 ^ 15 % 256 = _
  -- two shifts up and one down read digit `15 - (f + i)` of the register
  rw [Nat.mod_mul_mod, Nat.mul_assoc, ← Nat.pow_add, Nat.add_comm i,
    show 65536 = 2 ^ (15 + 1) from rfl, top_digit _ hk, ← joined_digit _ _ _ hl hk]
  exact Nat.mod_eq_of_lt (by omega)

/-- A pixel of a tile is of two bits. -/
theorem pixel_lt (t : Tile) (e : Nat) : t.pixel e < 4 := by
  unfold Tile.pixel
  omega

/-- A pixel and its palette, as the unit adds them up. -/
theorem offset_toNat {t : Tile} (ht : t.palette.toNat < 16) {pixel : UInt8} {e : Nat}
    (hp : pixel.toNat = t.pixel e) :
    (if pixel = 0 then 0 else t.palette + pixel).toNat = t.colorOffset e := by
  have hlt := pixel_lt t e
  have hz : pixel = 0 ↔ t.pixel e = 0 := by rw [← hp, ← UInt8.toNat_inj]; rfl
  unfold Tile.colorOffset
  by_cases h : t.pixel e = 0
  · rw [if_pos h, if_pos (hz.mpr h)]
    rfl
  · rw [if_neg h, if_neg (mt hz.mp h), UInt8.toNat_add, hp]
    omega

/-- The colour that the registers show. -/
theorem Shown.color_toNat (h : Shown t₀ t₁ i b) (hi : i < 8) {f x : UInt8} (hf : f.toNat < 8)
    (hx : x.toNat % 8 = i) (h0 : t₀.palette.toNat < 16) (h1 : t₁.palette.toNat < 16) :
    (b.color f x).toNat =
      if f.toNat + i < 8 then t₀.colorOffset (f.toNat + i) else t₁.colorOffset (f.toNat + i - 8) := by
  have low := shown_bit t₀.low t₁.low f i (by omega)
  have high := shown_bit t₀.high t₁.high f i (by omega)
  rw [← h.shiftLow] at low
  rw [← h.shiftHigh] at high
  have first : f + (x &&& 7) < 8 ↔ f.toNat + i < 8 := by
    have h7 : (x &&& 7).toNat = i := by
      rw [UInt8.toNat_and, ← hx]
      exact Nat.and_two_pow_sub_one_eq_mod _ 3
    rw [UInt8.lt_iff_toNat_lt, UInt8.toNat_add, h7]
    show (f.toNat + i) % 256 < 8 ↔ _
    omega
  unfold color
  dsimp only
  rw [h.shownPalette, h.nextPalette]
  by_cases hk : f.toNat + i < 8
  · simp only [hk, if_true] at low high
    rw [if_pos hk, if_pos (first.mpr hk)]
    refine offset_toNat h0 ?_
    rw [two_bits _ _ (by omega) (by omega), low, high]
    rfl
  · simp only [hk, if_false] at low high
    rw [if_neg hk, if_neg (mt first.mp hk)]
    refine offset_toNat h1 ?_
    rw [two_bits _ _ (by omega) (by omega), low, high]
    rfl

end Background

namespace Scroll

/-- So many tiles to the right. -/
def columns (s : Scroll) : Nat → Scroll
  | 0 => s
  | n + 1 => (s.columns n).nextColumn

variable (s : Scroll)

/-- So many columns on is so many tiles to the right. -/
theorem spot_columns (n : Nat) : spot (s.columns n).addr = (spot s.addr).right (8 * n) := by
  induction n with
  | zero =>
    have := spot_column_lt s.addr
    simp only [columns, Spot.right, Nat.mul_zero, Nat.add_zero]
    rw [Nat.mod_eq_of_lt this]
  | succ n ih => rw [columns, spot_nextColumn, ih, Spot.right_right, Nat.mul_succ]

/-- Columns add up. -/
theorem columns_add (m n : Nat) : (s.columns m).columns n = s.columns (m + n) := by
  induction n with
  | zero => rfl
  | succ n ih => rw [columns, ih, ← Nat.add_assoc, columns]

theorem columns_fits (h : Fits s.addr) (n : Nat) : Fits (s.columns n).addr := by
  induction n with
  | zero => exact h
  | succ n ih => exact nextColumn_fits _ ih

theorem columns_start (n : Nat) : (s.columns n).start = s.start := by
  induction n with
  | zero => rfl
  | succ n ih => exact ih

end Scroll

namespace Tile

variable (memory : UInt16 → UInt8) (control : Control) (s : Scroll)

theorem spot_column_mod_eight (addr : UInt16) : (Scroll.spot addr).column % 8 = 0 :=
  Nat.mul_mod_right 8 _

/-- The palette of a tile under the position is that of its quadrant. -/
theorem under_palette (e : Nat) (he : e < 8) :
    (under memory control s).palette.toNat = 4 * ((Scroll.spot s.addr).right e).palette memory := by
  have h8 := spot_column_mod_eight s.addr
  have hlt := Scroll.spot_column_lt s.addr
  have haddr : s.attributeAddr = .ofNat ((Scroll.spot s.addr).right e).attributeAddr := by
    rw [Spot.right_attributeAddr h8 hlt he, ← Scroll.attributeAddr_toNat, UInt16.ofNat_toNat]
  have hq := Spot.quadrant_lt (Scroll.spot s.addr)
  have hshift : s.attributeShift.toUInt8.toNat % 8 = 2 * (Scroll.spot s.addr).quadrant := by
    rw [UInt16.toNat_toUInt8, Scroll.attributeShift_toNat]
    omega
  rw [Spot.palette, Spot.right_quadrant h8 hlt he, ← haddr]
  simp only [under, UInt8.toNat_shiftLeft, UInt8.toNat_and, UInt8.toNat_shiftRight, hshift]
  rw [Nat.shiftRight_eq_div_pow, Nat.pow_mul, Nat.shiftLeft_eq]
  show (_ / 4 ^ _ &&& 2 ^ 2 - 1) * 4 % 256 = _
  rw [Nat.and_two_pow_sub_one_eq_mod]
  omega

theorem under_palette_lt : (under memory control s).palette.toNat < 16 := by
  rw [under_palette memory control s 0 (by decide), Spot.palette]
  omega

/-- Its pattern is that of its line. -/
theorem under_pattern_toNat (h : Scroll.Fits s.addr) (e : Nat) (he : e < 8) :
    (under memory control s).pattern.toNat =
      ((Scroll.spot s.addr).right e).planeAddr memory (base control).toNat := by
  have haddr : s.tileAddr = .ofNat ((Scroll.spot s.addr).right e).tileAddr := by
    rw [Spot.right_tileAddr (spot_column_mod_eight s.addr) (Scroll.spot_column_lt s.addr) he,
      ← Scroll.tileAddr_toNat, UInt16.ofNat_toNat]
  have hline : (Scroll.spot s.addr).line < 2 ^ 4 := by
    have : (Scroll.spot s.addr).line < 8 := field_lt s.addr 12 3
    omega
  have ht := (memory s.tileAddr).toNat_lt
  have htile : ((memory s.tileAddr).toUInt16 <<< (4 : UInt16)).toNat =
      (memory s.tileAddr).toNat * 2 ^ 4 := by
    rw [UInt16.toNat_shiftLeft, UInt8.toNat_toUInt16, Nat.shiftLeft_eq]
    show _ * 16 % 65536 = _ * 16
    omega
  rw [Spot.planeAddr, ← haddr]
  simp only [under, UInt16.toNat_or, htile, Scroll.tileRow_toNat s h]
  rw [Nat.or_comm (_ * 2 ^ 4), or_mul_two_pow _ hline]
  unfold base
  split
  · show _ ||| 1 * 2 ^ 12 = 4096 + _ + _
    rw [or_mul_two_pow _ (by omega)]
    simp only [Spot.right]
    omega
  · show _ ||| 0 = 0 + _ + _
    simp only [Spot.right, Nat.or_zero]
    omega

/-- The pixels of the tile under an address are those of the plane. -/
theorem under_colorOffset (h : Scroll.Fits s.addr) (e : Nat) (he : e < 8) :
    (under memory control s).colorOffset e =
      ((Scroll.spot s.addr).right e).colorOffset memory (base control).toNat := by
  have hp := under_pattern_toNat memory control s h e he
  have hlow : (under memory control s).low =
      memory (.ofNat (((Scroll.spot s.addr).right e).planeAddr memory (base control).toNat)) := by
    rw [← hp, UInt16.ofNat_toNat]
    rfl
  have hhigh : (under memory control s).high =
      memory (.ofNat (((Scroll.spot s.addr).right e).planeAddr memory (base control).toNat + 8)) := by
    rw [← hp, UInt16.ofNat_add, UInt16.ofNat_toNat]
    rfl
  have hcol : ((Scroll.spot s.addr).right e).column % 8 = e := by
    have h8 := spot_column_mod_eight s.addr
    rw [Spot.right_of_lt h8 (Scroll.spot_column_lt s.addr) he]
    show ((Scroll.spot s.addr).column + e) % 8 = e
    omega
  have hpixel : (under memory control s).pixel e =
      ((Scroll.spot s.addr).right e).pixel memory (base control).toNat := by
    rw [pixel, hlow, hhigh, Spot.pixel, Spot.bit, Spot.bit, hcol]
  rw [colorOffset, Spot.colorOffset, hpixel, under_palette memory control s e he]

end Tile

end Famicom
