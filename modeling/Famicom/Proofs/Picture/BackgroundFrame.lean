/-
  A picture of the background alone.

  1. **A mask** that shows the background everywhere and no sprites (`BackgroundOnly`): then a colour
     of the palette is shown as it is (`maskedColor_plain`).
  2. **A row** (`AtRow`): when row `y` begins, the rows above are drawn and the first two tiles of the
     row are in flight, with the position `y` below the place the scroll registers start from.  The row
     draws the plane of name tables at this place (`AtRow.painted`), and leads to the next
     (`AtRow.next`).
  3. **The picture** (`AtRow.all`): by induction over the rows, from the row before the first.

  Main statement: from the start of the row before the first to the end of the last row that is seen,
  the unit draws the plane of name tables.  The pixel of column `x` and row `y` is the one that lies
  `x` to the right of and `y` below the place the scroll registers start from (`background_frame`).
-/
import Famicom.Cartridge.Nrom
import Famicom.Proofs.Picture.Row
import Famicom.Proofs.Picture.Reachable

namespace Famicom

namespace Spot

/-- Going down stays in the column. -/
theorem downBy_column (s : Spot) (n : Nat) : (s.downBy n).column = s.column := by
  have hdown (t : Spot) : t.down.column = t.column := by
    unfold down
    split
    · rfl
    · split
      · rfl
      · split <;> rfl
  induction n with
  | zero => rfl
  | succ n ih => rw [downBy, hdown, ih]

/-- Going right and going down do not depend on their order. -/
theorem right_downBy (s : Spot) (m n : Nat) : (s.right m).downBy n = (s.downBy n).right m := by
  induction n with
  | zero => rfl
  | succ n ih => rw [downBy, ih, right_down, downBy]

end Spot

namespace Picture

variable {γ : Type} [Cartridge γ] {memory : UInt16 → UInt8} {cart : Nat → γ} {p q : Picture}

/-- The dots from the start of the row before the first to the end of the rows that are seen. -/
def pictureDots (p : Picture) : Nat := p.rowDots + 341 * 240

/-- The colour of a palette offset as it is shown without emphasis. -/
def plainColor (p : Picture) (offset : Nat) : UInt32 :=
  let entry := p.paletteEntry (.ofNat offset)
  color (if p.mask.grey then entry &&& 0x30 else entry)

/-- The place on the name tables from which a picture starts. -/
def origin (p : Picture) : Spot := (Scroll.spot p.scroll.start).right p.scroll.fineX.toNat

/-! ## A mask that shows the background alone -/

theorem emphasized_none (i : Fin 64) :
    emphasized false false false (.ofNat i) = color (.ofNat i) := by
  revert i
  decide +kernel

/-- A colour has six bits. -/
theorem color_and (index : UInt8) : color (index &&& 0x3F) = color index := by
  unfold color
  simp only [UInt8.and_assoc, UInt8.and_self]

/-- Without emphasis a colour is the one of the palette. -/
theorem emphasizedTable_none (m : Mask) (h : m.emphasis = 0) (index : UInt8)
    (hi : m.emphasis.toNat * 64 + (index &&& 0x3F).toNat < 512) :
    emphasizedTable[m.emphasis.toNat * 64 + (index &&& 0x3F).toNat] = color index := by
  have hlt := colorIndex_lt index
  have h0 : m.emphasis.toNat = 0 := congrArg UInt8.toNat h
  have hi : m.emphasis.toNat * 64 + (index &&& 0x3F).toNat = (index &&& 0x3F).toNat := by
    rw [h0, Nat.zero_mul, Nat.zero_add]
  rw [emphasizedTable_get, hi, Nat.div_eq_of_lt hlt, Nat.mod_eq_of_lt hlt, Nat.zero_testBit,
    Nat.zero_testBit, Nat.zero_testBit]
  exact (emphasized_none ⟨_, hlt⟩).trans (by rw [UInt8.ofNat_toNat, color_and])

/-- So it is after the mask. -/
theorem maskedColor_plain (h : p.mask.emphasis = 0) (offset : UInt8) :
    p.maskedColor offset = p.plainColor offset.toNat := by
  unfold maskedColor plainColor
  rw [UInt8.ofNat_toNat]
  exact emphasizedTable_none p.mask h _ _

/-- The background is shown in every column, without emphasis, and nothing else is. -/
structure BackgroundOnly (m : Mask) : Prop where
  background : ∀ x, m.showsBackground x = true
  sprites : ∀ x, m.showsSprites x = false
  draws : m.draws = true
  emphasis : m.emphasis = 0

/-- The bits of a mask that shows the background, down to its left edge, and no sprites. -/
theorem backgroundOnly_of_bits {m : Mask} (hb : m.bits &&& 0x0A = 0x0A) (hs : m.bits &&& 0x10 = 0)
    (he : m.bits &&& 0xE0 = 0) : BackgroundOnly m := by
  have bits : ∀ v : UInt8, v &&& 0x0A = 0x0A → v &&& 0xE0 = 0 →
      (v &&& 0x08 != 0) = true ∧ (v &&& 0x02 != 0) = true ∧ (v &&& 0x18 != 0) = true ∧
        v >>> (5 : UInt8) = 0 :=
    forall_byte (by decide +kernel)
  obtain ⟨h8, h2, h18, h5⟩ := bits m.bits hb he
  refine ⟨?_, ?_, h18, h5⟩
  · intro x
    rw [Mask.showsBackground, h8, h2, Bool.or_true]
    rfl
  · intro x
    rw [Mask.showsSprites, hs]
    rfl

/-! ## Row by row -/

/-- The palette offset that the plane of name tables has in a column and row of the picture. -/
def planeOffset (p : Picture) (memory : UInt16 → UInt8) (x y : Nat) : Nat :=
  ((p.origin.right x).downBy y).colorOffset memory p.patternBase

/-- The unit `q` is about to draw row `y` of a picture that started as `p`. -/
structure AtRow (memory : UInt16 → UInt8) (p : Picture) (y : Nat) (q : Picture) : Prop where
  settings : q.settings = p.settings
  row : q.row = .ofNat y
  dot : q.dot = 0
  primed : ∃ s, Primed memory q s ∧ Scroll.Fits s.addr ∧ s.start = p.scroll.start ∧
    Scroll.spot s.addr = (Scroll.spot p.scroll.start).downBy y
  drawn : ∀ x w, x < 256 → w < y → q.frame.get x w = .ok (p.plainColor (p.planeOffset memory x w))

namespace AtRow

variable {y : Nat}

theorem control (h : AtRow memory p y q) : q.control = p.control := congrArg PictureSettings.control h.settings

theorem mask (h : AtRow memory p y q) : q.mask = p.mask := congrArg PictureSettings.mask h.settings

theorem palette (h : AtRow memory p y q) : q.palette = p.palette := congrArg PictureSettings.palette h.settings

theorem fineX (h : AtRow memory p y q) : q.scroll.fineX = p.scroll.fineX :=
  congrArg PictureSettings.fineX h.settings

/-- At the start of a row the unit is on that row. -/
theorem row_toNat (h : AtRow memory p y q) (hy : y ≤ 240) : q.row.toNat = y := by
  rw [h.row, toNat_ofNat_dot (by omega)]

/-- None of these rows is the one before the first. -/
theorem not_prerender (h : AtRow memory p y q) (hy : y ≤ 240) : q.onPrerender = false :=
  Drawing.not_prerender (by rw [h.row_toNat hy]; exact hy)

/-- So none of them leaves out a dot. -/
theorem rowDots (h : AtRow memory p y q) (hy : y ≤ 240) : q.rowDots = 341 :=
  Drawing.rowDots_seen (h.not_prerender hy)

/-- And on each of them the unit draws. -/
theorem drawing (h : AtRow memory p y q) (hy : y < 240) (hw : p.warmingUp = false)
    (hd : p.mask.draws = true) : Drawing q 0 :=
  .of_seen ((congrArg PictureSettings.warmingUp h.settings).trans hw) (h.mask ▸ hd)
    (by rw [h.row_toNat (by omega)]; exact hy) h.dot

/-- The pixel drawn in a column of the row. -/
theorem painted (h : AtRow memory p y q) (hy : y < 240) (hw : p.warmingUp = false)
    (hm : BackgroundOnly p.mask) (hf : p.scroll.fineX.toNat < 8) (ha : ∀ n, Answers memory (cart n))
    (x : Nat) (hx : x < 256) :
    q.maskedColor (q.painter cart x).drawnOffset = p.plainColor (p.planeOffset memory x y) := by
  have hd := h.drawing hy hw hm.draws
  obtain ⟨s, hp, hs, -, hspot⟩ := h.primed
  have hbehind := behind_eq hd (h.not_prerender (by omega)) hp hs (h.fineX ▸ hf) ha x hx
  obtain ⟨hr, hdot⟩ := painter_sameRow hd cart hx
  have hoff : (q.painter cart x).drawnOffset =
      (q.painter cart x).background.color q.scroll.fineX (.ofNat x) := by
    unfold drawnOffset
    dsimp only
    rw [hdot, column_eq, hr.mask, h.mask, hm.background, hm.sprites, hr.fineX]
    rfl
  have hbase : q.patternBase = p.patternBase := by
    rw [patternBase, h.control]
    rfl
  rw [maskedColor_congr h.palette h.mask, maskedColor_plain hm.emphasis, hoff, hbehind, hspot, hbase,
    h.fineX, planeOffset, origin, Spot.right_right, Spot.right_downBy]

/-- Drawing a row leads to the next. -/
theorem next (h : AtRow memory p y q) (hy : y < 240) (hw : p.warmingUp = false)
    (hm : BackgroundOnly p.mask) (hf : p.scroll.fineX.toNat < 8) (ha : ∀ n, Answers memory (cart n)) :
    AtRow memory p (y + 1) (q.after cart 341) := by
  have hd := h.drawing hy hw hm.draws
  have hv := h.not_prerender (Nat.le_of_lt hy)
  have hdots := h.rowDots (Nat.le_of_lt hy)
  obtain ⟨hsettings, hrow, hdot⟩ := hd.next_row hv cart
  obtain ⟨s, hp, hs, hstart, hspot⟩ := h.primed
  have hprimed := row_primed hd ha
  have hbase := nextBase_visible hd hv ha
  rw [hp.scroll, Scroll.columns_add] at hbase
  rw [hdots] at hprimed
  refine ⟨hsettings.trans h.settings, ?_, hdot, ⟨_, hprimed, ?_, ?_, ?_⟩, ?_⟩
  · rw [hrow, h.row, UInt16.ofNat_add]
    rfl
  · rw [hbase]
    exact Scroll.restartRow_fits _ (Scroll.nextRow_fits _ (s.columns_fits hs 34))
  · rw [hbase]
    rw [Scroll.restartRow_start, Scroll.nextRow_start, Scroll.columns_start, hstart]
  · -- A row is 34 tiles of fetches, and the column is put back at its end.
    rw [hbase, Scroll.spot_restartRow, Scroll.nextRow_start, Scroll.columns_start, hstart,
      Scroll.spot_nextRow, Scroll.spot_columns, Spot.right_down, hspot,
      ← Spot.downBy_column (Scroll.spot p.scroll.start) (y + 1)]
    rfl
  · intro x w hx hwy
    have hf' := row_frame hd hv (by rw [h.row_toNat (by omega)]; exact hy) ha x w hx
    rw [hdots] at hf'
    rw [hf', h.row_toNat (by omega)]
    by_cases hyw : w = y
    · rw [if_pos hyw, h.painted hy hw hm hf ha x hx, hyw]
    · rw [if_neg hyw, h.drawn x w hx (by omega)]

/-- The row before the first leads to the first. -/
theorem first (h : Drawing p 0) (hv : p.onPrerender = true) (hs : p.scroll.WellFormed)
    (ha : ∀ n, Answers memory (cart n)) : AtRow memory p 0 (p.after cart p.rowDots) := by
  have hbound := Drawing.le_rowDots p
  obtain ⟨r, hr, hend⟩ := h.row_end cart
  have hprimed := row_primed h ha
  have hbase := nextBase_prerender h hv ha
  have hrow : r.beginRow = { r with
      dot := 0, row := 0, oddFrame := !r.oddFrame, rendering := false
      sprites := { r.sprites with count := 0 } } := if_pos (hr.onPrerender.trans hv)
  rw [hrow] at hend
  refine ⟨?_, ?_, ?_, ⟨_, hprimed, ?_, ?_, ?_⟩, fun x w _ hw => absurd hw (Nat.not_lt_zero w)⟩
  · rw [hend]
    exact hr.settings
  · rw [hend]
    rfl
  · rw [hend]
  · rw [hbase]
    exact Scroll.restartPicture_fits _
      (Scroll.restartRow_fits _ (Scroll.nextRow_fits _ (p.scroll.columns_fits hs.addr 32)))
  · rw [hbase, Scroll.restartPicture_start, Scroll.restartRow_start, Scroll.nextRow_start,
      Scroll.columns_start]
  · rw [hbase, Scroll.spot_restartPicture, Scroll.restartRow_start, Scroll.nextRow_start,
      Scroll.columns_start, Scroll.spot_restartRow, Scroll.nextRow_start, Scroll.columns_start]
    rfl

/-- Row by row through the picture. -/
theorem all (h : AtRow memory p 0 q) (hw : p.warmingUp = false) (hm : BackgroundOnly p.mask)
    (hf : p.scroll.fineX.toNat < 8) (ha : ∀ n, Answers memory (cart n)) (y : Nat) (hy : y ≤ 240) :
    AtRow memory p y (q.after cart (341 * y)) := by
  induction y with
  | zero => exact h
  | succ y ih =>
    have ha' (n : Nat) : Answers memory ((fun i => cart (341 * y + i)) n) := ha (341 * y + n)
    have hnext := (ih (by omega)).next hy hw hm hf ha'
    rw [← after_add] at hnext
    exact hnext

end AtRow

/-- No dot of the picture is a fault. -/
theorem picture_ok (hd : Drawing p 0) (hv : p.onPrerender = true) (hs : p.scroll.WellFormed)
    (hm : BackgroundOnly p.mask) (ha : ∀ n, Answers memory (cart n)) (n : Nat)
    (hn : n < p.pictureDots) : ((p.after cart n).tick (cart n)).1 = .ok () := by
  by_cases hfirst : n < p.rowDots
  · exact row_ok hd cart n hfirst
  · have hrows := (AtRow.first hd hv hs ha).all hd.warm hm hs.fineX (fun i => ha (p.rowDots + i))
      ((n - p.rowDots) / 341) (by unfold pictureDots at hn; omega)
    rw [← after_add] at hrows
    have hy : (n - p.rowDots) / 341 < 240 := by
      unfold pictureDots at hn
      omega
    have hn : p.rowDots + 341 * ((n - p.rowDots) / 341) + (n - p.rowDots) % 341 = n := by omega
    have hok := row_ok (hrows.drawing hy hd.warm hm.draws)
      (fun i => cart (p.rowDots + 341 * ((n - p.rowDots) / 341) + i)) ((n - p.rowDots) % 341)
      (by rw [hrows.rowDots (Nat.le_of_lt hy)]; exact Nat.mod_lt _ (by decide))
    rw [← after_add, hn] at hok
    exact hok

/-- A picture of the background alone.  While every read of picture memory is answered as `memory` does,
    the unit goes from the start of the row before the first to the end of the last row that is seen
    without a fault, and each pixel then is that of the plane of name tables. -/
theorem background_frame (hp : Reachable γ p) (hw : p.warmingUp = false)
    (hrow : p.row = p.region.prerenderRow) (hdot : p.dot = 0) (hb : p.mask.bits &&& 0x0A = 0x0A)
    (hs : p.mask.bits &&& 0x10 = 0) (he : p.mask.bits &&& 0xE0 = 0) (cart : Nat → γ)
    (memory : UInt16 → UInt8)
    (ha : ∀ n < p.pictureDots, ∀ addr, (Cartridge.ppuRead (cart n) addr).1 = memory addr) :
    (∀ n < p.pictureDots, ((p.after cart n).tick (cart n)).1 = .ok ()) ∧
      (p.after cart p.pictureDots).row = visibleRows ∧ (p.after cart p.pictureDots).dot = 0 ∧
      ∀ x y, x < 256 → y < 240 → (p.after cart p.pictureDots).frame.get x y =
        .ok (p.plainColor (((p.origin.right x).downBy y).colorOffset memory p.patternBase)) := by
  have hm := backgroundOnly_of_bits hb hs he
  have hv : p.onPrerender = true := decide_eq_true hrow
  have hbound := Drawing.le_rowDots p
  have hd : Drawing p 0 := by
    refine ⟨hw, hm.draws, ?_, hdot, by omega, fun z => absurd rfl z⟩
    rw [onDrawnRow, hv, Bool.or_true]
  -- Only the dots of the picture count: past them the cartridge is taken to be as it was at first.
  obtain ⟨cart', hcart, ha'⟩ := exists_cart (P := Answers memory) cart (by unfold pictureDots; omega) ha
  have hsame (n : Nat) (hn : n ≤ p.pictureDots) : p.after cart n = p.after cart' n :=
    after_congr fun i hi => (hcart i (by omega)).symm
  have hrows := (AtRow.first hd hv hp.scroll ha').all hw hm hp.scroll.fineX
    (fun i => ha' (p.rowDots + i)) 240 (Nat.le_refl _)
  rw [← after_add, ← pictureDots, ← hsame _ (Nat.le_refl _)] at hrows
  refine ⟨?_, hrows.row, hrows.dot, fun x y hx hy => hrows.drawn x y hx hy⟩
  intro n hn
  rw [hsame n (Nat.le_of_lt hn), ← hcart n hn]
  exact picture_ok hd hv hp.scroll hm ha' n hn

/-- A cartridge whose every tile is filled with the last colour of its palette. -/
def solidBoard : Nrom where
  prgRom := .single (.replicate _ 0)
  prgRam := .replicate _ 0
  pattern := .replicate _ 0xFF
  patternIsRam := false
  vram := .replicate _ 0
  mirroring := .horizontal

theorem solidBoard_ppuRead (addr : UInt16) :
    solidBoard.ppuRead addr = if addr &&& 0x3FFF < 0x2000 then 0xFF else 0 := by
  unfold Nrom.ppuRead solidBoard
  dsimp only
  split
  · exact Vector.getElem_replicate _
  · exact Vector.getElem_replicate _

theorem background_frame_solid :
    Reachable Nrom ((warm .ntsc).writeRegister solidBoard 0x2001 0x0A).1 ∧
      ((warm .ntsc).writeRegister solidBoard 0x2001 0x0A).1.mask.bits = 0x0A ∧
      (((warm .ntsc).writeRegister solidBoard 0x2001 0x0A).1.after (fun _ => solidBoard)
        (341 * 241)).frame.get 255 239 = .ok 0x666666 := by
  have hr := (reachable_warm (fun _ => solidBoard) .ntsc).write solidBoard 0x2001 0x0A
  obtain ⟨-, -, -, h⟩ := background_frame hr rfl rfl rfl (by decide) (by decide) (by decide)
    (fun _ => solidBoard) (fun addr => if addr &&& 0x3FFF < 0x2000 then 0xFF else 0)
    (fun _ _ => solidBoard_ppuRead)
  have hcolor : ((((warm .ntsc).writeRegister solidBoard 0x2001 0x0A).1.origin.right 255).downBy
      239).colorOffset (fun addr => if addr &&& 0x3FFF < 0x2000 then 0xFF else 0)
      ((warm .ntsc).writeRegister solidBoard 0x2001 0x0A).1.patternBase = 3 := by
    decide +kernel
  refine ⟨hr, rfl, (h 255 239 (by decide) (by decide)).trans ?_⟩
  rw [hcolor]
  rfl

end Picture

end Famicom
