/-
  The background along a row.

  1. **Lanes** (`Lane`): what the background works with.  The search for sprites and their fetches have
     no part in it (`evaluateSprites_lane`, `spriteFetches_lane`), so a dot can be read as what it does
     to the lane (`pixel_lane`, `sprite_lane`, `prefetch_lane`, `idle_lane`).
  2. **The visible part**: a row that starts at the scroll position `s` finds the first tile in the
     shift registers and the second fetched (`Primed`).  `Flight` is what then holds after any number
     of dots, by induction (`flight`), and gives the colour drawn in every column (`behind_eq`).
  3. **Past it** the position is put back to where rows start (`turned_scroll`).  What that position
     is, is told by `nextBase_visible` for a row that is seen and by `nextBase_prerender` for the row
     before the first.
  4. **The next row**: from there its first two tiles are fetched, eight dots each (`FirstFetch`,
     `SecondFetch`), and the dots that are left disturb neither.

  Main statement: whichever row it is, its end leaves the next one primed (`row_primed`).
-/
import Famicom.Proofs.Picture.Course
import Famicom.Proofs.Picture.TileStream

namespace Famicom

/-- A cartridge that answers every read of picture memory as `memory` does. -/
def Answers {γ : Type} [Cartridge γ] (memory : UInt16 → UInt8) (c : γ) : Prop :=
  ∀ addr, (Cartridge.ppuRead c addr).1 = memory addr

/-- Where dot `d` of the visible part of a row leaves the scroll position: the last of each eight moves
    on to the next tile, and the last of all moves down as well. -/
def Scroll.moved (s : Scroll) (d : Nat) : Scroll :=
  if d % 8 = 0 then if d = 256 then s.nextColumn.nextRow else s.nextColumn else s

/-- Where dot `d` of the 64 after the visible part leaves the scroll position: the first returns to where
    rows start, and some of the row before the first to where pictures start. -/
def Scroll.turned (s : Scroll) (prerender : Bool) (d : Nat) : Scroll :=
  let s := if d = 257 then s.restartRow else s
  if prerender = true ∧ 280 ≤ d ∧ d ≤ 304 then s.restartPicture else s

/-- The first dot after the visible part takes the column from the start of the picture. -/
theorem Scroll.turned_first (s : Scroll) (prerender : Bool) : s.turned prerender 257 = s.restartRow :=
  if_neg (by omega)

/-- On the row before the first, dots 280 to 304 take the row from there. -/
theorem Scroll.turned_later (s : Scroll) (prerender : Bool) {d : Nat} (hd : d ≠ 257) :
    s.turned prerender d =
      if prerender = true ∧ 280 ≤ d ∧ d ≤ 304 then s.restartPicture else s := by
  simp only [turned, if_neg hd]

/-- What the search for sprites and their fetching leave alone. -/
structure Lane where
  scroll : Scroll
  background : Background
  frame : Frame
  spriteHit : Bool

namespace Picture

/-- The background of a picture unit, from the scroll position to the screen. -/
def lane (p : Picture) : Lane where
  scroll := p.scroll
  background := p.background
  frame := p.frame
  spriteHit := p.spriteHit

theorem evaluateByte_lane (p : Picture) : p.evaluateByte.lane = p.lane := by
  unfold evaluateByte
  dsimp only
  split
  · rfl
  · split <;> rfl

/-- The search for sprites has no part in the background. -/
theorem stepSearch_lane (p : Picture) : p.stepSearch.lane = p.lane := by
  unfold stepSearch
  split
  · rfl
  · exact evaluateByte_lane p

theorem boundSearch_lane (p : Picture) : p.boundSearch.lane = p.lane := by
  unfold boundSearch
  split
  · rfl
  · split <;> rfl

theorem evaluateSprites_lane (p : Picture) : p.evaluateSprites.lane = p.lane := by
  rw [evaluateSprites_eq]
  split
  · rfl
  · split
    · rfl
    · exact (stepSearch_lane _).trans (boundSearch_lane p)

/-- At the beginning of a picture the position and what has been drawn stay. -/
theorem beginPicture_kept (p : Picture) :
    p.beginPicture.scroll = p.scroll ∧ p.beginPicture.frame = p.frame := by
  unfold beginPicture
  dsimp only
  split <;> split <;> exact ⟨rfl, rfl⟩

variable {γ : Type} [Cartridge γ]

/-- Sprite fetches have no part in the background. -/
theorem spriteFetches_lane (p : Picture) (c : γ) : (p.spriteFetches c).2.1.lane = p.lane := by
  unfold spriteFetches
  split
  · rfl
  · rfl
  · unfold fetchSprite
    split <;> rfl
  · rfl

theorem beginRow_lane (p : Picture) : p.beginRow.lane = p.lane := by
  unfold beginRow
  split <;> rfl

variable {memory : UInt16 → UInt8}

/-- The lowest three bits are the rest by eight. -/
theorem and_seven (v : UInt16) : v &&& 7 = .ofNat (v.toNat % 8) := by
  rw [← UInt16.toNat_inj, UInt16.toNat_and, UInt16.toNat_ofNat']
  show v.toNat &&& 2 ^ 3 - 1 = _
  rw [Nat.and_two_pow_sub_one_eq_mod]
  omega

theorem and_one (v : UInt16) : v &&& 1 = .ofNat (v.toNat % 2) := by
  rw [← UInt16.toNat_inj, UInt16.toNat_and, UInt16.toNat_ofNat']
  show v.toNat &&& 2 ^ 1 - 1 = _
  rw [Nat.and_two_pow_sub_one_eq_mod]
  omega

/-- The background's part of a dot, from memory that answers. -/
theorem fetchBackground_eq (p : Picture) (c : γ) (ha : Answers memory c) (hr : p.rendering = true) :
    (p.fetchBackground c).1 =
      { p with background :=
          p.background.fetch memory (.under memory p.control p.scroll) (p.dot.toNat % 8) } := by
  have h1 := and_one p.dot
  have h7 := and_seven p.dot
  have htile := ha p.scroll.tileAddr
  have hattr := ha p.scroll.attributeAddr
  have hlow := ha p.background.tileAddr
  have hhigh := ha (p.background.tileAddr + 8)
  have hm : p.dot.toNat % 2 = p.dot.toNat % 8 % 2 := by omega
  rw [hm] at h1
  have hi : p.dot.toNat % 8 < 8 := Nat.mod_lt _ (by decide)
  generalize p.dot.toNat % 8 = i at h1 h7 hi ⊢
  have hn : ¬ ((!p.rendering) = true) := by rw [hr]; decide
  rw [fetchBackground, if_neg hn, h1, h7]
  -- the dot within its eight says which part of the tile is fetched
  rcases (by omega : i = 0 ∨ i = 1 ∨ i = 2 ∨ i = 3 ∨ i = 4 ∨ i = 5 ∨ i = 6 ∨ i = 7) with
    rfl | rfl | rfl | rfl | rfl | rfl | rfl | rfl
  · rfl
  · rw [Tile.under, ← htile]
    rfl
  · rfl
  · rw [Tile.under, ← hattr]
    rfl
  · rfl
  · rw [Background.fetch, ← hlow]
    rfl
  · rfl
  · rw [Background.fetch, ← hhigh]
    rfl

/-- On the visible part of a row the position moves as `Scroll.moved` says. -/
theorem advance_eq {p : Picture} {d : Nat} (hd : d ≤ 256) (hdot : p.dot = .ofNat d)
    (hr : p.rendering = true) : p.advance = { p with scroll := p.scroll.moved d } := by
  have hn : p.dot.toNat = d := by rw [hdot, toNat_ofNat_dot (by omega)]
  have h7 : p.dot &&& 7 = 0 ↔ d % 8 = 0 := by
    rw [and_seven, hn, ← UInt16.toNat_inj, UInt16.toNat_ofNat']
    show d % 8 % 65536 = 0 ↔ _
    omega
  have h256 : p.dot = 256 ↔ d = 256 := by
    rw [← UInt16.toNat_inj, hn]
    rfl
  have hc : (p.rendering && p.dot &&& 7 = 0) = true ↔ d % 8 = 0 := by
    rw [hr, Bool.true_and, decide_eq_true_eq, h7]
  unfold advance Scroll.moved
  by_cases h : d % 8 = 0
  · rw [if_pos (hc.mpr h), if_pos h]
    simp only [h256]
  · rw [if_neg (mt hc.mp h), if_neg h]

/-- The unit when a pixel is drawn: a part of a tile is fetched and the position has moved. -/
theorem fetched_eq {p : Picture} {d : Nat} (hd : d ≤ 256) {c : γ} (ha : Answers memory c) :
    (p.onDot d).fetched c =
      { p.onDot d with
        background := p.background.fetch memory (.under memory p.control p.scroll) (d % 8)
        scroll := p.scroll.moved d } := by
  have hn : (p.onDot d).dot.toNat = d := toNat_ofNat_dot (by omega)
  rw [fetched, fetchBackground_eq _ c ha rfl, hn, advance_eq hd rfl rfl]
  rfl

/-- Drawing a pixel moves nothing. -/
theorem drawPixel_scroll (p : Picture) : p.drawPixel.scroll = p.scroll := by
  unfold drawPixel
  dsimp only
  split
  · rfl
  · split <;> rfl

theorem drawPixel_background (p : Picture) : p.drawPixel.background = p.background := by
  unfold drawPixel
  dsimp only
  split
  · rfl
  · split <;> rfl

/-! ## The visible part of a row -/

variable {p : Picture} {d : Nat} {s : Scroll}

/-- The tile `k` of a row that starts at `s`. -/
def tileOf (memory : UInt16 → UInt8) (p : Picture) (s : Scroll) (k : Nat) : Tile :=
  .under memory p.control (s.columns k)

/-- The tiles in flight after `n` dots of the visible part of a row that starts at `s`. -/
structure Flight (memory : UInt16 → UInt8) (p : Picture) (s : Scroll) (n : Nat) : Prop where
  fetching : Background.Fetching (p.tileOf memory s (n / 8 + 1)) (p.tileOf memory s (n / 8 + 2)) (n % 8)
    p.background
  waiting : n % 8 = 0 → Background.Waiting (p.tileOf memory s (n / 8)) p.background
  shown : n % 8 ≠ 0 →
    Background.Shown (p.tileOf memory s (n / 8)) (p.tileOf memory s (n / 8 + 1)) (n % 8) p.background

/-- The first two tiles of a row that starts at `s` are in flight. -/
structure Primed (memory : UInt16 → UInt8) (p : Picture) (s : Scroll) : Prop where
  scroll : p.scroll = s.columns 2
  flight : Flight memory p s 0

/-- What is fetched depends on the place within eight dots. -/
theorem fetch_mod (b : Background) (t : Tile) (n : Nat) :
    b.fetch memory t ((n + 1) % 8) = b.fetch memory t (n % 8 + 1) := by
  by_cases h : n % 8 = 7
  · rw [show (n + 1) % 8 = 0 by omega, h]
    rfl
  · rw [show (n + 1) % 8 = n % 8 + 1 by omega]

/-- When a pixel is drawn, the registers hold the tile it lies in and the one after. -/
theorem Flight.drawn {n : Nat} (h : Flight memory p s n) {t : Tile}
    (ht : t = p.tileOf memory s (n / 8 + 2)) :
    Background.Shown (p.tileOf memory s (n / 8)) (p.tileOf memory s (n / 8 + 1)) (n % 8)
      (p.background.fetch memory t ((n + 1) % 8)) := by
  rw [fetch_mod, ht]
  by_cases h0 : n % 8 = 0
  · have hf := h.fetching
    rw [h0] at hf ⊢
    exact (h.waiting h0).fetch hf
  · exact (h.shown h0).fetch h0

/-- A dot of the visible part moves the tiles on. -/
theorem Flight.next {n : Nat} (h : Flight memory p s n) (hs : p.scroll = s.columns (2 + n / 8))
    {q : Picture} (hc : q.control = p.control)
    (hb : q.background =
      (p.background.fetch memory (.under memory p.control p.scroll) ((n + 1) % 8)).shift 1) :
    Flight memory q s (n + 1) := by
  have ht : Tile.under memory p.control p.scroll = p.tileOf memory s (n / 8 + 2) := by
    rw [hs, Nat.add_comm 2]
    rfl
  have hq (k : Nat) : q.tileOf memory s k = p.tileOf memory s k := by rw [tileOf, hc]; rfl
  have shown := (h.drawn rfl).shift (Nat.mod_lt n (by decide))
  have fetching := (h.fetching.fetch (Nat.mod_lt n (by decide))).shift 1
  rw [ht] at hb
  rw [fetch_mod] at shown hb
  rw [← tileOf, ← hb] at fetching
  rw [← hb] at shown
  by_cases h7 : n % 8 = 7
  · -- The eighth dot ends a tile: what was fetched waits, and the next fetch is about to begin.
    rw [h7] at shown fetching
    have hdiv : (n + 1) / 8 = n / 8 + 1 := by omega
    have hmod : (n + 1) % 8 = 0 := by omega
    refine ⟨?_, fun _ => ?_, fun z => absurd hmod z⟩
    · rw [hmod, hdiv, hq, hq]
      exact fetching.next
    · rw [hdiv, hq]
      exact shown.done
  · have hdiv : (n + 1) / 8 = n / 8 := by omega
    have hmod : (n + 1) % 8 = n % 8 + 1 := by omega
    refine ⟨?_, fun z => absurd z (by omega), fun _ => ?_⟩
    · rw [hmod, hdiv, hq, hq]
      exact fetching
    · rw [hmod, hdiv, hq, hq]
      exact shown

/-- A dot of the visible part of a row that is seen. -/
theorem pixel_lane (h : Drawing p d) (hd : d < 256) (hv : p.onPrerender = false) (c : γ)
    (ha : Answers memory c) :
    (p.tick c).2.1.lane =
      { scroll := p.scroll.moved (d + 1)
        background :=
          (p.background.fetch memory (.under memory p.control p.scroll) ((d + 1) % 8)).shift 1
        frame := ((p.onDot (d + 1)).fetched c).drawPixel.frame
        spriteHit := ((p.onDot (d + 1)).fetched c).drawPixel.spriteHit } := by
  have hf := fetched_eq (p := p) (d := d + 1) (by omega) ha
  have hp : ((p.onDot (d + 1)).fetched c).onPrerender = false := by
    rw [hf]
    exact hv
  have hs : ((p.onDot (d + 1)).fetched c).drawPixel.scroll = p.scroll.moved (d + 1) := by
    rw [drawPixel_scroll, hf]
  have hb : ((p.onDot (d + 1)).fetched c).drawPixel.background =
      p.background.fetch memory (.under memory p.control p.scroll) ((d + 1) % 8) := by
    rw [drawPixel_background, hf]
  rw [h.tick_pixel hd, pixelDot_fst, hp, ← hs, ← hb]
  exact evaluateSprites_lane _

/-- On the row before the first nothing is drawn, but the position moves just as well. -/
theorem prerender_scroll (h : Drawing p d) (hd : d < 256) (hv : p.onPrerender = true) (c : γ)
    (ha : Answers memory c) : (p.tick c).2.1.scroll = p.scroll.moved (d + 1) := by
  have hf := fetched_eq (p := p) (d := d + 1) (by omega) ha
  have hp : ((p.onDot (d + 1)).fetched c).onPrerender = true := by
    rw [hf]
    exact hv
  have hs : (p.tick c).2.1.scroll = ((p.onDot (d + 1)).fetched c).scroll := by
    rw [h.tick_pixel hd, pixelDot_fst, if_pos hp]
    split
    · exact (beginPicture_kept _).1
    · rfl
  rw [hs, hf]

/-- On any drawn row the position moves along the visible part. -/
theorem scroll_next (h : Drawing p d) (hd : d < 256) (c : γ) (ha : Answers memory c) :
    (p.tick c).2.1.scroll = p.scroll.moved (d + 1) := by
  cases hv : p.onPrerender with
  | true => exact prerender_scroll h hd hv c ha
  | false => exact congrArg Lane.scroll (pixel_lane h hd hv c ha)

variable {cart : Nat → γ}

/-- The position along the visible part of a row: a tile further every eight dots, and down at the end. -/
theorem seen_scroll (h : Drawing p 0) (ha : ∀ n, Answers memory (cart n)) (n : Nat) (hn : n ≤ 256) :
    (p.after cart n).scroll =
      if n = 256 then (p.scroll.columns 32).nextRow else p.scroll.columns (n / 8) := by
  have hbound := Drawing.le_rowDots p
  induction n with
  | zero => rfl
  | succ n ih =>
    have hs := ih (by omega)
    rw [if_neg (by omega)] at hs
    rw [after_succ, scroll_next (h.along cart n (by omega)).1 hn (cart n) (ha n), hs, Scroll.moved]
    -- only the last dot of each eight moves, and the 256th in both directions
    by_cases h7 : n % 8 = 7
    · rw [if_pos (by omega : (n + 1) % 8 = 0)]
      by_cases h255 : n = 255
      · subst h255
        rfl
      · rw [if_neg (by omega), if_neg (by omega), show (n + 1) / 8 = n / 8 + 1 by omega]
        rfl
    · rw [if_neg (by omega), if_neg (by omega), show (n + 1) / 8 = n / 8 by omega]

/-- Along the visible part the tiles in flight are those of the row at this place. -/
theorem flight (h : Drawing p 0) (hv : p.onPrerender = false) (hp : Primed memory p s)
    (ha : ∀ n, Answers memory (cart n)) (n : Nat) (hn : n ≤ 256) :
    Flight memory (p.after cart n) s n := by
  have hbound := Drawing.le_rowDots p
  induction n with
  | zero => exact hp.flight
  | succ n ih =>
    obtain ⟨hd, hr⟩ := h.along cart n (by omega)
    have hl := pixel_lane hd hn (hr.onPrerender.trans hv) (cart n) (ha n)
    have hs := seen_scroll h ha n (by omega)
    rw [if_neg (by omega), hp.scroll, Scroll.columns_add] at hs
    have hnext := hd.sameRow_next (by rw [hr.rowDots]; omega) (cart n)
    exact (ih (by omega)).next hs hnext.control
      (congrArg Lane.background hl)

/-- The unit as it draws the pixel in column `x` of the row. -/
def painter (p : Picture) (cart : Nat → γ) (x : Nat) : Picture :=
  ((p.after cart x).onDot (x + 1)).fetched (cart x)

/-- Where the patterns of the background start, as a number. -/
def patternBase (p : Picture) : Nat := if p.control.highBackground then 0x1000 else 0

theorem base_toNat (p : Picture) : (Tile.base p.control).toNat = p.patternBase := by
  unfold Tile.base patternBase
  split <;> rfl

/-- The colours of the tiles of a row, as the plane of name tables has them. -/
theorem tileOf_colorOffset (memory : UInt16 → UInt8) (p : Picture) (hs : Scroll.Fits s.addr) (k e : Nat)
    (he : e < 8) :
    (p.tileOf memory s k).colorOffset e =
      ((Scroll.spot s.addr).right (8 * k + e)).colorOffset memory p.patternBase := by
  rw [← base_toNat, tileOf, Tile.under_colorOffset _ _ _ (s.columns_fits hs k) e he, s.spot_columns,
    Spot.right_right]

/-- The background's colour in a column of a row that is seen. -/
theorem behind_eq (h : Drawing p 0) (hv : p.onPrerender = false) (hp : Primed memory p s)
    (hs : Scroll.Fits s.addr) (hf : p.scroll.fineX.toNat < 8) (ha : ∀ n, Answers memory (cart n))
    (x : Nat) (hx : x < 256) :
    ((p.painter cart x).background.color p.scroll.fineX (.ofNat x)).toNat =
      ((Scroll.spot s.addr).right (p.scroll.fineX.toNat + x)).colorOffset memory p.patternBase := by
  have hbound := Drawing.le_rowDots p
  have hr := (h.along cart x (by omega)).2
  have hflight := flight h hv hp ha x (by omega)
  have ht (k : Nat) : (p.after cart x).tileOf memory s k = p.tileOf memory s k := by
    rw [tileOf, hr.control]
    rfl
  have hscroll : (p.after cart x).scroll = s.columns (x / 8 + 2) := by
    rw [seen_scroll h ha x (by omega), if_neg (by omega), hp.scroll, Scroll.columns_add, Nat.add_comm]
  have hb : (p.painter cart x).background =
      (p.after cart x).background.fetch memory (p.tileOf memory s (x / 8 + 2)) ((x + 1) % 8) := by
    rw [painter, fetched_eq (by omega) (ha x), ← ht, tileOf, ← hscroll]
  have hx8 : (UInt8.ofNat x).toNat % 8 = x % 8 := by
    rw [UInt8.toNat_ofNat']
    omega
  have shown := hflight.drawn (ht _).symm
  rw [← hb, ht, ht] at shown
  rw [shown.color_toNat (Nat.mod_lt x (by decide)) hf hx8 (Tile.under_palette_lt _ _ _)
    (Tile.under_palette_lt _ _ _)]
  split
  · next hk =>
    rw [tileOf_colorOffset memory p hs _ _ hk]
    congr 2
    omega
  · next hk =>
    rw [tileOf_colorOffset memory p hs _ _ (by omega)]
    congr 2
    omega

/-! ## Between the visible part and the next row -/

/-- Of the dots after the visible part only the first moves the position. -/
theorem turnRow_lane {p : Picture} {d : Nat} (hd : d ≤ 341) :
    (p.onDot d).turnRow.lane =
      { p.lane with scroll := if d = 257 then p.scroll.restartRow else p.scroll } := by
  have h257 : (p.onDot d).dot = 257 ↔ d = 257 := by
    rw [← UInt16.toNat_inj, show (p.onDot d).dot.toNat = d from toNat_ofNat_dot hd]
    rfl
  unfold turnRow
  by_cases h : d = 257
  · rw [if_pos (h257.mpr h), if_pos h]
    rfl
  · rw [if_neg (mt h257.mp h), if_neg h]
    rfl

/-- Of these dots only some of the row before the first bring back the row. -/
theorem turnPicture_lane {q : Picture} {d : Nat} (hd : d ≤ 341) (hdot : q.dot = .ofNat d) :
    q.turnPicture.lane =
      { q.lane with scroll :=
          if q.onPrerender = true ∧ 280 ≤ d ∧ d ≤ 304 then q.scroll.restartPicture else q.scroll } := by
  have h280 : 280 ≤ q.dot ↔ 280 ≤ d := by
    rw [hdot]
    exact ofNat_le (n := 280) (by decide) hd
  have h304 : q.dot ≤ 304 ↔ d ≤ 304 := by
    rw [hdot]
    exact ofNat_le (m := 304) hd (by decide)
  have hc : (q.onPrerender && (280 ≤ q.dot && q.dot ≤ 304)) = true ↔
      q.onPrerender = true ∧ 280 ≤ d ∧ d ≤ 304 := by
    simp only [Bool.and_eq_true, decide_eq_true_eq, h280, h304]
  unfold turnPicture
  by_cases h : q.onPrerender = true ∧ 280 ≤ d ∧ d ≤ 304
  · rw [if_pos (hc.mpr h), if_pos h]
    rfl
  · rw [if_neg (mt hc.mp h), if_neg h]
    rfl

/-- A dot of the sprite fetches moves the position and does nothing else to the background. -/
theorem sprite_lane (h : Drawing p d) (h1 : 256 ≤ d) (h2 : d < 320) (c : γ) :
    (p.tick c).2.1.lane =
      { p.lane with scroll := p.scroll.turned p.onPrerender (d + 1) } := by
  have ho := turnRow_outline (p.onDot (d + 1))
  have hr : (p.onDot (d + 1)).turnRow.rendering = true := congrArg Outline.rendering ho
  have hl := turnRow_lane (p := p) (d := d + 1) (by omega)
  rw [h.tick_sprite h1 h2, (spriteDot_of_rendering _ c hr).2]
  have hf := spriteFetches_lane { (p.onDot (d + 1)).turnRow with oamAddr := 0 } c
  have hq : ({ (p.onDot (d + 1)).turnRow with oamAddr := 0 }.spriteFetches c).2.1.outline =
      (p.onDot (d + 1)).outline := (spriteFetches_outline _ c).trans ho
  generalize ({ (p.onDot (d + 1)).turnRow with oamAddr := 0 }.spriteFetches c).2.1 = q at hf hq ⊢
  have hp : q.onPrerender = p.onPrerender := by
    rw [onPrerender, show q.row = p.row from congrArg Outline.row hq,
      show q.region = p.region from congrArg (·.settings.region) hq]
    rfl
  have hs : q.scroll = if d + 1 = 257 then p.scroll.restartRow else p.scroll :=
    congrArg Lane.scroll (hf.trans hl)
  rw [turnPicture_lane (by omega) (congrArg Outline.dot hq), hf.trans hl, hp, hs]
  rfl

/-- The position along the dots on which sprites are fetched. -/
theorem turned_scroll (h : Drawing p 0) (cart : Nat → γ) (m : Nat) (hm : m < 64) :
    (p.after cart (257 + m)).scroll =
      if p.onPrerender = true ∧ 23 ≤ m then (p.after cart 256).scroll.restartRow.restartPicture
      else (p.after cart 256).scroll.restartRow := by
  have hbound := Drawing.le_rowDots p
  have step (n : Nat) (h1 : 256 ≤ n) (h2 : n < 320) :
      (p.after cart (n + 1)).scroll = (p.after cart n).scroll.turned p.onPrerender (n + 1) := by
    obtain ⟨hd, hr⟩ := h.along cart n (by omega)
    rw [← hr.onPrerender]
    exact congrArg Lane.scroll (sprite_lane hd h1 h2 (cart n))
  induction m with
  | zero => rw [if_neg (by omega), step 256 (by decide) (by decide), Scroll.turned_first]
  | succ m ih =>
    rw [← Nat.add_assoc, step (257 + m) (by omega) (by omega), ih (by omega),
      Scroll.turned_later _ _ (by omega)]
    by_cases hp : p.onPrerender = true ∧ 23 ≤ m
    · have hn : p.onPrerender = true ∧ 23 ≤ m + 1 := ⟨hp.1, Nat.le_succ_of_le hp.2⟩
      rw [if_pos hp, if_pos hn]
      -- going back to the start of the picture again and again leaves the position there
      split
      · exact Scroll.restartPicture_twice _
      · rfl
    · rw [if_neg hp]
      by_cases hn : p.onPrerender = true ∧ 23 ≤ m + 1
      · have h23 : ¬ 23 ≤ m := fun z => hp ⟨hn.1, z⟩
        rw [if_pos hn, if_pos ⟨hn.1, by omega, by omega⟩]
      · rw [if_neg hn, if_neg fun z => hn ⟨z.1, by omega⟩]

/-- The scroll position from which the next row starts. -/
def nextBase (p : Picture) (cart : Nat → γ) : Scroll := (p.after cart 320).scroll

/-- Below a row that is seen the next one starts, at the column where rows start. -/
theorem nextBase_visible (h : Drawing p 0) (hv : p.onPrerender = false)
    (ha : ∀ n, Answers memory (cart n)) :
    p.nextBase cart = (p.scroll.columns 32).nextRow.restartRow := by
  have ht := turned_scroll h cart 63 (by decide)
  rw [if_neg (by rw [hv]; simp), seen_scroll h ha 256 (by decide), if_pos rfl] at ht
  exact ht

/-- After the row before the first, the picture starts. -/
theorem nextBase_prerender (h : Drawing p 0) (hv : p.onPrerender = true)
    (ha : ∀ n, Answers memory (cart n)) :
    p.nextBase cart = (p.scroll.columns 32).nextRow.restartRow.restartPicture := by
  have ht := turned_scroll h cart 63 (by decide)
  rw [if_pos ⟨hv, by decide⟩, seen_scroll h ha 256 (by decide), if_pos rfl] at ht
  exact ht

/-! ## Fetching the first two tiles of the next row -/

/-- A dot of the prefetch fetches and shifts, and moves on after every tile. -/
theorem prefetchDot_lane {q : Picture} (hr : q.rendering = true) (c : γ) (ha : Answers memory c) :
    (q.prefetchDot c).1.lane =
      { scroll := if q.dot.toNat % 8 = 0 then q.scroll.nextColumn else q.scroll
        background :=
          if q.dot.toNat % 8 = 0 then q.background.shift 8
          else q.background.fetch memory (.under memory q.control q.scroll) (q.dot.toNat % 8)
        frame := q.frame
        spriteHit := q.spriteHit } := by
  have h7 : q.dot &&& 7 = 0 ↔ q.dot.toNat % 8 = 0 := by
    rw [and_seven, ← UInt16.toNat_inj, UInt16.toNat_ofNat']
    show q.dot.toNat % 8 % 65536 = 0 ↔ _
    omega
  unfold prefetchDot
  dsimp only
  rw [fetchBackground_eq q c ha hr]
  dsimp only
  rw [if_neg (by rw [hr]; decide)]
  by_cases h321 : q.dot = 321
  · have hne : ¬ q.dot.toNat % 8 = 0 := by rw [h321]; decide
    rw [if_pos h321, if_neg hne, if_neg hne]
    rfl
  · rw [if_neg h321]
    by_cases h0 : q.dot.toNat % 8 = 0
    · rw [if_pos (h7.mpr h0), if_pos h0, if_pos h0, h0]
      rfl
    · rw [if_neg (mt h7.mp h0), if_neg h0, if_neg h0]
      rfl

/-- So it does when it is reached from the dot before. -/
theorem prefetch_lane (h : Drawing p d) (h1 : 320 ≤ d) (h2 : d < 336) (c : γ)
    (ha : Answers memory c) :
    (p.tick c).2.1.lane =
      { scroll := if (d + 1) % 8 = 0 then p.scroll.nextColumn else p.scroll
        background :=
          if (d + 1) % 8 = 0 then p.background.shift 8
          else p.background.fetch memory (.under memory p.control p.scroll) ((d + 1) % 8)
        frame := p.frame
        spriteHit := p.spriteHit } := by
  have hn : (p.onDot (d + 1)).dot.toNat = d + 1 := toNat_ofNat_dot (by omega)
  rw [h.tick_prefetch h1 h2, prefetchDot_lane rfl c ha, hn]
  rfl

/-- After `i` dots of the fetch of the first tile, whatever was fetched before. -/
structure FirstFetch (memory : UInt16 → UInt8) (p : Picture) (s : Scroll) (i : Nat) : Prop where
  fetching : ∃ t, Background.Fetching t (p.tileOf memory s 0) i p.background
  scroll : p.scroll = s.columns (i / 8)
  shifted : i = 8 → ∃ v w, p.background.shiftLow = v <<< (8 : UInt16) ∧
    p.background.shiftHigh = w <<< (8 : UInt16)

/-- The tiles of a row do not depend on the dot of the row. -/
theorem tileOf_of_sameRow (memory : UInt16 → UInt8) {q : Picture} (h : SameRow p q) (s : Scroll) (k : Nat) :
    q.tileOf memory s k = p.tileOf memory s k := by
  rw [tileOf, h.control]
  rfl

/-- The first tile's fetches go on dot by dot. -/
theorem FirstFetch.next {i : Nat} (h : FirstFetch memory p s i) (hi : i < 8)
    (hd : Drawing p (320 + i)) (c : γ) (ha : Answers memory c) :
    FirstFetch memory (p.tick c).2.1 s (i + 1) := by
  have hbound := Drawing.le_rowDots p
  obtain ⟨⟨t, hf⟩, hs, -⟩ := h
  have hl := prefetch_lane hd (by omega) (by omega) c ha
  have ht := tileOf_of_sameRow memory (hd.sameRow_next (by omega) c) s
  have hs : p.scroll = s.columns 0 := by rw [hs, Nat.div_eq_of_lt hi]
  have hu : Tile.under memory p.control p.scroll = p.tileOf memory s 0 := by rw [hs]; rfl
  have hf := hf.fetch hi
  have hscroll := congrArg Lane.scroll hl
  have hback := congrArg Lane.background hl
  dsimp only [lane] at hscroll hback
  rw [hu] at hback
  by_cases h7 : i = 7
  · subst h7
    have hb : (p.tick c).2.1.background = p.background.shift 8 := hback
    have hf : Background.Fetching t (p.tileOf memory s 0) 8 (p.background.shift 8) := hf.shift 8
    refine ⟨⟨t, ?_⟩, ?_, fun _ => ⟨_, _, congrArg Background.shiftLow hb, congrArg Background.shiftHigh hb⟩⟩
    · rw [hb, ht]
      exact hf
    · rw [show (p.tick c).2.1.scroll = p.scroll.nextColumn from hscroll, hs]
      rfl
  · have hmod : (320 + i + 1) % 8 = i + 1 := by omega
    rw [if_neg (by omega), hs] at hscroll
    rw [if_neg (by omega), hmod] at hback
    refine ⟨⟨t, ?_⟩, ?_, fun z => absurd z (by omega)⟩
    · rw [hback, ht]
      exact hf
    · rw [hscroll, Nat.div_eq_of_lt (by omega)]

/-- After dot 320 the first tile of the next row is fetched. -/
theorem firstFetch (h : Drawing p 0) (ha : ∀ n, Answers memory (cart n)) (i : Nat) (hi : i ≤ 8) :
    FirstFetch memory (p.after cart (320 + i)) (p.nextBase cart) i := by
  have hbound := Drawing.le_rowDots p
  induction i with
  | zero =>
    exact ⟨⟨⟨0, _, _, _⟩, fun z => absurd z (by decide), rfl, rfl, rfl⟩, rfl,
      fun z => absurd z (by decide)⟩
  | succ i ih => exact (ih (by omega)).next hi (h.along cart (320 + i) (by omega)).1 _ (ha _)

/-- After `i` dots of the fetch of the second tile. -/
structure SecondFetch (memory : UInt16 → UInt8) (p : Picture) (s : Scroll) (i : Nat) : Prop where
  fetching : Background.Fetching (p.tileOf memory s 0) (p.tileOf memory s 1) i p.background
  scroll : p.scroll = s.columns (1 + i / 8)
  /-- What the registers held before is on its way out. -/
  low : ∃ v : UInt16, p.background.shiftLow =
    if i = 0 then v <<< (8 : UInt16)
    else if i < 8 then v <<< (8 : UInt16) ||| (p.tileOf memory s 0).low.toUInt16
    else (p.tileOf memory s 0).low.toUInt16 <<< (8 : UInt16)
  high : ∃ v : UInt16, p.background.shiftHigh =
    if i = 0 then v <<< (8 : UInt16)
    else if i < 8 then v <<< (8 : UInt16) ||| (p.tileOf memory s 0).high.toUInt16
    else (p.tileOf memory s 0).high.toUInt16 <<< (8 : UInt16)
  nextPalette : i ≠ 0 → p.background.nextPalette = (p.tileOf memory s 0).palette

/-- With the first tile fetched the second one begins. -/
theorem FirstFetch.done (h : FirstFetch memory p s 8) : SecondFetch memory p s 0 := by
  obtain ⟨⟨t, hf⟩, hs, hv⟩ := h
  obtain ⟨v, w, hv, hw⟩ := hv rfl
  exact ⟨hf.next, hs, ⟨v, hv⟩, ⟨w, hw⟩, fun z => absurd rfl z⟩

/-- The second tile's fetches go on dot by dot. -/
theorem SecondFetch.next {i : Nat} (h : SecondFetch memory p s i) (hi : i < 8)
    (hd : Drawing p (328 + i)) (c : γ) (ha : Answers memory c) :
    SecondFetch memory (p.tick c).2.1 s (i + 1) := by
  have hbound := Drawing.le_rowDots p
  have hf := h.fetching.fetch hi
  have hl := prefetch_lane hd (by omega) (by omega) c ha
  have ht := tileOf_of_sameRow memory (hd.sameRow_next (by omega) c) s
  have hs : p.scroll = s.columns 1 := by rw [h.scroll, Nat.div_eq_of_lt hi]
  have hu : Tile.under memory p.control p.scroll = p.tileOf memory s 1 := by rw [hs]; rfl
  have hscroll := congrArg Lane.scroll hl
  have hback := congrArg Lane.background hl
  dsimp only [lane] at hscroll hback
  rw [hu] at hback
  obtain ⟨v, hv⟩ := h.low
  obtain ⟨w, hw⟩ := h.high
  by_cases h7 : i = 7
  · -- The last dot shifts out what the registers held before the first tile.
    subst h7
    have hb : (p.tick c).2.1.background = p.background.shift 8 := hback
    have hf : Background.Fetching (p.tileOf memory s 0) (p.tileOf memory s 1) 8
      (p.background.shift 8) := hf.shift 8
    refine ⟨?_, ?_, ⟨0, ?_⟩, ⟨0, ?_⟩, fun _ => ?_⟩
    · rw [hb, ht, ht]
      exact hf
    · rw [show (p.tick c).2.1.scroll = p.scroll.nextColumn from hscroll, hs]
      rfl
    · rw [hb, ht]
      exact (congrArg (· <<< (8 : UInt16)) hv).trans (Background.shiftLeft_eight_or _ _)
    · rw [hb, ht]
      exact (congrArg (· <<< (8 : UInt16)) hw).trans (Background.shiftLeft_eight_or _ _)
    · rw [hb, ht]
      exact h.nextPalette (by decide)
  · have hmod : (328 + i + 1) % 8 = i + 1 := by omega
    rw [if_neg (by omega), hs] at hscroll
    rw [if_neg (by omega), hmod] at hback
    have hscroll' : (p.tick c).2.1.scroll = s.columns (1 + (i + 1) / 8) := by
      rw [hscroll, Nat.div_eq_of_lt (by omega)]
    by_cases h0 : i = 0
    · subst h0
      refine ⟨?_, hscroll', ⟨v, ?_⟩, ⟨w, ?_⟩, fun _ => ?_⟩
      · rw [hback, ht, ht]
        exact hf
      · rw [hback, ht, ← show p.background.low = (p.tileOf memory s 0).low from h.fetching.low]
        exact congrArg (· ||| p.background.low.toUInt16) hv
      · rw [hback, ht, ← show p.background.high = (p.tileOf memory s 0).high from h.fetching.high]
        exact congrArg (· ||| p.background.high.toUInt16) hw
      · rw [hback, ht]
        exact h.fetching.palette
    · obtain ⟨hl, hh, -, hn⟩ := Background.fetch_registers memory p.background
        (p.tileOf memory s 1) (j := i + 1) (by omega)
      rw [if_neg h0, if_pos hi] at hv hw
      refine ⟨?_, hscroll', ⟨v, ?_⟩, ⟨w, ?_⟩, fun _ => ?_⟩
      · rw [hback, ht, ht]
        exact hf
      · rw [hback, ht, hl, hv, if_neg (by omega), if_pos (by omega)]
      · rw [hback, ht, hh, hw, if_neg (by omega), if_pos (by omega)]
      · rw [hback, ht, hn]
        exact h.nextPalette h0

/-- With both tiles fetched the next row is prepared. -/
theorem SecondFetch.done (h : SecondFetch memory p s 8) : Primed memory p s := by
  obtain ⟨hf, hs, ⟨v, hv⟩, ⟨w, hw⟩, hp⟩ := h
  exact ⟨hs, hf.next, fun _ => ⟨hv, hw, hp (by decide)⟩, fun z => absurd rfl z⟩

/-- After dot 328 the second tile of the next row is fetched. -/
theorem secondFetch (h : Drawing p 0) (ha : ∀ n, Answers memory (cart n)) (i : Nat) (hi : i ≤ 8) :
    SecondFetch memory (p.after cart (328 + i)) (p.nextBase cart) i := by
  have hbound := Drawing.le_rowDots p
  induction i with
  | zero => exact (firstFetch h ha 8 (by decide)).done
  | succ i ih => exact (ih (by omega)).next hi (h.along cart (328 + i) (by omega)).1 _ (ha _)

/-! ## The end of a row -/

/-- The last dots of a row change nothing but the address of the next tile. -/
theorem idle_lane (h : Drawing p d) (h1 : 336 ≤ d) (h2 : d + 1 < p.rowDots) (c : γ) :
    ∃ a, (p.tick c).2.1.lane = { p.lane with background := { p.background with tileAddr := a } } := by
  rw [h.tick_drawing h2, if_neg (by omega), if_neg (by omega), if_neg (by omega)]
  split
  · refine ⟨(Cartridge.ppuRead c p.scroll.tileAddr).1.toUInt16, ?_⟩
    rfl
  · exact ⟨p.background.tileAddr, rfl⟩

/-- That address has no part in whether a row is prepared. -/
theorem Primed.congr {q : Picture} (h : Primed memory p s) (hc : q.control = p.control) {a : UInt16}
    (hl : q.lane = { p.lane with background := { p.background with tileAddr := a } }) :
    Primed memory q s := by
  have hb : q.background = { p.background with tileAddr := a } := congrArg Lane.background hl
  have ht (k : Nat) : q.tileOf memory s k = p.tileOf memory s k := by rw [tileOf, hc]; rfl
  refine ⟨(congrArg Lane.scroll hl).trans h.scroll, ⟨?_, fun z => ?_, fun z => absurd rfl z⟩⟩
  · rw [hb, ht, ht]
    exact ⟨fun z => absurd z (by decide), h.flight.fetching.palette, h.flight.fetching.low,
      h.flight.fetching.high⟩
  · obtain ⟨hl, hh, hn⟩ := h.flight.waiting z
    rw [hb, ht]
    exact ⟨hl, hh, hn⟩

/-- At the end of any row the first two tiles of the next are in flight. -/
theorem row_primed (h : Drawing p 0) (ha : ∀ n, Answers memory (cart n)) :
    Primed memory (p.after cart p.rowDots) (p.nextBase cart) := by
  have hbound := Drawing.le_rowDots p
  -- the dots that are left only look a tile up, which the next row does again
  have idle (m : Nat) (hm : 336 + m < p.rowDots) :
      Primed memory (p.after cart (336 + m)) (p.nextBase cart) := by
    induction m with
    | zero => exact (secondFetch h ha 8 (by decide)).done
    | succ m ih =>
      obtain ⟨hd, hr⟩ := h.along cart (336 + m) (by omega)
      have hlast : 336 + m + 1 < (p.after cart (336 + m)).rowDots := by rw [hr.rowDots]; exact hm
      obtain ⟨a, hl⟩ := idle_lane hd (by omega) hlast (cart (336 + m))
      exact (ih (by omega)).congr (hd.sameRow_next hlast _).control hl
  obtain ⟨m, hm⟩ : ∃ m, p.rowDots = 336 + m + 1 := ⟨p.rowDots - 337, by omega⟩
  obtain ⟨hd, hr⟩ := h.along cart (336 + m) (by omega)
  have hlast := hd.tick_last (by rw [hr.rowDots, hm]) (cart (336 + m))
  rw [hm, after, hlast]
  refine (idle m (by omega)).congr ?_ (beginRow_lane _)
  unfold beginRow
  split <;> rfl

end Picture

end Famicom
