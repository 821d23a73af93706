/-
  A whole row: the pixels it draws, and that it goes on to the next without a fault.

  1. **One pixel** (`drawnOffset`): the colour that is drawn in a column, and whether the first sprite
     meets the background there (`meetsFirst`).  Both depend only on the background at this column and
     on the sprites in flight, and of the unit in its course only on where its row begins
     (`pixel_frame`, `pixel_spriteHit`).
  2. **The visible part** (`visible_frame`, `visible_spriteHit`): by induction over its dots, each of
     which draws its own column.  What comes after it draws nothing (`rest_kept`), so the same is true
     of the row (`row_frame`, `row_spriteHit`): every column of it is drawn, and no other row is
     touched.
  3. **Sprites** (`sprite_store`, `sprites_next`): the 64 dots after the visible part fetch a sprite in
     every eighth of them, one after the other, and leave sprite memory alone.

  Since a row has just eight such dots, there is always room for the sprite that is fetched: a drawn
  row ends without a fault (`row_ok`).
-/
import Famicom.Proofs.Picture.Pipeline

namespace Famicom

/-- What the sprites of a row come from, and what is fetched of them. -/
structure SpriteStore where
  oam : Vector UInt8 256
  oamAddr : UInt8
  secondaryOam : Vector UInt8 32
  sprites : SpriteLine

namespace Picture

variable {γ : Type} [Cartridge γ] {memory : UInt16 → UInt8} {cart : Nat → γ} {p : Picture} {d : Nat}

/-! ## What is drawn -/

/-- The palette offset of the pixel that is drawn. -/
def drawnOffset (p : Picture) : UInt8 :=
  let x := (p.dot - 1).toUInt8
  let behind := if p.mask.showsBackground x then p.background.color p.scroll.fineX x else 0
  match if p.mask.showsSprites x then p.sprites.opaqueAt x else none with
  | none => behind
  | some (tile, sprite, _) => if !tile.behind || behind = 0 then sprite else behind

/-- The first sprite of all meets the background in the pixel that is drawn. -/
def meetsFirst (p : Picture) : Bool :=
  let x := (p.dot - 1).toUInt8
  let behind := if p.mask.showsBackground x then p.background.color p.scroll.fineX x else 0
  match if p.mask.showsSprites x then p.sprites.opaqueAt x else none with
  | none => false
  | some (_, _, place) => place = 0 && behind != 0 && p.sprites.hasFirst && x != 255

theorem maskedColor_congr {q : Picture} (hp : q.palette = p.palette) (hm : q.mask = p.mask)
    (offset : UInt8) : q.maskedColor offset = p.maskedColor offset := by
  simp only [maskedColor, paletteEntry, hp, hm]

theorem drawPixel_frame (hr : p.rendering = true) :
    p.drawPixel.frame =
      p.frame.set (p.dot - 1).toUInt8.toNat p.row.toNat (p.maskedColor p.drawnOffset) := by
  unfold drawPixel drawnOffset
  dsimp only
  rw [if_neg (by rw [hr]; decide)]
  cases if p.mask.showsSprites (p.dot - 1).toUInt8 then p.sprites.opaqueAt (p.dot - 1).toUInt8
    else none with
  | none => dsimp only
  | some found =>
    obtain ⟨tile, sprite, place⟩ := found
    dsimp only
    exact congrArg (p.frame.set _ _) (maskedColor_congr rfl rfl _)

theorem drawPixel_spriteHit (hr : p.rendering = true) :
    p.drawPixel.spriteHit = (p.spriteHit || p.meetsFirst) := by
  unfold drawPixel meetsFirst
  dsimp only
  rw [if_neg (by rw [hr]; decide)]
  cases if p.mask.showsSprites (p.dot - 1).toUInt8 then p.sprites.opaqueAt (p.dot - 1).toUInt8
    else none with
  | none => exact (Bool.or_false _).symm
  | some found => rfl

theorem column_eq (n : Nat) : (UInt16.ofNat (n + 1) - 1).toUInt8 = .ofNat n := by
  rw [UInt16.ofNat_add, show (1 : UInt16) = .ofNat 1 from rfl, UInt16.add_sub_cancel,
    ← UInt8.toNat_inj, UInt16.toNat_toUInt8, UInt16.toNat_ofNat', UInt8.toNat_ofNat']
  omega

/-- Drawing a pixel, the unit stands on its dot of the row. -/
theorem painter_sameRow (h : Drawing p 0) (cart : Nat → γ) {x : Nat} (hx : x < 256) :
    SameRow p (p.painter cart x) ∧ (p.painter cart x).dot = .ofNat (x + 1) := by
  have hbound := Drawing.le_rowDots p
  have hr := (h.along cart x (by omega)).2
  have ho := fetched_outline ((p.after cart x).onDot (x + 1)) (cart x)
  exact ⟨hr.trans ⟨congrArg Outline.settings ho, congrArg Outline.oddFrame ho, congrArg Outline.row ho⟩,
    congrArg Outline.dot ho⟩

/-- A dot of a row that is seen draws the pixel in front of it. -/
theorem pixel_frame (h : Drawing p d) (hd : d < 256) (hv : p.onPrerender = false) (c : γ)
    (ha : Answers memory c) :
    (p.tick c).2.1.frame =
      p.frame.set d p.row.toNat (p.maskedColor ((p.onDot (d + 1)).fetched c).drawnOffset) := by
  have hf := fetched_eq (p := p) (d := d + 1) (by omega) ha
  have hl : (p.tick c).2.1.frame = ((p.onDot (d + 1)).fetched c).drawPixel.frame :=
    congrArg Lane.frame (pixel_lane h hd hv c ha)
  have hcol : (UInt16.ofNat (d + 1) - 1).toUInt8.toNat = d := by
    rw [column_eq, UInt8.toNat_ofNat']
    omega
  rw [hl, hf, drawPixel_frame rfl]
  show p.frame.set (UInt16.ofNat (d + 1) - 1).toUInt8.toNat _ _ = _
  rw [hcol]
  exact congrArg (p.frame.set d p.row.toNat) (maskedColor_congr rfl rfl _)

theorem visible_frame (h : Drawing p 0) (hv : p.onPrerender = false) (hy : p.row.toNat < 240)
    (ha : ∀ n, Answers memory (cart n)) (n : Nat) (hn : n ≤ 256) (u w : Nat) (hu : u < 256) :
    (p.after cart n).frame.get u w =
      if w = p.row.toNat ∧ u < n then .ok (p.maskedColor (p.painter cart u).drawnOffset)
      else p.frame.get u w := by
  have hbound := Drawing.le_rowDots p
  induction n with
  | zero => rw [if_neg (by omega)]; rfl
  | succ n ih =>
    obtain ⟨hd, hr⟩ := h.along cart n (by omega)
    have hf := pixel_frame hd hn (hr.onPrerender.trans hv) (cart n) (ha n)
    rw [hr.row, maskedColor_congr hr.palette hr.mask] at hf
    rw [after, hf]
    -- the pixel of this dot, or one that is left as it was
    by_cases hx : (n, p.row.toNat) = (u, w)
    · obtain ⟨rfl, rfl⟩ := Prod.mk.inj hx
      rw [Frame.get_set_self _ hu hy, if_pos ⟨rfl, Nat.lt_succ_self n⟩]
      rfl
    · rw [Frame.get_set_of_ne _ _ hx, ih (by omega)]
      have hne : w = p.row.toNat → u ≠ n := fun hw hun => hx (by rw [hw, hun])
      by_cases hw : w = p.row.toNat ∧ u < n
      · rw [if_pos hw, if_pos ⟨hw.1, Nat.lt_succ_of_lt hw.2⟩]
      · rw [if_neg hw, if_neg fun z => hw ⟨z.1, by have := hne z.1; omega⟩]

/-- A dot of a row that is seen reports that the first sprite met the background. -/
theorem pixel_spriteHit (h : Drawing p d) (hd : d < 256) (hv : p.onPrerender = false) (c : γ)
    (ha : Answers memory c) :
    (p.tick c).2.1.spriteHit = (p.spriteHit || ((p.onDot (d + 1)).fetched c).meetsFirst) := by
  have hf := fetched_eq (p := p) (d := d + 1) (by omega) ha
  have hl : (p.tick c).2.1.spriteHit = ((p.onDot (d + 1)).fetched c).drawPixel.spriteHit :=
    congrArg Lane.spriteHit (pixel_lane h hd hv c ha)
  rw [hl, hf, drawPixel_spriteHit rfl]
  rfl

theorem visible_spriteHit (h : Drawing p 0) (hv : p.onPrerender = false)
    (ha : ∀ n, Answers memory (cart n)) (n : Nat) (hn : n ≤ 256) :
    (p.after cart n).spriteHit = true ↔
      p.spriteHit = true ∨ ∃ x < n, (p.painter cart x).meetsFirst = true := by
  have hbound := Drawing.le_rowDots p
  induction n with
  | zero => simp [after]
  | succ n ih =>
    obtain ⟨hd, hr⟩ := h.along cart n (by omega)
    rw [after_succ, pixel_spriteHit hd hn (hr.onPrerender.trans hv) (cart n) (ha n), Bool.or_eq_true]
    refine (or_congr_left (ih (by omega))).trans ?_
    constructor
    · rintro ((hs | ⟨x, hx, hm⟩) | hm)
      · exact .inl hs
      · exact .inr ⟨x, Nat.lt_succ_of_lt hx, hm⟩
      · exact .inr ⟨n, Nat.lt_succ_self n, hm⟩
    · rintro (hs | ⟨x, hx, hm⟩)
      · exact .inl (.inl hs)
      · by_cases he : x = n
        · subst he
          exact .inr hm
        · exact .inl (.inr ⟨x, by omega, hm⟩)

/-- Past the visible part of a row nothing is drawn. -/
theorem rest_kept (h : Drawing p 0) (ha : ∀ n, Answers memory (cart n)) (m : Nat)
    (hm : 256 + m ≤ p.rowDots) :
    (p.after cart (256 + m)).frame = (p.after cart 256).frame ∧
      (p.after cart (256 + m)).spriteHit = (p.after cart 256).spriteHit := by
  induction m with
  | zero => exact ⟨rfl, rfl⟩
  | succ m ih =>
    obtain ⟨hd, hr⟩ := h.along cart (256 + m) (by omega)
    rw [← (ih (by omega)).1, ← (ih (by omega)).2, ← Nat.add_assoc, after_succ]
    by_cases h320 : 256 + m < 320
    · have hl := sprite_lane hd (by omega) h320 (cart (256 + m))
      exact ⟨congrArg Lane.frame hl, congrArg Lane.spriteHit hl⟩
    by_cases h336 : 256 + m < 336
    · have hl := prefetch_lane hd (by omega) h336 (cart (256 + m)) (ha _)
      exact ⟨congrArg Lane.frame hl, congrArg Lane.spriteHit hl⟩
    by_cases hlast : 256 + m + 1 < p.rowDots
    · rw [← hr.rowDots] at hlast
      obtain ⟨a, hl⟩ := idle_lane hd (by omega) hlast (cart (256 + m))
      exact ⟨congrArg Lane.frame hl, congrArg Lane.spriteHit hl⟩
    · rw [hd.tick_last (by rw [hr.rowDots]; omega)]
      exact ⟨congrArg Lane.frame (beginRow_lane _), congrArg Lane.spriteHit (beginRow_lane _)⟩

/-- The whole row leaves what its visible part has drawn. -/
theorem row_kept (h : Drawing p 0) (ha : ∀ n, Answers memory (cart n)) :
    (p.after cart p.rowDots).frame = (p.after cart 256).frame ∧
      (p.after cart p.rowDots).spriteHit = (p.after cart 256).spriteHit := by
  have hbound := Drawing.le_rowDots p
  have hrest := rest_kept h ha (p.rowDots - 256) (by omega)
  rwa [show 256 + (p.rowDots - 256) = p.rowDots by omega] at hrest

/-- A row that is seen draws itself and leaves the others alone. -/
theorem row_frame (h : Drawing p 0) (hv : p.onPrerender = false) (hy : p.row.toNat < 240)
    (ha : ∀ n, Answers memory (cart n)) (u w : Nat) (hu : u < 256) :
    (p.after cart p.rowDots).frame.get u w =
      if w = p.row.toNat then .ok (p.maskedColor (p.painter cart u).drawnOffset)
      else p.frame.get u w := by
  rw [(row_kept h ha).1, visible_frame h hv hy ha 256 (by decide) u w hu]
  simp only [hu, and_true]

/-- The report of a row that is seen: it was there before, or some pixel has it. -/
theorem row_spriteHit (h : Drawing p 0) (hv : p.onPrerender = false)
    (ha : ∀ n, Answers memory (cart n)) :
    (p.after cart p.rowDots).spriteHit = true ↔
      p.spriteHit = true ∨ ∃ x < 256, (p.painter cart x).meetsFirst = true := by
  rw [(row_kept h ha).2]
  exact visible_spriteHit h hv ha 256 (by decide)

/-! ## Eight sprites, and no ninth -/

/-- The dots that fetch sprites are counted in eights. -/
theorem fetchDot_and_seven (q : Picture) (h1 : 257 ≤ d) (h2 : d ≤ 320) (hdot : q.dot = .ofNat d) :
    (q.dot - 257) &&& 7 = .ofNat ((d - 257) % 8) := by
  have hn : q.dot.toNat = d := by rw [hdot, toNat_ofNat_dot (by omega)]
  have hsub : (q.dot - 257).toNat = d - 257 := by
    rw [UInt16.toNat_sub_of_le _ _ (UInt16.le_iff_toNat_le.mpr (by rw [hn]; exact h1)), hn]
    rfl
  rw [and_seven, hsub]

/-- Of the eight dots that belong to a sprite, the fifth fetches it. -/
theorem spriteFetches_eq (q : Picture) (h1 : 257 ≤ d) (h2 : d ≤ 320) (hdot : q.dot = .ofNat d)
    (c : γ) :
    (q.spriteFetches c).1 = (if (d - 257) % 8 = 4 then (q.fetchSprite c).1 else .ok ()) ∧
      (q.spriteFetches c).2.1 = (if (d - 257) % 8 = 4 then (q.fetchSprite c).2.1 else q) := by
  have h7 := q.fetchDot_and_seven h1 h2 hdot
  have hi : (d - 257) % 8 < 8 := Nat.mod_lt _ (by decide)
  unfold spriteFetches
  rw [h7]
  -- only the dot within its eight matters from here
  generalize (d - 257) % 8 = i at hi ⊢
  rcases (by omega : i = 0 ∨ i = 1 ∨ i = 2 ∨ i = 3 ∨ i = 4 ∨ i = 5 ∨ i = 6 ∨ i = 7) with
    rfl | rfl | rfl | rfl | rfl | rfl | rfl | rfl
  all_goals exact ⟨rfl, rfl⟩

/-- The unit as it fetches for a sprite on this dot. -/
def fetcher (p : Picture) (d : Nat) : Picture := { (p.onDot d).turnRow with oamAddr := 0 }

theorem fetcher_dot (p : Picture) (d : Nat) : (p.fetcher d).dot = .ofNat d := by
  have ho := turnRow_outline (p.onDot d)
  exact congrArg Outline.dot ho

/-- A dot on which sprites are fetched. -/
theorem sprite_tick (h : Drawing p d) (h1 : 256 ≤ d) (h2 : d < 320) (c : γ) :
    (p.tick c).1 = (if (d - 256) % 8 = 4 then ((p.fetcher (d + 1)).fetchSprite c).1 else .ok ()) ∧
      (p.tick c).2.1 = (if (d - 256) % 8 = 4 then ((p.fetcher (d + 1)).fetchSprite c).2.1
        else p.fetcher (d + 1)).turnPicture := by
  have ho := turnRow_outline (p.onDot (d + 1))
  have hr : (p.onDot (d + 1)).turnRow.rendering = true := congrArg Outline.rendering ho
  obtain ⟨hok, hstate⟩ := spriteFetches_eq (p.fetcher (d + 1)) (by omega) (by omega)
    (p.fetcher_dot (d + 1)) c
  obtain ⟨hf, hs⟩ := spriteDot_of_rendering (p.onDot (d + 1)) c hr
  rw [show d + 1 - 257 = d - 256 by omega] at hok hstate
  rw [h.tick_sprite h1 h2, hf, hs, ← hok, ← hstate]
  exact ⟨rfl, rfl⟩

/-- The sprites of a picture unit, from their memory to the row that is shown. -/
def store (p : Picture) : SpriteStore where
  oam := p.oam
  oamAddr := p.oamAddr
  secondaryOam := p.secondaryOam
  sprites := p.sprites

theorem turnPicture_store (q : Picture) : q.turnPicture.store = q.store := by
  unfold turnPicture
  split <;> rfl

theorem fetchSprite_store (q : Picture) (c : γ) :
    (q.fetchSprite c).2.1.store = { q.store with sprites := (q.fetchSprite c).2.1.sprites } := by
  unfold fetchSprite
  split <;> rfl

theorem fetchSprite_next {q : Picture} (hq : q.sprites.next.toNat < 8) (c : γ) :
    (q.fetchSprite c).1 = .ok () ∧
      (q.fetchSprite c).2.1.sprites.next.toNat = q.sprites.next.toNat + 1 := by
  have hadd : (q.sprites.next + 1).toNat = q.sprites.next.toNat + 1 := by
    rw [UInt8.toNat_add]
    show (_ + 1) % 256 = _
    omega
  unfold fetchSprite
  rw [dif_pos hq]
  refine ⟨rfl, ?_⟩
  rw [← hadd]
  dsimp only
  split <;> rfl

theorem fetcher_store (p : Picture) (hd : d ≤ 341) :
    (p.fetcher d).store =
      { p.store with oamAddr := 0, sprites := if d = 257 then p.sprites.clear else p.sprites } := by
  have h257 : (p.onDot d).dot = 257 ↔ d = 257 := by
    rw [← UInt16.toNat_inj, show (p.onDot d).dot.toNat = d from toNat_ofNat_dot hd]
    rfl
  unfold fetcher turnRow
  by_cases h : d = 257
  · rw [if_pos (h257.mpr h), if_pos h]
    rfl
  · rw [if_neg (mt h257.mp h), if_neg h]
    rfl

/-- Of the eight dots that belong to a sprite, the fifth changes the sprites of the row. -/
theorem sprite_store (h : Drawing p d) (h1 : 257 ≤ d) (h2 : d < 320) (c : γ) :
    (p.tick c).2.1.store =
      if (d - 256) % 8 = 4 then ((p.fetcher (d + 1)).fetchSprite c).2.1.store
      else { p.store with oamAddr := 0 } := by
  rw [(sprite_tick h (by omega) h2 c).2, turnPicture_store]
  split
  · rfl
  · rw [fetcher_store p (by omega), if_neg (by omega)]
    rfl

/-- The first of those dots empties the row. -/
theorem sprite_store_first (h : Drawing p 256) (c : γ) :
    (p.tick c).2.1.store = { p.store with oamAddr := 0, sprites := p.sprites.clear } := by
  rw [(sprite_tick h (by decide) (by decide) c).2, turnPicture_store, if_neg (by decide),
    fetcher_store p (by decide)]
  rfl

theorem fetcher_next (p : Picture) (h1 : 257 < d) (h2 : d ≤ 341) :
    (p.fetcher d).sprites.next = p.sprites.next := by
  have hs := congrArg (·.sprites.next) (fetcher_store p h2)
  rw [if_neg (by omega)] at hs
  exact hs

/-- On its 64 dots a row fetches one sprite in every eight. -/
theorem sprites_next (h : Drawing p 0) (m : Nat) (hm : m < 64) :
    ((p.after cart (256 + m)).tick (cart (256 + m))).1 = .ok () ∧
      (p.after cart (257 + m)).sprites.next.toNat = (m + 4) / 8 := by
  have hbound := Drawing.le_rowDots p
  induction m with
  | zero =>
    have hd := (h.along cart 256 (by omega)).1
    rw [Nat.add_zero, Nat.add_zero, after_succ _ _ 256]
    generalize p.after cart 256 = q at hd ⊢
    refine ⟨(sprite_tick hd (by decide) (by decide) (cart 256)).1, ?_⟩
    exact congrArg (·.sprites.next.toNat) (sprite_store_first hd (cart 256))
  | succ m ih =>
    obtain ⟨-, hn⟩ := ih (by omega)
    have hd := (h.along cart (257 + m) (by omega)).1
    have hok := (sprite_tick hd (by omega) (by omega) (cart (257 + m))).1
    have hstore := congrArg (·.sprites.next) (sprite_store hd (by omega) (by omega) (cart (257 + m)))
    have hnext : ((p.after cart (257 + m)).fetcher (257 + m + 1)).sprites.next.toNat = (m + 4) / 8 := by
      rw [fetcher_next _ (by omega) (by omega), hn]
    rw [show 257 + m - 256 = m + 1 by omega] at hok hstore
    rw [show 256 + (m + 1) = 257 + m by omega, ← Nat.add_assoc, after_succ, hok,
      show ((p.after cart (257 + m)).tick (cart (257 + m))).2.1.sprites.next = _ from hstore]
    -- the count stays below eight, so the ninth place is never asked for
    by_cases h4 : (m + 1) % 8 = 4
    · obtain ⟨hfine, hadd⟩ := fetchSprite_next (hnext ▸ (by omega : (m + 4) / 8 < 8))
        (cart (257 + m))
      rw [if_pos h4, if_pos h4]
      refine ⟨hfine, hadd.trans ?_⟩
      rw [hnext]
      omega
    · rw [if_neg h4, if_neg h4]
      refine ⟨rfl, hn.trans ?_⟩
      omega

/-- A row goes through without a fault. -/
theorem row_ok (h : Drawing p 0) (cart : Nat → γ) (n : Nat) (hn : n < p.rowDots) :
    ((p.after cart n).tick (cart n)).1 = .ok () := by
  obtain ⟨hd, hr⟩ := h.along cart n hn
  by_cases hlast : n + 1 < p.rowDots
  · by_cases h256 : n < 256
    · rw [hd.tick_pixel h256]
    by_cases h320 : n < 320
    · obtain ⟨m, rfl⟩ : ∃ m, n = 256 + m := ⟨n - 256, by omega⟩
      exact (sprites_next h m (by omega)).1
    rw [hd.tick_drawing (by rw [hr.rowDots]; exact hlast), if_neg (by omega), if_neg (by omega)]
    split
    · rfl
    · split <;> rfl
  · rw [hd.tick_last (by rw [hr.rowDots]; omega)]

end Picture

end Famicom
