/-
  The bounds that a picture unit keeps to, whatever is done to it.

  Where it stands (`Placed`), its scroll registers (`Scroll.WellFormed`) and its counts of sprites
  (`Paced`) have their bounds already.  Here are those of the rest.

  1. **Tiles** (`Background.Bounded`): the pattern of a tile lies in the pattern tables, and a palette
     is the offset of one of the four.
  2. **Search** (`Evaluation.Bounded`): it copies into the room there is, and looks at one of 64
     sprites.  The byte within a sprite is counted without a bound while there is room, but is back
     among the four whenever the room is full; that is what the rest of the search relies on.
  3. **Memories**: six bits of every colour, with the copies among the sprite palettes kept
     (`Colors`); no byte of attributes has the three bits that do not exist (`Attributes`).
  4. **Every act** keeps them (`Bounded.perform`), and so does every run (`bounded_run`).
-/
import Famicom.Proofs.Picture.Acts

namespace Famicom

/-! ## Tiles -/

/-- The pattern of the tile lies in the pattern tables, and its palette and the two being shown are
    offsets of the background palettes. -/
structure Background.Bounded (b : Background) : Prop where
  tileAddr : b.tileAddr.toNat < 0x2000
  palette : b.palette.toNat ≤ 12
  shownPalette : b.shownPalette.toNat ≤ 12
  nextPalette : b.nextPalette.toNat ≤ 12

namespace Background.Bounded

variable {b : Background}

/-- A tile's pattern read from the pattern tables keeps the background in its bounds. -/
theorem load (h : b.Bounded) {tileAddr : UInt16} (ha : tileAddr.toNat < 0x2000) :
    (b.load tileAddr).Bounded :=
  ⟨ha, h.palette, h.nextPalette, h.palette⟩

/-- Shifting the tiles in flight concerns none of the bounds. -/
theorem shift (h : b.Bounded) (dots : UInt16) : (b.shift dots).Bounded :=
  ⟨h.tileAddr, h.palette, h.shownPalette, h.nextPalette⟩

end Background.Bounded

/-- Two bits name a palette. -/
theorem paletteOffset_le (bits : UInt8) : ((bits &&& 0x03) <<< (2 : UInt8)).toNat ≤ 12 :=
  forall_byte (P := fun v => ((v &&& 0x03) <<< (2 : UInt8)).toNat ≤ 12) (by decide +kernel) bits

/-- Four more, and one of them set, name a palette of the sprites. -/
theorem spriteOffset_le (bits : UInt8) : (((bits &&& 0x03) <<< (2 : UInt8)) ||| 0x10).toNat ≤ 28 :=
  forall_byte (P := fun v => (((v &&& 0x03) <<< (2 : UInt8)) ||| 0x10).toNat ≤ 28) (by decide +kernel)
    bits

/-- The line of a tile is found in four bits of the address. -/
theorem Scroll.tileRow_le (s : Scroll) : s.tileRow.toNat < 16 := by
  have := s.addr.toNat_lt
  unfold Scroll.tileRow
  rw [UInt16.toNat_shiftRight, Nat.shiftRight_eq_div_pow]
  show s.addr.toNat / 2 ^ 12 < 16
  omega

/-- A tile number, moved up by four digits. -/
theorem tileOffset_toNat (tile : UInt8) :
    (tile.toUInt16 <<< (4 : UInt16)).toNat = 16 * tile.toNat :=
  forall_byte (P := fun v => (v.toUInt16 <<< (4 : UInt16)).toNat = 16 * v.toNat) (by decide +kernel) tile

/-- The pattern of a tile lies in one of the two tables. -/
theorem patternAddr_lt (tile : UInt8) (s : Scroll) (high : Bool) :
    ((tile.toUInt16 <<< (4 : UInt16)) ||| s.tileRow ||| (if high then 0x1000 else 0)).toNat
      < 0x2000 := by
  have htile := tile.toNat_lt
  have hrow := s.tileRow_le
  have htable : (if high then (0x1000 : UInt16) else 0).toNat < 2 ^ 13 := by cases high <;> decide
  rw [UInt16.toNat_or, UInt16.toNat_or, tileOffset_toNat]
  refine Nat.or_lt_two_pow (Nat.or_lt_two_pow ?_ ?_) htable
  · omega
  · omega

/-! ## The search

  The byte within a sprite is the one count without a bound of its own: while there is room it may go
  past the fourth, and is put back when the room is full. -/

/-- The search keeps to the room there is and to the sprites there are. -/
structure Evaluation.Bounded (e : Evaluation) : Prop where
  copied : e.copied.toNat ≤ 32
  sprite : e.sprite.toNat < 64
  /-- Once the room is full, the byte looked at is one of four. -/
  full : e.copied.toNat = 32 → e.byte.toNat ≤ 3

/-- A byte within a sprite. -/
theorem byteMask_le (v : UInt8) : (v &&& 0x03).toNat ≤ 3 := by
  rw [UInt8.toNat_and]
  exact Nat.and_le_right

namespace Evaluation.Bounded

variable {e : Evaluation}

/-- What the search last read does not matter. -/
theorem withBuffer (h : e.Bounded) (buffer : UInt8) : { e with buffer }.Bounded :=
  ⟨h.copied, h.sprite, h.full⟩

/-- A search that begins has copied nothing yet. -/
theorem start (e : Evaluation) (oamAddr : UInt8) : (e.start oamAddr).Bounded := by
  refine ⟨Nat.zero_le _, ?_, fun h => absurd (show 0 = 32 from h) (by decide)⟩
  have := oamAddr.toNat_lt
  show (oamAddr >>> (2 : UInt8)).toNat < 64
  rw [UInt8.toNat_shiftRight, Nat.shiftRight_eq_div_pow]
  show oamAddr.toNat / 2 ^ 2 < 64
  omega

theorem nextSprite (h : e.Bounded) : e.nextSprite.Bounded :=
  ⟨h.copied, colorIndex_lt (e.sprite + 1), h.full⟩

/-- The search stays among the 64 sprites, and is through after the last. -/
theorem nextSpriteOrEnd (h : e.Bounded) : e.nextSpriteOrEnd.Bounded := by
  have hn := h.nextSprite
  unfold Evaluation.nextSpriteOrEnd
  dsimp only
  split
  · exact ⟨hn.copied, hn.sprite, hn.full⟩
  · exact hn

/-- Where there is room for a byte more, the room is full only at the end of a sprite. -/
theorem afterCopy (h : e.Bounded) (hroom : e.copied.toNat < 32) : e.afterCopy.Bounded := by
  have hadd : (e.copied + 1).toNat = e.copied.toNat + 1 := by
    rw [UInt8.toNat_add]
    show (_ + 1) % 256 = _
    omega
  have hle : (e.copied + 1).toNat ≤ 32 := by omega
  unfold Evaluation.afterCopy
  split
  · dsimp only
    split
    · exact nextSpriteOrEnd ⟨hle, h.sprite, fun _ => Nat.zero_le 3⟩
    · next hin =>
      refine ⟨hle, h.sprite, fun hfull => absurd ?_ hin⟩
      have hfull : (e.copied + 1).toNat = 32 := hfull
      rw [Picture.copied_and_three]
      omega
  · exact h.nextSpriteOrEnd

/-- The search for a sprite too many counts the byte from 0 to 3. -/
theorem afterFull (h : e.Bounded) (hroom : e.copied.toNat = 32) : e.afterFull.Bounded := by
  have hbyte := h.full hroom
  have hadd : (e.byte + 1).toNat = e.byte.toNat + 1 := by
    rw [UInt8.toNat_add]
    show (_ + 1) % 256 = _
    omega
  unfold Evaluation.afterFull
  split
  · dsimp only
    generalize hmoved : (if e.byte + 1 = 4 then _ else _ : Evaluation) = moved
    have hm : moved.Bounded := by
      rw [← hmoved]
      split
      · exact ⟨h.copied, h.nextSprite.sprite, fun _ => Nat.zero_le 3⟩
      · next hne =>
        refine ⟨h.copied, h.sprite, fun _ => ?_⟩
        have : (e.byte + 1).toNat ≠ 4 := fun he => hne (UInt8.toNat_inj.mp he)
        show (e.byte + 1).toNat ≤ 3
        omega
    split
    · exact ⟨hm.copied, hm.sprite, hm.full⟩
    · split
      · exact ⟨hm.copied, hm.sprite, fun _ => Nat.zero_le 3⟩
      · exact ⟨hm.copied, hm.sprite, hm.full⟩
  · refine nextSpriteOrEnd ⟨h.copied, h.sprite, fun _ => ?_⟩
    exact byteMask_le (e.byte + 1)

end Evaluation.Bounded

/-! ## The memories -/

/-- Every colour has six bits, and the first colour of each sprite palette is that of the background
    palette of the same number. -/
structure Colors (palette : Vector UInt8 32) : Prop where
  sixBits : ∀ (i : Nat) (h : i < 32), palette[i].toNat < 64
  mirrored : ∀ (k : Nat) (h : k < 4), palette[16 + 4 * k] = palette[4 * k]

/-- The attributes of every sprite lack the three bits that do not exist. -/
def Attributes (oam : Vector UInt8 256) : Prop :=
  ∀ (i : Nat) (h : i < 256), i % 4 = 2 → oam[i] &&& 0x1C = 0

/-- A byte of sprite memory may be overwritten by one that is fit to be in its place. -/
theorem Attributes.set {oam : Vector UInt8 256} (h : Attributes oam) {i : Nat} (hi : i < 256)
    {value : UInt8} (hv : i % 4 = 2 → value &&& 0x1C = 0) : Attributes (oam.set i value hi) := by
  intro j hj h2
  rw [Vector.getElem_set]
  split
  · next e => exact hv (e ▸ h2)
  · exact h j hj h2

/-- Where a colour is kept: a first colour among the background palettes, and its copy sixteen on. -/
theorem paletteIndex_spec (addr : UInt16) :
    if Picture.paletteIndex addr &&& 0x03 = 0 then
      (Picture.paletteIndex addr).toNat < 16 ∧
        (Picture.paletteIndex addr ||| 0x10).toNat = (Picture.paletteIndex addr).toNat + 16
    else (Picture.paletteIndex addr).toNat % 4 ≠ 0 := by
  have all : ∀ n : Fin 32,
      let index : UInt16 :=
        if UInt16.ofNat n &&& 0x13 = 0x10 then UInt16.ofNat n &&& ~~~0x10 else UInt16.ofNat n
      if index &&& 0x03 = 0 then index.toNat < 16 ∧ (index ||| 0x10).toNat = index.toNat + 16
      else index.toNat % 4 ≠ 0 := by
    decide +kernel
  have hlt : (addr &&& 0x1F).toNat < 32 := by
    rw [UInt16.toNat_and]
    exact Nat.lt_of_le_of_lt Nat.and_le_right (by decide)
  have h := all ⟨(addr &&& 0x1F).toNat, hlt⟩
  rw [UInt16.ofNat_toNat] at h
  exact h

namespace Colors

variable {palette : Vector UInt8 32}

/-- A colour that has no copy. -/
theorem set (h : Colors palette) {i : Nat} (hi : i < 32) (h4 : i % 4 ≠ 0) {value : UInt8}
    (hv : value.toNat < 64) : Colors (palette.set i value hi) := by
  constructor
  · intro j hj
    rw [Vector.getElem_set]
    split
    · exact hv
    · exact h.sixBits j hj
  · intro k hk
    rw [Vector.getElem_set_ne _ _ (by omega), Vector.getElem_set_ne _ _ (by omega)]
    exact h.mirrored k hk

/-- A first colour, set along with its copy. -/
theorem setBoth (h : Colors palette) {i j : Nat} (hi : i < 32) (hj : j < 32) (h16 : i < 16)
    (hij : j = i + 16) {value : UInt8} (hv : value.toNat < 64) :
    Colors ((palette.set i value hi).set j value hj) := by
  constructor
  · intro n hn
    rw [Vector.getElem_set]
    split
    · exact hv
    · rw [Vector.getElem_set]
      split
      · exact hv
      · exact h.sixBits n hn
  · intro k hk
    by_cases hik : i = 4 * k
    · subst hik
      rw [Vector.getElem_set, if_pos (by omega), Vector.getElem_set_ne _ _ (by omega),
        Vector.getElem_set_self]
    · rw [Vector.getElem_set_ne _ _ (by omega), Vector.getElem_set_ne _ _ (by omega),
        Vector.getElem_set_ne _ _ (by omega), Vector.getElem_set_ne _ _ (by omega)]
      exact h.mirrored k hk

end Colors

namespace Picture

/-- The first of eight bytes of sprite memory has a number that eight divides. -/
theorem eightAt_mod (addr : UInt8) : (addr &&& 0xF8).toNat % 8 = 0 ∧ (addr &&& 0xF8).toNat ≤ 248 :=
  forall_byte (P := fun v => (v &&& 0xF8).toNat % 8 = 0 ∧ (v &&& 0xF8).toNat ≤ 248) (by decide +kernel)
    addr

/-- One of the eight bytes. -/
theorem eightAt_toNat (addr : UInt8) {offset : UInt8} (h : offset.toNat < 8) :
    ((addr &&& 0xF8) + offset).toNat = (addr &&& 0xF8).toNat + offset.toNat := by
  have := eightAt_mod addr
  rw [UInt8.toNat_add]
  show (_ + _) % 256 = _
  omega

/-- The dots on which sprite memory is overwritten, counted from 0. -/
theorem beginOffset_toNat {dot : UInt16} (h1 : 1 ≤ dot) (h9 : dot < 9) :
    (dot - 1).toUInt8.toNat = dot.toNat - 1 ∧ (dot - 1).toUInt8.toNat < 8 := by
  have h9' : dot.toNat < 9 := h9
  rw [UInt16.toNat_toUInt8, UInt16.toNat_sub_of_le _ _ h1]
  show (dot.toNat - 1) % 256 = dot.toNat - 1 ∧ (dot.toNat - 1) % 256 < 8
  omega

/-- The bounds of the tiles in flight, of the search and of the memories. -/
structure Bounded (p : Picture) : Prop where
  background : p.background.Bounded
  evaluation : p.evaluation.Bounded
  tiles : ∀ (i : Nat) (h : i < 8), p.sprites.tiles[i].palette.toNat ≤ 28
  colors : Colors p.palette
  attributes : Attributes p.oam

namespace Bounded

variable {γ : Type} [Cartridge γ] {p : Picture}

/-- A new unit keeps to the bounds: its memories are empty. -/
theorem new (region : Region) : Bounded (new region) where
  background := ⟨Nat.zero_lt_succ _, Nat.zero_le _, Nat.zero_le _, Nat.zero_le _⟩
  evaluation := ⟨Nat.zero_le _, Nat.zero_lt_succ _, fun _ => Nat.zero_le _⟩
  tiles i h := by
    rw [show (Picture.new region).sprites.tiles = Vector.replicate 8 {} from rfl,
      Vector.getElem_replicate]
    decide
  colors := by
    rw [show (Picture.new region).palette = Vector.replicate 32 0 from rfl]
    constructor
    · intro i h
      rw [Vector.getElem_replicate]
      decide
    · intro k h
      rw [Vector.getElem_replicate, Vector.getElem_replicate]
  attributes i h _ := by
    rw [show (Picture.new region).oam = Vector.replicate 256 0 from rfl, Vector.getElem_replicate]
    decide

/-! ### The parts of a dot -/

/-- A background fetch reads its tile out of the pattern tables. -/
theorem fetchBackground (h : p.Bounded) (c : γ) : (p.fetchBackground c).1.Bounded := by
  have hb := h.background
  unfold Picture.fetchBackground
  split
  · exact h
  · split
    · exact h
    · split
      · exact { h with background := hb.load (patternAddr_lt _ _ _) }
      · exact { h with background := { hb with palette := paletteOffset_le _ } }
      · exact { h with background := ⟨hb.tileAddr, hb.palette, hb.shownPalette, hb.nextPalette⟩ }
      · exact { h with background := ⟨hb.tileAddr, hb.palette, hb.shownPalette, hb.nextPalette⟩ }

theorem advance (h : p.Bounded) : p.advance.Bounded := by
  unfold Picture.advance
  split
  · exact ⟨h.background, h.evaluation, h.tiles, h.colors, h.attributes⟩
  · exact h

theorem showPixel (h : p.Bounded) : p.showPixel.Bounded := by
  obtain ⟨f, hit, hdraw⟩ := drawPixel_shape p
  rw [Picture.showPixel, hdraw]
  exact ⟨h.background.shift 1, h.evaluation, h.tiles, h.colors, h.attributes⟩

/-- Sprite memory is overwritten by bytes of the same place in a sprite. -/
theorem beginPicture (h : p.Bounded) (h1 : 1 ≤ p.dot) (h9 : p.dot < 9) : p.beginPicture.Bounded := by
  generalize hq : (if p.dot = 1 then { p with vblank := false, spriteHit := false, overflow := false }
    else p) = q
  have hb : q.Bounded ∧ q.dot = p.dot := by
    rw [← hq]
    split
    · exact ⟨⟨h.background, h.evaluation, h.tiles, h.colors, h.attributes⟩, rfl⟩
    · exact ⟨h, rfl⟩
  obtain ⟨hb, hsame⟩ := hb
  have hoffset := (beginOffset_toNat h1 h9).2
  unfold Picture.beginPicture
  dsimp only
  rw [hq, hsame]
  split
  · refine ⟨hb.background, hb.evaluation, hb.tiles, hb.colors,
      hb.attributes.set (UInt8.toNat_lt _) fun h2 => ?_⟩
    have height := eightAt_mod q.oamAddr
    refine hb.attributes _ (UInt8.toNat_lt _) ?_
    rw [eightAt_toNat _ hoffset]
    omega
  · exact hb

/-- The search copies a byte only into the room there is. -/
theorem evaluateByte (h : p.Bounded) : p.evaluateByte.Bounded := by
  have he := h.evaluation
  unfold Picture.evaluateByte
  dsimp only
  split
  · exact { h with evaluation := he.nextSprite.withBuffer _ }
  · split
    · next hroom =>
      have hcopy : Evaluation.Bounded { p.evaluation with
          inRange := p.evaluation.inRange || p.bufferOnRow } := ⟨he.copied, he.sprite, he.full⟩
      exact { h with evaluation := hcopy.afterCopy hroom }
    · next hfull =>
      have hfull : p.evaluation.copied.toNat = 32 := Nat.le_antisymm he.copied (Nat.le_of_not_lt hfull)
      have hlook : Evaluation.Bounded { p.evaluation with
          inRange := p.evaluation.inRange || p.bufferOnRow
          buffer := p.readSecondary p.evaluation.copied } := ⟨he.copied, he.sprite, he.full⟩
      exact { h with evaluation := hlook.afterFull hfull }

theorem boundSearch (h : p.Bounded) : p.boundSearch.Bounded := by
  unfold Picture.boundSearch
  split
  · exact { h with evaluation := .start _ _ }
  · split
    · exact ⟨h.background, h.evaluation, h.tiles, h.colors, h.attributes⟩
    · exact h

theorem stepSearch (h : p.Bounded) : p.stepSearch.Bounded := by
  unfold Picture.stepSearch
  split
  · exact { h with evaluation := h.evaluation.withBuffer _ }
  · exact { h.evaluateByte with }

/-- A step of the search keeps the bounds. -/
theorem evaluateSprites (h : p.Bounded) : p.evaluateSprites.Bounded := by
  rw [evaluateSprites_eq]
  split
  · exact h
  · split
    · exact { h with evaluation := h.evaluation.withBuffer _ }
    · exact h.boundSearch.stepSearch

theorem fetched (h : p.Bounded) (c : γ) : (p.fetched c).Bounded := (h.fetchBackground c).advance

/-- A dot of the visible part of a row keeps the bounds. -/
theorem pixelDot (h : p.Bounded) (c : γ) (h1 : 1 ≤ p.dot) : (p.pixelDot c).1.Bounded := by
  have hf := h.fetched c
  have hdot : (p.fetched c).dot = p.dot := congrArg Outline.dot (fetched_outline p c)
  rw [pixelDot_fst]
  split
  · split
    · next h9 =>
      refine hf.beginPicture ?_ h9
      rw [hdot]
      exact h1
    · exact hf
  · exact hf.showPixel.evaluateSprites

theorem turnRow (h : p.Bounded) : p.turnRow.Bounded := by
  unfold Picture.turnRow
  split
  · exact ⟨h.background, h.evaluation, h.tiles, h.colors, h.attributes⟩
  · exact h

theorem turnPicture (h : p.Bounded) : p.turnPicture.Bounded := by
  unfold Picture.turnPicture
  split
  · exact ⟨h.background, h.evaluation, h.tiles, h.colors, h.attributes⟩
  · exact h

/-- A sprite's fetch fills the sprites in flight, which have none of these bounds. -/
theorem fetchSprite (h : p.Bounded) (c : γ) : (p.fetchSprite c).2.1.Bounded := by
  unfold Picture.fetchSprite
  split
  · next hnext =>
    refine ⟨h.background, h.evaluation, fun i hi => ?_, h.colors, h.attributes⟩
    dsimp only
    split
    · show (p.sprites.tiles.set _ _ hnext)[i].palette.toNat ≤ 28
      rw [Vector.getElem_set]
      split
      · exact spriteOffset_le _
      · exact h.tiles i hi
    · exact h.tiles i hi
  · exact h

theorem spriteFetches (h : p.Bounded) (c : γ) : (p.spriteFetches c).2.1.Bounded := by
  unfold Picture.spriteFetches
  split
  · exact h
  · exact h
  · exact h.fetchSprite c
  · exact h

/-- A dot of the sprite fetches keeps the bounds. -/
theorem spriteDot (h : p.Bounded) (c : γ) : (p.spriteDot c).2.1.Bounded := by
  have ht := h.turnRow
  cases hr : p.turnRow.rendering with
  | true =>
    rw [(spriteDot_of_rendering p c hr).2]
    have hz : ({ p.turnRow with oamAddr := 0 } : Picture).Bounded := { ht with }
    exact (hz.spriteFetches c).turnPicture
  | false =>
    rw [spriteDot_of_not_rendering p c hr]
    exact ht

theorem prefetchDot (h : p.Bounded) (c : γ) : (p.prefetchDot c).1.Bounded := by
  have hf := h.fetchBackground c
  unfold Picture.prefetchDot
  dsimp only
  split
  · exact hf
  · split
    · exact { hf with evaluation := hf.evaluation.withBuffer _ }
    · split
      · exact { hf with background := hf.background.shift 8 }
      · exact hf

theorem idleDot (h : p.Bounded) (c : γ) : (p.idleDot c).1.Bounded := by
  have hb := h.background
  unfold Picture.idleDot
  split
  · exact h
  · refine { h with background := ⟨?_, hb.palette, hb.shownPalette, hb.nextPalette⟩ }
    have := (Cartridge.ppuRead c p.scroll.tileAddr).1.toNat_lt
    show (Cartridge.ppuRead c p.scroll.tileAddr).1.toUInt16.toNat < 0x2000
    rw [UInt8.toNat_toUInt16]
    omega

/-- A dot on which the unit is at work keeps the bounds. -/
theorem drawingDot (h : p.Bounded) (c : γ) (h1 : 1 ≤ p.dot) : (p.drawingDot c).2.1.Bounded := by
  have hm : ({ p with rendering := p.mask.draws } : Picture).Bounded := { h with }
  unfold Picture.drawingDot
  dsimp only
  split
  · exact hm.pixelDot c h1
  · split
    · exact hm.spriteDot c
    · split
      · exact hm.prefetchDot c
      · split
        · exact hm.idleDot c
        · exact hm

/-! ### A dot -/

theorem nextDot (h : p.Bounded) : p.nextDot.Bounded := by
  unfold Picture.nextDot
  split
  · split
    · exact { h with }
    · exact { h with }
  · exact { h with }

theorem warmUp (h : p.Bounded) : p.warmUp.Bounded := by
  unfold Picture.warmUp
  split
  · exact { h with }
  · exact { h with }

theorem arrive (h : p.Bounded) : p.arrive.Bounded := by
  have hv : p.beginVblank.Bounded := by
    unfold Picture.beginVblank
    split
    · exact { h with }
    · exact { h with }
  have hb (q : Picture) (hq : q.Bounded) : q.beginFirstRow.Bounded := by
    unfold Picture.beginFirstRow
    split
    · exact ⟨hq.background, hq.evaluation, hq.tiles, hq.colors, hq.attributes⟩
    · exact hq
  unfold Picture.arrive
  split
  · exact hb _ hv
  · exact hb _ h

/-- Every dot keeps the bounds, cold or warm, with the unit at work or not. -/
theorem tick (h : p.Bounded) (c : γ) : (p.tick c).2.1.Bounded := by
  cases hw : p.warmingUp with
  | true =>
    rw [tick_warmingUp p c hw]
    exact h.nextDot.warmUp
  | false =>
    have ha := h.nextDot.arrive
    rw [tick_eq p c hw]
    split
    · next hwork =>
      refine ha.drawingDot c (UInt16.le_iff_toNat_le.mpr (Nat.pos_of_ne_zero fun hz => ?_))
      exact (atWork_iff.mp hwork).1 (UInt16.toNat_inj.mp hz)
    · exact { ha with }

/-! ### The registers -/

theorem stepAddr (h : p.Bounded) : p.stepAddr.Bounded := { h with }

/-- Sprite memory read on a dot that fetches shows the search one of the 32 bytes. -/
theorem readSprites (h : p.Bounded) : p.readSprites.Bounded := by
  have he := h.evaluation
  unfold Picture.readSprites
  dsimp only
  split
  · split
    · next hdot =>
      simp only [Bool.and_eq_true, decide_eq_true_eq] at hdot
      have hlt := shownByte_lt hdot.1 hdot.2
      refine { h with evaluation := ⟨Nat.le_of_lt hlt, he.sprite, fun hfull => ?_⟩ }
      exact absurd hfull (Nat.ne_of_lt hlt)
    · exact { h with }
  · exact { h with }

/-- Reading a register keeps the bounds. -/
theorem readRegister (h : p.Bounded) (c : γ) (addr : UInt16) : (p.readRegister c addr).2.1.Bounded := by
  unfold Picture.readRegister
  dsimp only
  split
  · exact { h with }
  · exact h.readSprites
  · exact { h with }
  · exact h

/-- A colour is cut to six bits, and the copies among the sprite palettes follow it. -/
theorem writePalette (h : p.Bounded) (addr : UInt16) (value : UInt8) :
    (p.writePalette addr value).Bounded := by
  refine { h with colors := ?_ }
  have hspec := paletteIndex_spec addr
  have hvalue := colorIndex_lt value
  show Colors (if paletteIndex addr &&& 0x03 = 0 then _ else _)
  split
  · next hfirst =>
    rw [if_pos hfirst] at hspec
    exact h.colors.setBoth _ _ hspec.1 hspec.2 hvalue
  · next hother =>
    rw [if_neg hother] at hspec
    exact h.colors.set _ hspec hvalue

/-- A byte of attributes is stored without the three bits that do not exist. -/
theorem writeSprites (h : p.Bounded) (data : UInt8) : (p.writeSprites data).Bounded := by
  unfold Picture.writeSprites
  split
  · exact { h with }
  · dsimp only
    refine { h with attributes := h.attributes.set (UInt8.toNat_lt _) fun h2 => ?_ }
    have hlow : (p.oamAddr &&& 0x03).toNat = p.oamAddr.toNat % 4 := by
      rw [UInt8.toNat_and]
      exact Nat.and_two_pow_sub_one_eq_mod _ 2
    have hand : p.oamAddr &&& 0x03 = 0x02 := UInt8.toNat_inj.mp (hlow.trans h2)
    rw [if_pos hand]
    exact forall_byte (P := fun v => (v &&& 0xE3) &&& 0x1C = 0) (by decide +kernel) data

/-- Writing a register keeps the bounds. -/
theorem writeRegister (h : p.Bounded) (c : γ) (addr : UInt16) (data : UInt8) :
    (p.writeRegister c addr data).1.Bounded := by
  have hl : ({ p with latch := data } : Picture).Bounded := { h with }
  unfold Picture.writeRegister
  dsimp only
  split
  · split
    · exact hl
    · exact { h with }
  · split
    · exact hl
    · exact { h with }
  · exact { h with }
  · exact hl.writeSprites data
  · split
    · exact hl
    · exact { h with }
  · split
    · exact hl
    · exact { h with }
  · unfold Picture.writeData
    dsimp only
    split
    · exact (hl.writePalette _ data).stepAddr
    · exact hl.stepAddr
  · exact hl

/-- So does every act. -/
theorem perform (h : p.Bounded) (act : Act γ) : (p.perform act).Bounded := by
  cases act with
  | tick c => exact h.tick c
  | read c addr => exact h.readRegister c addr
  | write c addr data => exact h.writeRegister c addr data
  | takeNmi => exact { h with }
  | requestDma page => exact { h with }
  | takeDma => exact { h with }
  | reset => exact .new p.region

end Bounded

/-- Every run from power-on keeps to the bounds. -/
theorem bounded_run {γ : Type} [Cartridge γ] (region : Region) (acts : List (Act γ)) :
    ((new region).run acts).Bounded :=
  run_inv (fun _ act h => h.perform act) acts (.new region)

end Picture

end Famicom
