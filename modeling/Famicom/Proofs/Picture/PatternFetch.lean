/-
  Where the patterns of sprites are read.

  A row fetches the sprites that were found on it, so the line of a sprite that is fetched should be one
  of those it has.  Nothing sees to that, though: the line is the distance of the row from the top of the
  sprite, counted around 256, and goes into the address as it is.

  1. **Tiles** (`Control.InTile`): the bytes of the tile that a sprite is looked up in, or of the two tiles
     of a large one.  They lie in one pattern table, which line 12 tells.
  2. **The address** (`readInTile_spritePattern`): both planes that are read lie in the tile exactly if the
     line is one of the sprite's.
  3. **One fetch** (`Fetching.noted`): each plane is read and then shown to the cartridge.
  4. **What a search leaves** (`tick_entries`): past a search nothing touches the sprites that it has found.
     So they are still there for the fetches of the same row, which stay in their tiles (`Found.onLine`),
     and those found on row 239 are there for the row before the first.
  5. **The row before the first** (`Handed.outside`): nothing is searched on it, so it fetches what row 239
     has left, and counts the lines from the row above the first.  No sprite has such a line.

  Together: `sprite_fetch_inTile_iff`.  A run on which a fetch leaves the pattern tables is
  `exists_fetch_beyond_tables`.
-/
import Mathlib.Data.Nat.Bitwise
import Famicom.Proofs.Picture.Geometry
import Famicom.Proofs.Picture.Representation
import Famicom.Proofs.Picture.SpriteRow

namespace Famicom

/-! ## Tiles -/

namespace Control

variable {c : Control} {tile : UInt8} {addr : UInt16}

/-- The table in which a sprite is looked up.  Large sprites choose their own. -/
def spriteTable (c : Control) (tile : UInt8) : Bool :=
  if c.largeSprites then tile &&& 0x01 != 0 else c.highSprites

/-- Where the tile of a sprite starts, or the first of its two tiles. -/
def tileStart (c : Control) (tile : UInt8) : Nat :=
  (if c.spriteTable tile then 0x1000 else 0) +
    16 * (if c.largeSprites then 2 * (tile.toNat / 2) else tile.toNat)

/-- An address is that of a line of a plane of the tile, or of one of the two tiles. -/
structure InTile (c : Control) (tile : UInt8) (addr : UInt16) : Prop where
  place : ∃ part plane line, part < c.spriteHeight.toNat / 8 ∧ plane < 2 ∧ line < 8 ∧
    addr.toNat = c.tileStart tile + 16 * part + 8 * plane + line
  /-- It lies in the pattern tables. -/
  tables : addr < 0x2000
  /-- Line 12 tells the table in which the sprite is looked up. -/
  line12 : (addr &&& 0x1000 != 0) = c.spriteTable tile

/-- A tile lies in one of the two pattern tables. -/
theorem tileStart_le (c : Control) (tile : UInt8) :
    (if c.spriteTable tile then 0x1000 else 0) ≤ c.tileStart tile ∧
      c.tileStart tile + 2 * c.spriteHeight.toNat ≤
        (if c.spriteTable tile then 0x1000 else 0) + 0x1000 := by
  have htile := tile.toNat_lt
  unfold tileStart
  rw [Picture.spriteHeight_toNat]
  generalize (if c.spriteTable tile then 0x1000 else 0) = table
  split <;> omega

theorem line12_eq (addr : UInt16) : (addr &&& 0x1000 != 0) = decide (addr.toNat / 0x1000 % 2 = 1) := by
  have hand : (addr &&& 0x1000).toNat = (addr.toNat.testBit 12).toNat * 2 ^ 12 := by
    rw [UInt16.toNat_and]
    exact Nat.and_two_pow _ 12
  rw [Bool.eq_iff_iff, bne_iff_ne, decide_eq_true_eq, ne_eq, ← UInt16.toNat_inj, hand]
  rw [Nat.testBit_eq_decide_div_mod_eq]
  show ¬ (decide (addr.toNat / 0x1000 % 2 = 1)).toNat * 2 ^ 12 = 0 ↔ _
  by_cases h : addr.toNat / 0x1000 % 2 = 1
  · simp [h]
  · simp [h]

/-- The bytes of a tile follow each other. -/
theorem inTile_iff : c.InTile tile addr ↔
    c.tileStart tile ≤ addr.toNat ∧ addr.toNat < c.tileStart tile + 2 * c.spriteHeight.toNat := by
  have hheight := Picture.spriteHeight_toNat c
  constructor
  · rintro ⟨⟨part, plane, line, hpart, hplane, hline, haddr⟩, -, -⟩
    split at hheight <;> omega
  · rintro ⟨hlow, hhigh⟩
    obtain ⟨hstart, hend⟩ := c.tileStart_le tile
    refine ⟨⟨(addr.toNat - c.tileStart tile) / 16, (addr.toNat - c.tileStart tile) / 8 % 2,
      (addr.toNat - c.tileStart tile) % 8, ?_, ?_, ?_, ?_⟩, ?_, ?_⟩
    · split at hheight <;> omega
    · omega
    · omega
    · omega
    · show addr.toNat < 0x2000
      split at hend <;> omega
    · rw [line12_eq]
      cases ht : c.spriteTable tile with
      | true =>
        rw [ht, if_pos rfl] at hstart hend
        exact decide_eq_true (by omega)
      | false =>
        rw [ht, if_neg Bool.false_ne_true] at hstart hend
        exact decide_eq_false (by omega)

end Control

/-- What the search on a row leaves for its fetches. -/
structure Entries where
  /-- The sprites that were found. -/
  count : UInt8
  /-- The first sprite of all is one of them. -/
  hasFirst : Bool
  /-- Their bytes. -/
  stored : Vector UInt8 32

namespace Picture

open Control (InTile)

variable {γ : Type} [Cartridge γ] {cart : Nat → γ} {p q : Picture} {d : Nat}

/-! ## The address -/

/-- The row above which a sprite is shown that is fetched now; that above the first counts as 255. -/
def fetchRow (p : Picture) : UInt8 := if p.onPrerender then 0xFF else p.row.toUInt8

/-- The line of a pattern as it goes into the address. -/
def lineOffset (c : Control) (line : Nat) : Nat :=
  line + if c.largeSprites = true ∧ 8 ≤ line then 8 else 0

/-- The address read is that of a line of the tile; the line is one of the sprite's own just if the row
    is. -/
theorem spritePattern_toNat (p : Picture) (y tile attributes : UInt8) :
    ∃ line < 256, (p.spritePattern y tile attributes).toNat =
        p.control.tileStart tile + lineOffset p.control line ∧
      (line < p.control.spriteHeight.toNat ↔
        (p.fetchRow - y).toNat < p.control.spriteHeight.toNat) := by
  have hheight := spriteHeight_toNat p.control
  have htop := spriteHeight_toUInt8 p.control
  have hline : (p.fetchRow - y).toNat < 256 := (p.fetchRow - y).toNat_lt
  -- turned over or not, the line is one of the sprite's or none
  obtain ⟨line, hl, hin⟩ : ∃ line : UInt8,
      line = (if attributes &&& 0x80 != 0 then p.control.spriteHeight.toUInt8 - 1 - (p.fetchRow - y)
        else p.fetchRow - y) ∧
      (line.toNat < p.control.spriteHeight.toNat ↔
        (p.fetchRow - y).toNat < p.control.spriteHeight.toNat) := by
    refine ⟨_, rfl, ?_⟩
    split
    · rw [UInt8.toNat_sub, htop]
      split at hheight <;> omega
    · rfl
  refine ⟨line.toNat, line.toNat_lt, ?_, hin⟩
  have h256 : line.toUInt16.toNat < 256 := by
    rw [UInt8.toNat_toUInt16]
    exact line.toNat_lt
  unfold spritePattern Control.tileStart Control.spriteTable lineOffset
  dsimp only
  rw [show (if p.onPrerender then (0xFF : UInt8) else p.row.toUInt8) = p.fetchRow from rfl, ← hl]
  by_cases hlarge : p.control.largeSprites = true
  · have htable : (if (tile &&& 0x01 != 0) = true then 0x1000 else 0) = 0x1000 * (tile.toNat % 2) := by
      rw [odd_toNat]
      split <;> simp_all
    rw [if_pos hlarge, largePattern_toNat tile h256, UInt8.toNat_toUInt16, if_pos hlarge, if_pos hlarge,
      htable]
    simp only [hlarge, true_and]
  · have hsecond : ¬ (p.control.largeSprites = true ∧ 8 ≤ line.toNat) := fun h => hlarge h.1
    rw [if_neg hlarge, smallPattern_toNat _ tile h256, UInt8.toNat_toUInt16, if_neg hlarge,
      if_neg hlarge, if_neg hsecond]
    rfl

/-- Both planes of a line that is read lie in the tile. -/
def ReadInTile (c : Control) (tile : UInt8) (addr : UInt16) : Prop :=
  InTile c tile addr ∧ InTile c tile (addr + 8)

/-- The tile has the line if it is one of the sprite's. -/
theorem readInTile_spritePattern (p : Picture) (y tile attributes : UInt8) :
    ReadInTile p.control tile (p.spritePattern y tile attributes) ↔
      (p.fetchRow - y).toNat < p.control.spriteHeight.toNat := by
  obtain ⟨line, hlt, haddr, hin⟩ := p.spritePattern_toNat y tile attributes
  have hheight := spriteHeight_toNat p.control
  have hend := (p.control.tileStart_le tile).2
  have hoffset : lineOffset p.control line ≤ line + 8 := by
    unfold lineOffset
    split <;> omega
  have hnext : (p.spritePattern y tile attributes + 8).toNat =
      p.control.tileStart tile + lineOffset p.control line + 8 := by
    rw [UInt16.toNat_add, haddr]
    show (_ + 8) % 65536 = _
    split at hend <;> omega
  rw [← hin, ReadInTile, Control.inTile_iff, Control.inTile_iff, hnext, haddr]
  unfold lineOffset
  by_cases hlarge : p.control.largeSprites = true
  · rw [if_pos hlarge] at hheight
    simp only [hlarge, true_and]
    split <;> omega
  · rw [if_neg hlarge] at hheight
    rw [if_neg fun h => hlarge h.1]
    omega

/-- Where there is no sprite, the last tile is read. -/
theorem readInTile_idlePattern (p : Picture) : ReadInTile p.control 0xFF p.idlePattern := by
  rw [ReadInTile, Control.inTile_iff, Control.inTile_iff, spriteHeight_toNat]
  unfold idlePattern Control.tileStart Control.spriteTable
  by_cases hlarge : p.control.largeSprites = true
  · simp only [hlarge, if_true]
    decide
  · simp only [hlarge]
    cases p.control.highSprites with
    | true => decide
    | false => decide

/-! ## One fetch -/

/-- The tile of the next sprite; where there is none, the last tile stands in. -/
def fetchedTile (p : Picture) : UInt8 :=
  if p.fetchesSprite then p.readSecondary ((p.sprites.next <<< (2 : UInt8)) + 1) else 0xFF

/-- The line of the next sprite, counted around 256. -/
def fetchedLine (p : Picture) : Nat :=
  (p.fetchRow - p.readSecondary (p.sprites.next <<< (2 : UInt8))).toNat

/-- Where the first plane is read. -/
def fetchedPlane (p : Picture) : UInt16 :=
  let base := p.sprites.next <<< (2 : UInt8)
  if p.fetchesSprite then
    p.spritePattern (p.readSecondary base) (p.readSecondary (base + 1)) (p.readSecondary (base + 2))
  else p.idlePattern

/-- What is read lies in the tile, if there is a sprite, exactly for the lines it has. -/
theorem readInTile_iff_line (p : Picture) :
    ReadInTile p.control p.fetchedTile p.fetchedPlane ↔
      (p.fetchesSprite = true → p.fetchedLine < p.control.spriteHeight.toNat) := by
  unfold fetchedTile fetchedPlane
  cases p.fetchesSprite with
  | true =>
    rw [if_pos rfl, if_pos rfl, readInTile_spritePattern]
    exact ⟨fun h _ => h, fun h => h rfl⟩
  | false =>
    rw [if_neg Bool.false_ne_true, if_neg Bool.false_ne_true]
    exact ⟨fun _ h => absurd h Bool.false_ne_true, fun _ => p.readInTile_idlePattern⟩

/-- Each plane is read and then shown. -/
theorem fetchSprite_noted (p : Picture) (t : Tapped γ) (hnext : p.sprites.next.toNat < 8) :
    (p.fetchSprite t).2.2.noted =
      [p.fetchedPlane + 8, p.fetchedPlane + 8, p.fetchedPlane, p.fetchedPlane] ++ t.noted := by
  unfold fetchSprite
  rw [dif_pos hnext]
  rfl

theorem fetchedPlane_congr (hr : SameRow p q) (hs : q.sprites = p.sprites)
    (hsec : q.secondaryOam = p.secondaryOam) : q.fetchedPlane = p.fetchedPlane := by
  have hread : q.readSecondary = p.readSecondary := by
    funext addr
    unfold Picture.readSecondary
    simp only [hsec]
  unfold fetchedPlane fetchesSprite idlePattern
  dsimp only
  rw [spritePattern_sameRow hr, hr.control, hs, hread]

/-- Every eighth dot of the fetches reads a sprite. -/
theorem spriteFetches_fetch (h1 : 257 ≤ d) (h2 : d ≤ 320) (hdot : p.dot = .ofNat d)
    (h4 : (d - 257) % 8 = 4) (c : γ) : p.spriteFetches c = p.fetchSprite c := by
  have h7 := p.fetchDot_and_seven h1 h2 hdot
  rw [h4] at h7
  unfold spriteFetches
  rw [h7]
  rfl

/-- So much the cartridge sees of a dot that fetches a sprite. -/
theorem Fetching.noted (h : Fetching p d) (h4 : (d + 1 - 257) % 8 = 4) (hnext : p.sprites.next.toNat < 8)
    (t : Tapped γ) :
    (p.tick t).2.2.noted =
      [p.fetchedPlane + 8, p.fetchedPlane + 8, p.fetchedPlane, p.fetchedPlane] ++ t.noted := by
  have h257 : 257 ≤ d + 1 := Nat.succ_le_succ h.lower
  have h320 : d + 1 ≤ 320 := h.upper
  have hne : d + 1 ≠ 257 := by omega
  have ho := turnRow_outline (p.onDot (d + 1))
  have hr : (p.onDot (d + 1)).turnRow.rendering = true := congrArg Outline.rendering ho
  have hstore := fetcher_store p (d := d + 1) (by omega)
  rw [if_neg hne] at hstore
  -- before it fetches, the unit has only gone on to the dot
  have hplane : (p.fetcher (d + 1)).fetchedPlane = p.fetchedPlane :=
    fetchedPlane_congr (fetcher_sameRow p (d + 1)) (congrArg SpriteStore.sprites hstore)
      (congrArg SpriteStore.secondaryOam hstore)
  have hroom : (p.fetcher (d + 1)).sprites.next.toNat < 8 := by
    rw [fetcher_next p (by omega) (by omega)]
    exact hnext
  rw [(h.tick_eq t).2, Checked.spriteDot_cartridge _ t hr]
  show ((p.fetcher (d + 1)).spriteFetches t).2.2.noted = _
  rw [spriteFetches_fetch h257 h320 (p.fetcher_dot (d + 1)) h4, fetchSprite_noted _ t hroom, hplane]

/-! ## What a search leaves

  What the last search has found stands in the secondary memory until another search begins.  On the
  rows after the picture none does, so the row before the first finds what the last row has left. -/

/-- What is left of the last search. -/
def entries (p : Picture) : Entries where
  count := p.sprites.count
  hasFirst := p.sprites.hasFirst
  stored := p.secondaryOam

theorem Found.congr_entries {q' : Picture} (h : Found p q) (he : q'.entries = q.entries) :
    Found p q' :=
  h.congr (congrArg Entries.count he) (congrArg Entries.hasFirst he) (congrArg Entries.stored he)

theorem entries_congr (h : q.store = p.store) : q.entries = p.entries := by
  have hs : q.sprites = p.sprites := congrArg SpriteStore.sprites h
  have hsec : q.secondaryOam = p.secondaryOam := congrArg SpriteStore.secondaryOam h
  rw [entries, hs, hsec]
  rfl

theorem nextDot_entries (p : Picture) : p.nextDot.entries = p.entries := by
  unfold nextDot
  split
  · split <;> rfl
  · rfl

/-- The unit does not stand on a dot that empties the row or searches it. -/
def SearchOver (p : Picture) : Prop := p.row.toNat < 240 → 257 ≤ p.dot.toNat

/-- Once the search is over, coming to a row leaves what it has found. -/
theorem arrive_entries (h : p.SearchOver) : p.arrive.entries = p.entries := by
  have hv : p.beginVblank.entries = p.entries ∧ p.beginVblank.row = p.row ∧
      p.beginVblank.dot = p.dot := by
    unfold beginVblank
    split <;> exact ⟨rfl, rfl, rfl⟩
  have hb (q : Picture) (hq : q.SearchOver) : q.beginFirstRow = q := by
    unfold beginFirstRow
    refine if_neg fun hfirst => ?_
    simp only [Bool.and_eq_true, decide_eq_true_eq] at hfirst
    have hdot := hq (by rw [hfirst.2]; decide)
    rw [hfirst.1] at hdot
    exact absurd hdot (by decide)
  unfold arrive
  split
  · rw [hb _ (by rw [SearchOver, hv.2.1, hv.2.2]; exact h)]
    exact hv.1
  · rw [hb p h]

/-- So does a fetch. -/
theorem fetchSprite_entries (p : Picture) (c : γ) : (p.fetchSprite c).2.1.entries = p.entries := by
  unfold fetchSprite
  split
  · dsimp only
    split <;> rfl
  · rfl

theorem spriteDot_entries (p : Picture) (c : γ) : (p.spriteDot c).2.1.entries = p.entries := by
  have hturn : p.turnRow.entries = p.entries := by
    unfold turnRow
    split <;> rfl
  cases hr : p.turnRow.rendering with
  | false =>
    rw [spriteDot_of_not_rendering p c hr]
    exact hturn
  | true =>
    rw [(spriteDot_of_rendering p c hr).2, entries_congr (turnPicture_store _), ← hturn]
    unfold spriteFetches
    split
    · rfl
    · rfl
    · exact fetchSprite_entries { p.turnRow with oamAddr := 0 } c
    · rfl

/-- On the row before the first nothing is searched. -/
theorem pixelDot_entries (h : p.onPrerender = true) (c : γ) : (p.pixelDot c).1.entries = p.entries := by
  have hf : (p.fetched c).entries = p.entries := by
    rw [← entries_congr (fetchBackground_store p c)]
    unfold fetched advance
    split <;> rfl
  have hbegin (q : Picture) : q.beginPicture.entries = q.entries := by
    unfold beginPicture
    dsimp only
    split <;> split <;> rfl
  have hp : (p.fetched c).onPrerender = true := by
    have ho := fetched_outline p c
    rw [onPrerender, show (p.fetched c).row = p.row from congrArg Outline.row ho,
      show (p.fetched c).region = p.region from congrArg (·.settings.region) ho]
    exact h
  rw [pixelDot_fst, if_pos hp]
  split
  · exact (hbegin _).trans hf
  · exact hf

/-- So does a dot, other than those that search. -/
theorem drawingDot_entries (h : p.dot ≤ 256 → p.onPrerender = true) (c : γ) :
    (p.drawingDot c).2.1.entries = p.entries := by
  have hm : ({ p with rendering := p.mask.draws } : Picture).entries = p.entries := rfl
  rw [← hm]
  unfold drawingDot
  dsimp only
  split
  · next h256 =>
    exact pixelDot_entries (p := { p with rendering := p.mask.draws }) (h h256) c
  · split
    · exact spriteDot_entries _ c
    · split
      · exact entries_congr (prefetchDot_store _ c)
      · split
        · exact entries_congr (idleDot_store _ c)
        · rfl

/-- Past a search the entries stay. -/
theorem tick_entries (hw : p.warmingUp = false) (hs : p.nextDot.SearchOver) (c : γ) :
    (p.tick c).2.1.entries = p.entries := by
  cases hwork : p.nextDot.atWork with
  | false =>
    rw [tick_at_rest hw hwork, ← nextDot_entries p, ← arrive_entries hs]
    generalize p.nextDot.arrive = q
    rfl
  | true =>
    rw [(tick_atWork hw hwork c).2.2, ← nextDot_entries p]
    refine drawingDot_entries (fun h256 => ?_) c
    -- so early on a row, only the one before the first is at work
    have h256 : p.nextDot.dot.toNat ≤ 256 := h256
    obtain ⟨-, hdrawn⟩ := atWork_iff.mp hwork
    rcases Bool.or_eq_true_iff.mp hdrawn with hseen | hpre
    · have hdot := hs (of_decide_eq_true hseen)
      omega
    · exact hpre

/-! ## Rows that are seen -/

/-- The next sprite, if it was found on the row that is drawn now, lies on it. -/
theorem Found.onLine (h : Found p q) (hr : SameRow p q) (hrow : p.row.toNat < 240)
    (hs : q.fetchesSprite = true) : q.fetchedLine < q.control.spriteHeight.toNat := by
  have hv : q.onPrerender = false := hr.onPrerender.trans (Drawing.not_prerender (Nat.le_of_lt hrow))
  have hlt := h.fetchesSprite hrow
  rw [hs, eq_comm, decide_eq_true_eq] at hlt
  have htop := h.readSecondary hlt (b := 0) (n := 0) rfl (by decide)
  have hlies := chosen_lies hlt
  rw [UInt8.add_zero] at htop
  simp only [liesOn, Bool.and_eq_true, decide_eq_true_eq] at hlies
  have hfetch : q.fetchRow.toNat = p.row.toNat := by
    rw [fetchRow, hv, if_neg Bool.false_ne_true, hr.row, UInt16.toNat_toUInt8]
    omega
  rw [fetchedLine, htop, hr.control, UInt8.toNat_sub_of_le _ _ (UInt8.le_iff_toNat_le.mpr (by omega)),
    hfetch]
  omega

/-- For the rest of the row the sprites that were found stay. -/
theorem found_along (h : Drawing p 0) (hrow : p.row.toNat < 240) (h0 : (p.after cart 65).oamAddr = 0)
    (m : Nat) (hm : 256 + m < p.rowDots) : Found p (p.after cart (256 + m)) := by
  induction m with
  | zero => exact (search_found h (Drawing.not_prerender (Nat.le_of_lt hrow)) h0).1
  | succ m ih =>
    obtain ⟨hd, hr⟩ := h.along cart (256 + m) (by omega)
    have hbound := Drawing.le_rowDots p
    have hfound := ih (by omega)
    rw [← Nat.add_assoc, after_succ]
    generalize p.after cart (256 + m) = q at hd hr hfound
    have hover : q.nextDot.SearchOver := by
      rw [hd.nextDot (by rw [hr.rowDots]; omega)]
      intro _
      show 257 ≤ (UInt16.ofNat (256 + m + 1)).toNat
      have hle := rowDots_le p
      rw [toNat_ofNat_dot (by omega)]
      omega
    exact hfound.congr_entries (tick_entries hd.warm hover _)

/-! ## The row before the first

  There the row is counted below the picture, and the sprites left over do not lie on it: the line that
  is fetched is not one of theirs. -/

/-- On the row before the first no sprite is fetched within its lines. -/
theorem not_onLine_of_prerender (hv : p.onPrerender = true) (hs : p.fetchesSprite = true) :
    ¬ p.fetchedLine < p.control.spriteHeight.toNat := by
  have hheight := spriteHeight_le p.control
  obtain ⟨-, htop⟩ := Bool.and_eq_true_iff.mp hs
  have htop := UInt8.lt_iff_toNat_lt.mp (of_decide_eq_true htop)
  change _ < 240 at htop
  rw [fetchedLine, fetchRow, if_pos hv,
    UInt8.toNat_sub_of_le _ _ (UInt8.le_iff_toNat_le.mpr (by show _ ≤ 255; omega))]
  show ¬ 255 - _ < _
  omega

/-- A unit left to itself past the search of row 239, as it comes to its fetches of the row before the
    first. -/
structure Carried (p q : Picture) (n : Nat) : Prop where
  going : Going q
  place : q.place = p.place + n
  settings : q.settings = p.settings
  entries : q.entries = p.entries

/-- From the last row down to the row before the first, what was found is carried along. -/
theorem Carried.tick {n : Nat} (h : Carried p q n) (hlow : 341 * 239 + 256 ≤ p.place)
    (hup : p.place + n < 341 * p.region.prerenderRow.toNat + 320) (c : γ) :
    Carried p (q.tick c).2.1 (n + 1) := by
  have hplace := h.place
  have hregion : q.region = p.region := congrArg PictureSettings.region h.settings
  obtain ⟨hgoing, hat⟩ := h.going.tick c
  have hnext : q.nextDot.place = q.place + 1 := by
    rcases place_nextDot h.going.placed h.going.dot with hnext | ⟨-, hend⟩
    · exact hnext
    · rw [hregion] at hend
      omega
  have hover : q.nextDot.SearchOver := by
    have hdot := nextDot_dot h.going.placed
    intro hrow
    unfold Picture.place at hnext hplace hlow
    omega
  refine ⟨hgoing, by omega, ?_, (tick_entries h.going.warm hover c).trans h.entries⟩
  have ho := congrArg Outline.settings (tick_outline q c h.going.warm)
  exact ho.trans ((nextDot_settings q).trans h.settings)

/-- So it is over any number of dots on the way. -/
theorem carried_after (h : Going p) (hlow : 341 * 239 + 256 ≤ p.place) (cart : Nat → γ) (n : Nat)
    (hup : p.place + n ≤ 341 * p.region.prerenderRow.toNat + 320) :
    Carried p (p.after cart n) n := by
  induction n with
  | zero => exact ⟨h, rfl, rfl, rfl⟩
  | succ n ih => exact (ih (by omega)).tick hlow (by omega) (cart n)

theorem Going.after (h : Going p) (cart : Nat → γ) (n : Nat) : Going (p.after cart n) := by
  induction n with
  | zero => exact h
  | succ n ih => exact (ih.tick (cart n)).1

/-- The dots from the start of row 239 to that of the row before the first. -/
def handDots (r : Region) : Nat := 341 * (r.prerenderRow.toNat - 239)

/-- From the end of the search on row 239 everything is carried up to the fetches of the row before the
    first. -/
theorem carried_handed (h : Drawing p 0) (hp : Placed p) (hrow : p.row.toNat = 239) (cart : Nat → γ)
    (m : Nat) (hm : m ≤ 320) :
    (p.after cart 256).place = 341 * 239 + 256 ∧
      Carried (p.after cart 256) (p.after cart (handDots p.region + m))
        (handDots p.region - 256 + m) := by
  have hlast : 239 < p.region.prerenderRow.toNat := by cases p.region <;> decide
  have hbound := Drawing.le_rowDots p
  obtain ⟨hd, hr⟩ := h.along cart 256 (by omega)
  have hgoing : Going (p.after cart 256) :=
    Going.after ⟨h.warm, hp, by rw [h.dot]; decide⟩ cart 256
  have hplace : (p.after cart 256).place = 341 * 239 + 256 := by
    rw [place, hr.row, hrow, hd.dot_toNat]
  have hn : handDots p.region + m = 256 + (handDots p.region - 256 + m) := by
    unfold handDots
    omega
  refine ⟨hplace, ?_⟩
  rw [hn, after_add]
  refine carried_after hgoing (Nat.le_of_eq hplace.symm) _ _ ?_
  rw [hplace, hr.region]
  unfold handDots
  omega

/-- So the row before the first is drawn with what the search on row 239 has found. -/
theorem search_handed (h : Drawing p 0) (hp : Placed p) (hrow : p.row.toNat = 239)
    (h0 : (p.after cart 65).oamAddr = 0) :
    Drawing (p.after cart (handDots p.region)) 0 ∧
      (p.after cart (handDots p.region)).onPrerender = true ∧
      ∀ m ≤ 320, (p.after cart (handDots p.region + m)).settings = p.settings ∧
        Found p (p.after cart (handDots p.region + m)) := by
  have hv : p.onPrerender = false := Drawing.not_prerender (by omega)
  have hlast : 239 < p.region.prerenderRow.toNat := by cases p.region <;> decide
  have hbound := Drawing.le_rowDots p
  have hfound := (search_found h hv h0).1
  have hr := (h.along cart 256 (by omega)).2
  have hall (m : Nat) (hm : m ≤ 320) :
      (p.after cart (handDots p.region + m)).settings = p.settings ∧
        Found p (p.after cart (handDots p.region + m)) := by
    have hcarried := (carried_handed h hp hrow cart m hm).2
    exact ⟨hcarried.settings.trans hr.settings, hfound.congr_entries hcarried.entries⟩
  obtain ⟨hplace, hstart⟩ := carried_handed h hp hrow cart 0 (Nat.zero_le 320)
  have hs := (hall 0 (Nat.zero_le 320)).1
  rw [Nat.add_zero] at hstart hs
  generalize p.after cart (handDots p.region) = q at hstart hs
  have hregion : q.region = p.region := congrArg PictureSettings.region hs
  -- the place is that of the first dot of the row before the first
  have hat : q.place = 341 * p.region.prerenderRow.toNat + 0 := by
    rw [hstart.place, hplace]
    unfold handDots
    omega
  obtain ⟨hqrow, hqdot⟩ := (place_eq_iff p.region.prerenderRow 0 hstart.going.dot (by decide)).mp hat
  have hpre : q.onPrerender = true := by
    rw [onPrerender, hqrow, hregion]
    exact decide_eq_true rfl
  have hdraws : q.mask.draws = true := by
    rw [show q.mask = p.mask from congrArg PictureSettings.mask hs]
    exact h.draws
  have hdrawn : q.onDrawnRow = true := by
    rw [onDrawnRow, hpre, Bool.or_true]
  have hpos := Drawing.le_rowDots q
  exact ⟨⟨hstart.going.warm, hdraws, hdrawn, hqdot, by omega, fun z => absurd rfl z⟩, hpre, hall⟩

/-- The unit `q` is to fetch, on the row before the first, the sprite in place `k` of those that `p` has
    found. -/
structure Handed (p q : Picture) (k : Nat) : Prop where
  fetching : Fetching q (260 + 8 * k)
  prerender : q.onPrerender = true
  next : q.sprites.next.toNat = k
  settings : q.settings = p.settings
  found : Found p q

/-- The fetches of the row before the first find what the last row has found. -/
theorem handed_after (h : Drawing p 0) (hp : Placed p) (hrow : p.row.toNat = 239)
    (h0 : (p.after cart 65).oamAddr = 0) {k : Nat} (hk : k < 8) :
    Handed p (p.after cart (handDots p.region + (260 + 8 * k))) k := by
  obtain ⟨hstart, hpre, hall⟩ := search_handed h hp hrow h0
  obtain ⟨hset, hfound⟩ := hall (260 + 8 * k) (by omega)
  rw [after_add] at hset hfound ⊢
  generalize p.after cart (handDots p.region) = r at hstart hpre hset hfound ⊢
  generalize (fun i => cart (handDots p.region + i)) = cart' at hset hfound ⊢
  have hbound := Drawing.le_rowDots r
  obtain ⟨hd, hr⟩ := hstart.along cart' (260 + 8 * k) (by omega)
  have hnext : (r.after cart' (257 + (3 + 8 * k))).sprites.next.toNat = (3 + 8 * k + 4) / 8 :=
    (sprites_next hstart (3 + 8 * k) (by omega)).2
  rw [show 257 + (3 + 8 * k) = 260 + 8 * k by omega, show (3 + 8 * k + 4) / 8 = k by omega] at hnext
  exact ⟨⟨hd.warm, hd.draws, hd.drawnRow, hd.dot, by omega, by omega⟩,
    hr.onPrerender.trans hpre, hnext, hset, hfound⟩

/-- A sprite of the last row is fetched there. -/
theorem Handed.fetchesSprite {k : Nat} (h : Handed p q k) (hrow : p.row.toNat = 239)
    (hk : k < p.chosen.length) : q.fetchesSprite = true := by
  rw [h.found.fetchesSprite (by omega), h.next]
  exact decide_eq_true hk

/-- So each of these sprites is fetched outside its tile. -/
theorem Handed.outside {k : Nat} (h : Handed p q k) (hrow : p.row.toNat = 239)
    (hk : k < p.chosen.length) : ¬ ReadInTile q.control q.fetchedTile q.fetchedPlane := by
  have hfetches := h.fetchesSprite hrow hk
  rw [readInTile_iff_line]
  intro hline
  exact not_onLine_of_prerender h.prerender hfetches (hline hfetches)

/-! ## Every fetch -/

/-- On each of the eight dots of a drawn row that fetch a sprite, the two planes of one line are read and
    shown to the cartridge.  They lie in the tile exactly if the line is one of those the sprite has.  That
    is so if the sprites were found on the same row, and never on the row before the first. -/
theorem sprite_fetch_inTile_iff (region : Region) (acts : List (Act γ)) {p : Picture}
    (hp : p = (new region).run acts) (hm : p.mask.draws = true) (hrow : p.onDrawnRow = true) {k : Nat}
    (hk : k < 8) (hdot : p.dot = .ofNat (260 + 8 * k)) (c : γ) :
    ∃ addr, (p.tick (⟨c, []⟩ : Tapped γ)).2.2.noted = [addr + 8, addr + 8, addr, addr] ∧
      (ReadInTile p.control p.fetchedTile addr ↔
        (p.fetchesSprite = true → p.fetchedLine < p.control.spriteHeight.toNat)) ∧
      (∀ (s : Picture) (cart : Nat → γ), Drawing s 0 → s.row.toNat < 240 →
        (s.after cart 65).oamAddr = 0 → p = s.after cart (260 + 8 * k) →
        ReadInTile p.control p.fetchedTile addr) ∧
      (p.onPrerender = true →
        (ReadInTile p.control p.fetchedTile addr ↔ p.fetchesSprite = false)) := by
  have hreach : Reachable γ p := hp ▸ reachable_run region acts
  have hpaced : Paced p := hp ▸ paced_run region acts
  have hn : p.dot.toNat = 260 + 8 * k := by rw [hdot, toNat_ofNat_dot (by omega)]
  have hroom : p.sprites.next.toNat < 8 := by
    have hdue := hpaced.onTime hrow (by omega) (by omega)
    rw [hn] at hdue
    exact Nat.lt_of_le_of_lt hdue (due_lt (by omega))
  have hf : Fetching p (260 + 8 * k) :=
    ⟨hreach.warm_of_draws hm, hm, hrow, hdot, by omega, by omega⟩
  have hiff := p.readInTile_iff_line
  refine ⟨p.fetchedPlane, hf.noted (by omega) hroom _, hiff, ?_, ?_⟩
  · intro s cart hs hseen h0 hps
    have hbound := Drawing.le_rowDots s
    have hr := (hs.along cart (260 + 8 * k) (by omega)).2
    have hfound := found_along hs hseen h0 (4 + 8 * k) (by omega)
    rw [show 256 + (4 + 8 * k) = 260 + 8 * k by omega] at hfound
    rw [← hps] at hr hfound
    exact hiff.mpr (hfound.onLine hr hseen)
  · intro hv
    rw [hiff]
    constructor
    · intro hline
      cases hs : p.fetchesSprite with
      | true => exact absurd (hline hs) (not_onLine_of_prerender hv hs)
      | false => rfl
    · intro hs hsome
      rw [hs] at hsome
      cases hsome

/-! ## A sprite at the bottom of the picture -/

/-- While the unit does not draw, sprite memory takes a byte. -/
theorem write_sprites (hr : p.rendering = false) (c : γ) (data : UInt8) :
    (p.writeRegister c 0x2004 data).1 =
      { p with
        latch := data
        oamAddr := p.oamAddr + 1
        oam := p.oam.set p.oamAddr.toNat (if p.oamAddr &&& 0x03 = 0x02 then data &&& 0xE3 else data)
          p.oamAddr.toNat_lt } := by
  show writeSprites { p with latch := data } data = _
  unfold writeSprites
  dsimp only
  rw [if_neg (by rw [hr]; decide)]
  rfl

/-- The bytes of a sprite of the last tile that lies on the last row but on none above. -/
def lastSpriteWrites (c : γ) : List (Act γ) :=
  [.write c 0x2003 0x00, .write c 0x2004 0xEF, .write c 0x2004 0xFF, .write c 0x2004 0x00]

/-- Small sprites of the second pattern table are shown. -/
def showWrites (c : γ) : List (Act γ) :=
  [.write c 0x2003 0x00, .write c 0x2000 0x08, .write c 0x2001 0x18]

/-- The writes put the first sprite on the last row. -/
theorem lastSpriteWrites_run (hr : p.rendering = false) (c : γ) :
    (p.run (lastSpriteWrites c)).oam = ((p.oam.set 0 0xEF).set 1 0xFF).set 2 0x00 := by
  have still (q : Picture) (hq : q.rendering = false) (addr : UInt16) (data : UInt8) :
      (q.writeRegister c addr data).1.rendering = false :=
    (congrArg Engine.rendering (writeRegister_engine q c addr data)).trans hq
  have h0 := still p hr 0x2003 0x00
  have h1 := still _ h0 0x2004 0xEF
  have h2 := still _ h1 0x2004 0xFF
  have hstart : (p.writeRegister c 0x2003 0x00).1 = { p with latch := 0x00, oamAddr := 0x00 } := rfl
  simp only [run, lastSpriteWrites, List.foldl_cons, List.foldl_nil, perform]
  rw [write_sprites h2, write_sprites h1, write_sprites h0, hstart]
  dsimp only
  rw [if_neg (by decide), if_neg (by decide), if_pos (by decide)]
  rfl

theorem showWrites_run (hw : p.warmingUp = false) (c : γ) :
    (p.run (showWrites c)).oam = p.oam ∧ (p.run (showWrites c)).oamAddr = 0 ∧
      (p.run (showWrites c)).control = ⟨0x08⟩ ∧
      (p.run (showWrites c)).mask = .ofWrite p.region 0x18 := by
  cases p
  cases hw
  exact ⟨rfl, rfl, rfl, rfl⟩

/-- A program can wait for the start of the last row, with nothing drawn. -/
theorem exists_last_row (c : γ) : ∃ acts : List (Act γ),
    Going ((new .ntsc).run acts) ∧ ((new .ntsc).run acts).rendering = false ∧
      ((new .ntsc).run acts).row = 239 ∧ ((new .ntsc).run acts).dot = 0 := by
  obtain ⟨k, hk⟩ := exists_after_warm (fun _ => c) .ntsc
  obtain ⟨n, hstart, hregion, hz⟩ := (going_warm .ntsc).exists_start fun _ => c
  obtain ⟨m, hgo, hregion', hat⟩ := hstart.exists_ahead (fun _ => c) (341 * 239 - 1) (by omega)
    (by rw [hregion]; decide)
  have hrun : (new .ntsc).run (List.replicate (k + (n + (m + 1))) (.tick c)) =
      (((((warm .ntsc).after (fun _ => c) n).after (fun _ => c) m).tick c).2.1) := by
    rw [run_ticks, after_add, hk, after_add]
    rfl
  refine ⟨List.replicate (k + (n + (m + 1))) (.tick c), ?_⟩
  rw [hrun]
  rw [hregion] at hregion'
  generalize ((warm .ntsc).after (fun _ => c) n).after (fun _ => c) m = q at hgo hregion' hat
  obtain ⟨hgoing, hplace⟩ := hgo.tick c
  have hnext : q.nextDot.place = 341 * 239 + 0 := by
    rcases place_nextDot hgo.placed hgo.dot with hnext | ⟨-, hend⟩
    · omega
    · rw [hregion'] at hend
      change 341 * 261 + 339 ≤ _ at hend
      omega
  obtain ⟨hrow, hdot⟩ := (place_eq_iff 239 0 hgoing.dot (by decide)).mp (hplace.trans hnext)
  refine ⟨hgoing, ?_, hrow, hdot⟩
  have hrest : q.nextDot.atWork = false := by
    rw [atWork, ← (tick_position q c).2.1, hdot]
    rfl
  rw [tick_rendering (fun hcold => absurd hcold (by rw [hgo.warm]; decide)), hrest, Bool.false_and,
    Bool.and_false]

/-- The unit is about to draw the last row, with that sprite on it. -/
structure OnLastRow (p : Picture) : Prop where
  drawing : Drawing p 0
  row : p.row.toNat = 239
  oamAddr : p.oamAddr = 0
  control : p.control = ⟨0x08⟩
  top : p.oam[0] = 0xEF
  tile : p.oam[1] = 0xFF
  attributes : p.oam[2] = 0x00

theorem onLastRow_of_writes (hw : p.warmingUp = false) (hr : p.rendering = false)
    (hregion : p.region = .ntsc) (hrow : p.row = 239) (hdot : p.dot = 0) (c : γ) :
    OnLastRow ((p.run (lastSpriteWrites c)).run (showWrites c)) := by
  have hoam := lastSpriteWrites_run hr c
  have hstored : (p.run (lastSpriteWrites c)).engine = p.engine :=
    run_engine (by simp [lastSpriteWrites, Act.movesOn])
  generalize p.run (lastSpriteWrites c) = q at hoam hstored ⊢
  have hqwarm : q.warmingUp = false := (congrArg Engine.warmingUp hstored).trans hw
  have hqregion : q.region = .ntsc := (congrArg Engine.region hstored).trans hregion
  obtain ⟨hkept, haddr, hcontrol, hmask⟩ := showWrites_run hqwarm c
  have hshown : (q.run (showWrites c)).engine = p.engine :=
    (run_engine (by simp [showWrites, Act.movesOn])).trans hstored
  generalize q.run (showWrites c) = r at hkept haddr hcontrol hmask hshown ⊢
  have hrrow : r.row.toNat = 239 := by
    rw [show r.row = p.row from congrArg Engine.row hshown, hrow]
    rfl
  have hdraws : r.mask.draws = true := by
    rw [hmask, hqregion]
    rfl
  have hwarm : r.warmingUp = false := (congrArg Engine.warmingUp hshown).trans hw
  have hstart : r.dot = 0 := (congrArg Engine.dot hshown).trans hdot
  obtain ⟨htop, htile, hattributes⟩ : r.oam[0] = 0xEF ∧ r.oam[1] = 0xFF ∧ r.oam[2] = 0x00 := by
    simp [hkept, hoam]
  exact ⟨.of_seen hwarm hdraws (by omega) hstart, hrrow, haddr, hcontrol, htop, htile, hattributes⟩

/-- That sprite is found there. -/
theorem OnLastRow.zero_mem_chosen (h : OnLastRow p) : 0 ∈ p.chosen := by
  refine Picture.zero_mem_chosen.mpr ?_
  show topOn p.row.toNat p.control.spriteHeight.toNat p.oam[0] = true
  rw [h.row, h.control, h.top]
  decide

/-- The sprite is then the first that the row before the first fetches. -/
theorem exists_last_sprite (c : γ) : ∃ (acts : List (Act γ)) (p : Picture), OnLastRow p ∧
    Handed p ((new .ntsc).run acts) 0 := by
  obtain ⟨acts, hgoing, hrest, hrow, hdot⟩ := exists_last_row c
  have hlast := onLastRow_of_writes hgoing.warm hrest (run_region .ntsc acts) hrow hdot c
  have hplaced := placed_run (γ := γ) .ntsc (acts ++ (lastSpriteWrites c ++ showWrites c))
  rw [run_append, run_append] at hplaced
  refine ⟨acts ++ (lastSpriteWrites c ++ showWrites c) ++
    .replicate (handDots .ntsc + (260 + 8 * 0)) (.tick c), _, hlast, ?_⟩
  have hregion := run_region (γ := γ) .ntsc (acts ++ (lastSpriteWrites c ++ showWrites c))
  rw [run_append, run_append] at hregion
  rw [run_append, run_append, run_append, run_ticks]
  generalize (((new .ntsc).run acts).run (lastSpriteWrites c)).run (showWrites c) = p
    at hlast hplaced hregion ⊢
  have h0 : (p.after (fun _ => c) 65).oamAddr = 0 := by
    have hv : p.onPrerender = false := Drawing.not_prerender (by rw [hlast.row]; decide)
    rw [(seen_before hlast.drawing hv _ 65 (by decide)).1]
    exact hlast.oamAddr
  rw [← hregion]
  exact handed_after hlast.drawing hplaced hlast.row h0 (by decide)

theorem sprite_fetch_inTile_iff_handed : ∃ acts : List (Act Nrom),
    ((new .ntsc).run acts).mask.draws = true ∧ ((new .ntsc).run acts).onDrawnRow = true ∧
      ((new .ntsc).run acts).dot = .ofNat (260 + 8 * 0) ∧ ∃ addr,
      (((new .ntsc).run acts).tick (⟨solidBoard, []⟩ : Tapped Nrom)).2.2.noted =
        [addr + 8, addr + 8, addr, addr] ∧
      ¬ ReadInTile ((new .ntsc).run acts).control ((new .ntsc).run acts).fetchedTile addr := by
  obtain ⟨acts, p, hp, hq⟩ := exists_last_sprite solidBoard
  have hlen := List.length_pos_of_mem hp.zero_mem_chosen
  have hm := hq.fetching.draws
  have hdrawn := hq.fetching.drawnRow
  have hdot := hq.fetching.dot
  obtain ⟨addr, hnoted, -, -, hpre⟩ :=
    sprite_fetch_inTile_iff .ntsc acts rfl hm hdrawn (by decide) hdot solidBoard
  refine ⟨acts, hm, hdrawn, hdot, addr, hnoted, ?_⟩
  rw [hpre hq.prerender, hq.fetchesSprite hp.row hlen]
  decide

/-- With a sprite of the last tile on the last row, the row before the first reads past the tile and past
    the pattern tables, and line 12 is not that of the table in which the sprite is looked up. -/
theorem exists_fetch_beyond_tables : ∃ acts : List (Act Nrom),
    (((new .ntsc).run acts).tick (⟨solidBoard, []⟩ : Tapped Nrom)).2.2.noted =
        [0x2008, 0x2008, 0x2000, 0x2000] ∧
      ((new .ntsc).run acts).fetchedTile = 0xFF ∧
      ¬ ReadInTile ((new .ntsc).run acts).control 0xFF 0x2000 ∧
      ((new .ntsc).run acts).control.spriteTable 0xFF = true ∧
      ((0x2000 : UInt16) &&& 0x1000 != 0) = false := by
  obtain ⟨acts, p, hp, hq⟩ := exists_last_sprite solidBoard
  have hlen := List.length_pos_of_mem hp.zero_mem_chosen
  refine ⟨acts, ?_⟩
  generalize (new .ntsc).run acts = q at hq ⊢
  have hlt : q.sprites.next.toNat < p.chosen.length := by
    rw [hq.next]
    exact hlen
  have hfetches := hq.fetchesSprite hp.row hlen
  have hqcontrol : q.control = ⟨0x08⟩ :=
    (congrArg PictureSettings.control hq.settings).trans hp.control
  -- the bytes of the sprite are those that were written
  have hbyte {b : UInt8} {n : Nat} (hb : b.toNat = n) (hn : n < 4) :
      q.readSecondary ((q.sprites.next <<< (2 : UInt8)) + b) = spriteByte p.oam 0 n := by
    rw [hq.found.readSecondary hlt hb hn, hq.next, chosen_first hp.zero_mem_chosen]
  have hy := (hbyte (b := 0) (n := 0) rfl (by decide)).trans hp.top
  have ht := (hbyte (b := 1) (n := 1) rfl (by decide)).trans hp.tile
  have ha := (hbyte (b := 2) (n := 2) rfl (by decide)).trans hp.attributes
  rw [UInt8.add_zero] at hy
  have hplane : q.fetchedPlane = 0x2000 := by
    unfold fetchedPlane
    dsimp only
    rw [if_pos hfetches, hy, ht, ha]
    unfold spritePattern
    rw [hq.prerender, hqcontrol]
    simp only [if_true]
    decide
  have hroom : q.sprites.next.toNat < 8 := by
    rw [hq.next]
    decide
  have hnoted := hq.fetching.noted (by decide) hroom ⟨solidBoard, []⟩
  have houtside := hq.outside hp.row hlen
  have hlast : q.fetchedTile = 0xFF := by
    unfold fetchedTile
    rw [if_pos hfetches, ht]
  rw [hplane] at hnoted houtside
  rw [hlast] at houtside
  refine ⟨hnoted, hlast, houtside, ?_, by decide⟩
  rw [hqcontrol]
  decide

end Picture

end Famicom
