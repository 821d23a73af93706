/-
  The search for the sprites of the next row.

  1. **What it is for** (`chosen`): of the 64 sprites the first eight that lie on the row.  The unit
     looks at one byte of sprite memory every two dots and copies the four bytes of each sprite it
     takes.
  2. **What it works on** (`Search`): sprite memory with its address, the secondary memory and the
     registers of the search.  A dot of a row that is seen is a step of the search (`search_next`), on
     odd dots a read and on even ones a look (`search_read`, `search_look`).
  3. **The invariant** (`Scanning`): the search is about to look at byte `b` of sprite `s`, and the
     sprites before `s` that lie on the row are copied.  `Searched` holds once all are.  A look leads
     from the first to itself, one byte on (`Scanning.next_within`) or on to the next sprite
     (`Scanning.next_off`, `Scanning.next_fourth`), or to the second; said at once by `Scanning.next`.
  4. **The time it takes**: 64 sprites and the three more bytes of at most eight are fewer looks than
     there are on a row, so the search is through before the row ends (`Looking`, `search_looking`).

  Main statement: at the end of a row that is seen the secondary memory holds the chosen sprites, one
  after the other, and the unit knows their number and whether the first of all is among them
  (`search_found`).
-/
import Famicom.Proofs.Picture.Row

namespace Famicom

/-! ## The sprites of a row -/

/-- A byte of a sprite: its top, its tile, its attributes and its left edge. -/
def spriteByte (oam : Vector UInt8 256) (i b : Nat) : UInt8 :=
  have : (4 * i + b) % 256 < 256 := Nat.mod_lt _ (by decide)
  oam[(4 * i + b) % 256]

/-- A sprite with this top lies on a row. -/
def topOn (row height : Nat) (top : UInt8) : Bool := top.toNat ≤ row && row < top.toNat + height

/-- A sprite lies on a row. -/
def liesOn (oam : Vector UInt8 256) (row height i : Nat) : Bool :=
  (spriteByte oam i 0).toNat ≤ row && row < (spriteByte oam i 0).toNat + height

/-- Those of the first `s` sprites that lie on a row. -/
def lyingOn (oam : Vector UInt8 256) (row height s : Nat) : List Nat :=
  (List.range s).filter (liesOn oam row height)

/-- The sprites that are shown of a row: the first eight that lie on it. -/
def chosen (oam : Vector UInt8 256) (row height : Nat) : List Nat := (lyingOn oam row height 64).take 8

section

variable (oam : Vector UInt8 256) (row height : Nat)

/-- A sprite on the row is added at the end. -/
theorem lyingOn_succ_of_lies {s : Nat} (h : liesOn oam row height s = true) :
    lyingOn oam row height (s + 1) = lyingOn oam row height s ++ [s] := by
  simp [lyingOn, List.range_succ, List.filter_append, h]

/-- A sprite beside the row adds nothing. -/
theorem lyingOn_succ_of_not {s : Nat} (h : liesOn oam row height s = false) :
    lyingOn oam row height (s + 1) = lyingOn oam row height s := by
  simp [lyingOn, List.range_succ, List.filter_append, h]

/-- Looking at more sprites only adds to the end of the list. -/
theorem lyingOn_prefix {s n : Nat} (h : s ≤ n) : lyingOn oam row height s <+: lyingOn oam row height n := by
  induction n with
  | zero =>
    obtain rfl : s = 0 := by omega
    exact List.prefix_refl _
  | succ n ih =>
    by_cases hs : s = n + 1
    · subst hs
      exact List.prefix_refl _
    · refine (ih (by omega)).trans ?_
      cases hl : liesOn oam row height n with
      | true =>
        rw [lyingOn_succ_of_lies oam row height hl]
        exact List.prefix_append _ _
      | false =>
        exact (lyingOn_succ_of_not oam row height hl).symm ▸ List.prefix_refl _

/-- Once eight are found, they are the ones chosen. -/
theorem chosen_of_eight {s : Nat} (hs : s ≤ 64) (h : (lyingOn oam row height s).length = 8) :
    chosen oam row height = lyingOn oam row height s := by
  obtain ⟨rest, hrest⟩ := lyingOn_prefix oam row height hs
  rw [chosen, ← hrest, ← h, List.take_left]

/-- If there are no more than eight, all are chosen. -/
theorem chosen_of_all (h : (lyingOn oam row height 64).length ≤ 8) :
    chosen oam row height = lyingOn oam row height 64 :=
  List.take_of_length_le h

end

namespace Picture

variable {γ : Type} [Cartridge γ] {cart : Nat → γ} {p : Picture} {d : Nat}

/-! ## What the search works on -/

/-- What takes part in the search for sprites, and what it reports. -/
structure Search where
  oam : Vector UInt8 256
  oamAddr : UInt8
  secondaryOam : Vector UInt8 32
  evaluation : Evaluation
  sprites : SpriteLine
  overflow : Bool

/-- The search of a picture unit. -/
def search (p : Picture) : Search where
  oam := p.oam
  oamAddr := p.oamAddr
  secondaryOam := p.secondaryOam
  evaluation := p.evaluation
  sprites := p.sprites
  overflow := p.overflow

/-- The address after an even dot is that of the byte to be looked at next. -/
def Search.address (s : Search) : Search := { s with oamAddr := s.evaluation.oamAddr }

/-- Two units that are in the same search on the same dot. -/
structure SameSearch (p q : Picture) : Prop where
  search : q.search = p.search
  row : q.row = p.row
  control : q.control = p.control
  dot : q.dot = p.dot

namespace SameSearch

variable {q : Picture}

/-- Such units differ in what takes no part in the search. -/
theorem eq (h : SameSearch p q) :
    q = { q with
      oam := p.oam, oamAddr := p.oamAddr, secondaryOam := p.secondaryOam, evaluation := p.evaluation
      sprites := p.sprites, overflow := p.overflow, row := p.row, control := p.control
      dot := p.dot } := by
  rcases p
  rcases q
  rcases h with ⟨hs, hr, hc, hd⟩
  cases hs; cases hr; cases hc; cases hd
  rfl

theorem clearSearch (h : SameSearch p q) : q.clearSearch.search = p.clearSearch.search := by
  rw [h.eq]
  rfl

/-- What begins and ends a search looks at nothing but the search. -/
theorem boundSearch (h : SameSearch p q) : SameSearch p.boundSearch q.boundSearch := by
  rw [h.eq]
  unfold Picture.boundSearch
  dsimp only
  split
  · exact ⟨rfl, rfl, rfl, rfl⟩
  · split <;> exact ⟨rfl, rfl, rfl, rfl⟩

/-- Looking at a byte depends on the search, the row and the height of sprites only. -/
theorem evaluateByte (h : SameSearch p q) : q.evaluateByte.search = p.evaluateByte.search := by
  rw [h.eq]
  unfold Picture.evaluateByte bufferOnRow
  dsimp only
  split
  · rfl
  · split <;> rfl

theorem stepSearch (h : SameSearch p q) : q.stepSearch.search = p.stepSearch.search := by
  have hbyte := h.evaluateByte
  rw [h.eq] at hbyte ⊢
  unfold Picture.stepSearch
  dsimp only
  split
  · rfl
  · exact congrArg Search.address hbyte

/-- So does a whole step of the search. -/
theorem evaluateSprites (h : SameSearch p q) (hr : q.rendering = p.rendering) :
    q.evaluateSprites.search = p.evaluateSprites.search := by
  rw [evaluateSprites_eq, evaluateSprites_eq, hr, h.dot]
  split
  · exact h.search
  · split
    · exact h.clearSearch
    · exact h.boundSearch.stepSearch

end SameSearch

/-- Drawing a pixel changes the picture and the report of a hit. -/
theorem drawPixel_shape (p : Picture) :
    ∃ f hit, p.drawPixel = { p with frame := f, spriteHit := hit } := by
  unfold drawPixel
  dsimp only
  split
  · exact ⟨_, p.spriteHit, rfl⟩
  · split
    · exact ⟨_, p.spriteHit, rfl⟩
    · exact ⟨_, _, rfl⟩

/-- A dot of a row that is seen moves the search on. -/
theorem search_next (h : Drawing p d) (hd : d < 256) (hv : p.onPrerender = false) (c : γ) :
    (p.tick c).2.1.search = (p.onDot (d + 1)).evaluateSprites.search := by
  -- whatever the cartridge answers, the search does not depend on it
  have ha : Answers (fun addr => (Cartridge.ppuRead c addr).1) c := fun _ => rfl
  have hf := fetched_eq (p := p) (d := d + 1) (by omega) ha
  have hp : ((p.onDot (d + 1)).fetched c).onPrerender = false := by
    rw [hf]
    exact hv
  rw [h.tick_pixel hd, pixelDot_fst, hp]
  -- fetching and drawing come first on a dot, and touch nothing of the search
  obtain ⟨f, hit, hdraw⟩ := drawPixel_shape ((p.onDot (d + 1)).fetched c)
  have hsame : SameSearch (p.onDot (d + 1)) ((p.onDot (d + 1)).fetched c).showPixel := by
    rw [showPixel, hdraw, hf]
    exact ⟨rfl, rfl, rfl, rfl⟩
  refine hsame.evaluateSprites ?_
  rw [showPixel, hdraw, hf]

/-! ## The dots of the search -/

/-- On a dot of a drawn row the search clears its result up to dot 64 and steps from then on. -/
theorem onDot_evaluateSprites (p : Picture) {n : Nat} (hn : n ≤ 341) :
    (p.onDot n).evaluateSprites =
      if n < 65 then (p.onDot n).clearSearch else (p.onDot n).boundSearch.stepSearch := by
  have h65 : (p.onDot n).dot < 65 ↔ n < 65 := by
    rw [UInt16.lt_iff_toNat_lt, show (p.onDot n).dot.toNat = n from toNat_ofNat_dot hn]
    rfl
  rw [evaluateSprites_eq]
  refine (if_neg Bool.false_ne_true).trans ?_
  exact ite_congr (propext h65) (fun _ => rfl) fun _ => rfl

/-- A search begins on dot 65 and ends on dot 256; between them it only steps. -/
theorem onDot_boundSearch (p : Picture) {n : Nat} (hn : n ≤ 341) (h65 : n ≠ 65) (h256 : n ≠ 256) :
    (p.onDot n).boundSearch = p.onDot n := by
  have ne (m : Nat) (hm : m ≤ 341) (h : n ≠ m) : (p.onDot n).dot ≠ .ofNat m := fun e => by
    have := congrArg UInt16.toNat e
    rw [show (p.onDot n).dot.toNat = n from toNat_ofNat_dot hn, toNat_ofNat_dot hm] at this
    exact h this
  exact (if_neg (ne 65 (by decide) h65)).trans (if_neg (ne 256 (by decide) h256))

/-- The lowest bit of a dot says whether it is odd. -/
theorem odd_iff {v : UInt16} {n : Nat} (hn : n ≤ 341) (hv : v = .ofNat n) : v &&& 1 = 1 ↔ n % 2 = 1 := by
  rw [and_one, hv, toNat_ofNat_dot hn, ← UInt16.toNat_inj, UInt16.toNat_ofNat']
  show n % 2 % 65536 = 1 ↔ _
  omega

/-- On odd dots a byte of sprite memory is read. -/
theorem stepSearch_odd {q : Picture} {n : Nat} (hn : n ≤ 341) (hq : q.dot = .ofNat n)
    (hodd : n % 2 = 1) :
    q.stepSearch.search =
      { q.search with evaluation := { q.evaluation with buffer := q.readOam q.oamAddr } } := by
  rw [stepSearch, if_pos ((odd_iff hn hq).mpr hodd)]
  rfl

/-- On even dots the byte that was read is looked at, and the address put where the search stands. -/
theorem stepSearch_even {q : Picture} {n : Nat} (hn : n ≤ 341) (hq : q.dot = .ofNat n)
    (heven : n % 2 = 0) : q.stepSearch.search = q.evaluateByte.search.address := by
  rw [stepSearch, if_neg (mt (odd_iff hn hq).mp (by omega))]
  rfl

/-- Dot 65 begins the search at the sprite that the sprite address points to, and reads its first byte.
    -/
theorem search_start (h : Drawing p 64) (hv : p.onPrerender = false) (c : γ) :
    (p.tick c).2.1.search =
      { p.search with evaluation :=
          { p.evaluation.start p.oamAddr with buffer := p.readOam p.oamAddr } } := by
  rw [search_next h (by decide) hv c, onDot_evaluateSprites p (by decide), if_neg (by decide),
    stepSearch_odd (n := 65) (by decide) rfl (by decide)]
  rfl

/-- An odd dot after it reads the next byte. -/
theorem search_read (h : Drawing p d) (h1 : 65 ≤ d) (h2 : d < 255) (hodd : (d + 1) % 2 = 1)
    (hv : p.onPrerender = false) (c : γ) :
    (p.tick c).2.1.search =
      { p.search with evaluation := { p.evaluation with buffer := p.readOam p.oamAddr } } := by
  rw [search_next h (by omega) hv c, onDot_evaluateSprites p (by omega), if_neg (by omega),
    onDot_boundSearch p (by omega) (by omega) (by omega),
    stepSearch_odd (n := d + 1) (by omega) rfl hodd]
  rfl

/-- On which dot a byte is looked at does not matter. -/
theorem onDot_evaluateByte (p : Picture) (n : Nat) :
    (p.onDot n).evaluateByte.search = p.evaluateByte.search := by
  unfold evaluateByte bufferOnRow onDot
  dsimp only
  split
  · rfl
  · split <;> rfl

/-- An even dot looks at the byte. -/
theorem search_look (h : Drawing p d) (h1 : 65 ≤ d) (h2 : d < 255) (heven : (d + 1) % 2 = 0)
    (hv : p.onPrerender = false) (c : γ) :
    (p.tick c).2.1.search = p.evaluateByte.search.address := by
  rw [search_next h (by omega) hv c, onDot_evaluateSprites p (by omega), if_neg (by omega),
    onDot_boundSearch p (by omega) (by omega) (by omega),
    stepSearch_even (n := d + 1) (by omega) rfl heven, onDot_evaluateByte]

/-- The unit with the result of the search taken. -/
def tookSearch (p : Picture) : Picture :=
  { p with sprites := { p.sprites with
      hasFirst := p.evaluation.foundFirst, count := p.evaluation.copied >>> (2 : UInt8) } }

/-- The last dot of the search takes its result before it goes on. -/
theorem search_end (h : Drawing p 255) (hv : p.onPrerender = false) (c : γ) :
    (p.tick c).2.1.search = p.tookSearch.evaluateByte.search.address := by
  have hbound : (p.onDot 256).boundSearch = p.tookSearch.onDot 256 := rfl
  rw [search_next h (by decide) hv c, onDot_evaluateSprites p (by decide), if_neg (by decide), hbound,
    stepSearch_even (n := 256) (by decide) rfl (by decide), onDot_evaluateByte]

/-! ## A step of the search -/

variable {q : Picture} {s b : Nat}

/-- The sprites before `s` that lie on the row of a unit. -/
def lying (p : Picture) (s : Nat) : List Nat :=
  lyingOn p.oam p.row.toNat p.control.spriteHeight.toNat s

/-- The sprites of the next row. -/
def chosen (p : Picture) : List Nat := Famicom.chosen p.oam p.row.toNat p.control.spriteHeight.toNat

/-- The sprites on the row depend on sprite memory, the row and the height of sprites. -/
theorem lying_congr (ho : q.oam = p.oam) (hr : q.row = p.row) (hc : q.control = p.control) :
    q.lying = p.lying := by
  funext s
  rw [lying, lying, ho, hr, hc]

/-- So do those that are shown of it. -/
theorem chosen_congr (ho : q.oam = p.oam) (hr : q.row = p.row) (hc : q.control = p.control) :
    q.chosen = p.chosen := by
  rw [chosen, chosen, ho, hr, hc]

/-- The first sprite is shown of a row just if it lies on it. -/
theorem zero_mem_chosen : 0 ∈ p.chosen ↔
    liesOn p.oam p.row.toNat p.control.spriteHeight.toNat 0 = true := by
  constructor
  · intro hmem
    exact (List.mem_filter.mp (List.mem_of_mem_take hmem)).2
  · intro hl
    -- the first sprite of all is the first that lies on the row
    have hone : p.lying 1 = [0] := lyingOn_succ_of_lies _ _ _ hl
    obtain ⟨rest, hrest⟩ := lyingOn_prefix p.oam p.row.toNat p.control.spriteHeight.toNat
      (by decide : 1 ≤ 64)
    have hall : p.lying 64 = 0 :: rest := by
      rw [lying, ← hrest]
      exact congrArg (· ++ rest) hone
    show 0 ∈ (p.lying 64).take 8
    rw [hall]
    exact List.mem_cons_self

/-- The unit is about to look at byte `b` of sprite `s`, and has copied all that lies before it and on the
    row. -/
structure Scanning (p : Picture) (s b : Nat) : Prop where
  sprite_lt : s < 64
  byte_lt : b < 4
  sprite : p.evaluation.sprite = .ofNat s
  byte : p.evaluation.byte = .ofNat b
  oamAddr : p.oamAddr.toNat = 4 * s + b
  finished : p.evaluation.finished = false
  inRange : p.evaluation.inRange = decide (b ≠ 0)
  lies : b ≠ 0 → liesOn p.oam p.row.toNat p.control.spriteHeight.toNat s = true
  room : (p.lying s).length < 8
  copied : p.evaluation.copied.toNat = 4 * (p.lying s).length + b
  foundFirst : p.evaluation.foundFirst = true ↔ 0 ∈ p.lying s ∨ s = 0 ∧ b ≠ 0
  stored : ∀ m (hm : m < 32), m < 4 * (p.lying s).length + b →
    p.secondaryOam[m] = spriteByte p.oam ((p.lying s ++ [s]).getD (m / 4) 0) (m % 4)

/-- The sprites of a list, and no others, are copied. -/
structure Copied (p : Picture) (l : List Nat) : Prop where
  copied : p.evaluation.copied.toNat = 4 * l.length
  foundFirst : p.evaluation.foundFirst = true ↔ 0 ∈ l
  stored : ∀ m (hm : m < 32), m < 4 * l.length →
    p.secondaryOam[m] = spriteByte p.oam (l.getD (m / 4) 0) (m % 4)

/-- The sprites of the next row are found and copied. -/
structure Searched (p : Picture) : Prop where
  through : p.evaluation.finished = true ∨ p.evaluation.copied = 32
  copied : Copied p p.chosen

/-- Sprites are eight or sixteen rows high. -/
theorem spriteHeight_toNat (c : Control) :
    c.spriteHeight.toNat = if c.largeSprites then 16 else 8 := by
  unfold Control.spriteHeight
  split <;> rfl

theorem spriteHeight_le (c : Control) : c.spriteHeight.toNat ≤ 16 := by
  rw [spriteHeight_toNat]
  split <;> decide

/-- The byte in the buffer puts a sprite on the row if it does as its top. -/
theorem bufferOnRow_eq (p : Picture) :
    p.bufferOnRow = topOn p.row.toNat p.control.spriteHeight.toNat p.evaluation.buffer := by
  have hlt := p.evaluation.buffer.toNat_lt
  have hh := spriteHeight_le p.control
  have hsum : (p.evaluation.buffer.toUInt16 + p.control.spriteHeight).toNat =
      p.evaluation.buffer.toNat + p.control.spriteHeight.toNat := by
    rw [UInt16.toNat_add, UInt8.toNat_toUInt16]
    omega
  unfold bufferOnRow topOn
  simp only [UInt16.le_iff_toNat_le, UInt16.lt_iff_toNat_lt, hsum, UInt8.toNat_toUInt16]

/-- The step of a scan copies the byte and moves on. -/
theorem Scanning.evaluateByte (h : Scanning p s b)
    (hbuf : p.evaluation.buffer = spriteByte p.oam s b) (hc : p.evaluation.copied.toNat < 32) :
    p.evaluateByte.search =
      { p.search with
        secondaryOam := p.secondaryOam.set p.evaluation.copied.toNat (spriteByte p.oam s b) hc
        evaluation := { p.evaluation with
          inRange := liesOn p.oam p.row.toNat p.control.spriteHeight.toNat s }.afterCopy } := by
  have hrange : (p.evaluation.inRange || p.bufferOnRow) =
      liesOn p.oam p.row.toNat p.control.spriteHeight.toNat s := by
    rw [h.inRange]
    by_cases hb : b = 0
    · subst hb
      rw [bufferOnRow_eq, hbuf]
      rfl
    · rw [h.lies hb, decide_eq_true hb]
      rfl
  unfold Picture.evaluateByte
  dsimp only
  rw [if_neg (by rw [h.finished]; decide), dif_pos hc, hrange]
  simp only [← hbuf]
  rfl

/-- Sprites are counted round in 64. -/
theorem nextSprite_toNat {e : Evaluation} (he : e.sprite = .ofNat s) :
    ((e.sprite + 1) &&& 0x3F).toNat = (s + 1) % 64 := by
  rw [UInt8.toNat_and, UInt8.toNat_add, he, UInt8.toNat_ofNat']
  show (s % 256 + 1) % 256 &&& 2 ^ 6 - 1 = _
  rw [Nat.and_two_pow_sub_one_eq_mod]
  omega

/-- Before the last sprite the search goes on to the next. -/
theorem nextSpriteOrEnd_of_lt {e : Evaluation} (he : e.sprite = .ofNat s) (hs : s < 63) :
    e.nextSpriteOrEnd = { e with sprite := .ofNat (s + 1) } := by
  have hnext : (e.sprite + 1) &&& 0x3F = .ofNat (s + 1) := by
    rw [← UInt8.toNat_inj, nextSprite_toNat he, UInt8.toNat_ofNat']
    omega
  have hne : UInt8.ofNat (s + 1) ≠ 0 := fun z => by
    have := congrArg UInt8.toNat z
    rw [UInt8.toNat_ofNat'] at this
    have : (s + 1) % 256 = 0 := this
    omega
  unfold Evaluation.nextSpriteOrEnd Evaluation.nextSprite
  rw [hnext]
  exact if_neg hne

/-- After the last sprite the search is through. -/
theorem nextSpriteOrEnd_last {e : Evaluation} (he : e.sprite = .ofNat 63) :
    e.nextSpriteOrEnd = { e with sprite := 0, finished := true } := by
  have hnext : (e.sprite + 1) &&& 0x3F = 0 := by
    rw [← UInt8.toNat_inj, nextSprite_toNat he]
    rfl
  unfold Evaluation.nextSpriteOrEnd Evaluation.nextSprite
  rw [hnext]
  exact if_pos rfl

/-- A sprite is copied when the count of bytes is a multiple of four. -/
theorem copied_and_three (v : UInt8) : (v + 1) &&& 0x03 = 0 ↔ (v.toNat + 1) % 4 = 0 := by
  rw [← UInt8.toNat_inj, UInt8.toNat_and, UInt8.toNat_add]
  show (v.toNat + 1) % 256 &&& 2 ^ 2 - 1 = 0 ↔ _
  rw [Nat.and_two_pow_sub_one_eq_mod]
  omega

/-- The first three bytes of a sprite are followed by its next. -/
theorem afterCopy_within {e : Evaluation} (hin : e.inRange = true)
    (hc : (e.copied.toNat + 1) % 4 ≠ 0) :
    e.afterCopy =
      { e with
        byte := e.byte + 1, copied := e.copied + 1
        foundFirst := e.foundFirst || e.sprite = 0 } := by
  unfold Evaluation.afterCopy
  rw [if_pos hin]
  exact if_neg (mt (copied_and_three e.copied).mp hc)

/-- The fourth is followed by the next sprite. -/
theorem afterCopy_last {e : Evaluation} (hin : e.inRange = true)
    (hc : (e.copied.toNat + 1) % 4 = 0) :
    e.afterCopy =
      { e with
        inRange := false, byte := 0, copied := e.copied + 1
        foundFirst := e.foundFirst || e.sprite = 0 }.nextSpriteOrEnd := by
  unfold Evaluation.afterCopy
  rw [if_pos hin]
  exact if_pos ((copied_and_three e.copied).mpr hc)

/-- A sprite beside the row is left after its first byte. -/
theorem afterCopy_off {e : Evaluation} (hin : e.inRange = false) :
    e.afterCopy = e.nextSpriteOrEnd := by
  unfold Evaluation.afterCopy
  rw [if_neg (by rw [hin]; decide)]

/-- What is stored after a step of the scan: one byte more. -/
theorem Scanning.stored_next (h : Scanning p s b) (hc : p.evaluation.copied.toNat < 32) (m : Nat)
    (hm : m < 32) (hlt : m < 4 * (p.lying s).length + b + 1) :
    (p.secondaryOam.set p.evaluation.copied.toNat (spriteByte p.oam s b) hc)[m] =
      spriteByte p.oam ((p.lying s ++ [s]).getD (m / 4) 0) (m % 4) := by
  have hb := h.byte_lt
  have hcop := h.copied
  by_cases he : p.evaluation.copied.toNat = m
  · have h4 : m / 4 = (p.lying s).length := by omega
    have hmod : m % 4 = b := by omega
    rw [Vector.getElem_set, if_pos he, h4, hmod, List.getD_eq_getElem?_getD,
      List.getElem?_append_right (Nat.le_refl _), Nat.sub_self]
    rfl
  · rw [Vector.getElem_set, if_neg he]
    exact h.stored m hm (by omega)

/-- The search stands at its byte of its sprite. -/
theorem oamAddr_toNat {e : Evaluation} (hs : e.sprite = .ofNat s) (hb : e.byte = .ofNat b) (h64 : s < 64)
    (h4 : b < 4) : e.oamAddr.toNat = 4 * s + b := by
  unfold Evaluation.oamAddr
  rw [hs, hb, UInt8.toNat_or, UInt8.toNat_and, UInt8.toNat_shiftLeft, UInt8.toNat_ofNat',
    UInt8.toNat_ofNat', Nat.shiftLeft_eq]
  show (b % 256 &&& 2 ^ 2 - 1) ||| s % 256 * 2 ^ 2 % 256 = _
  rw [Nat.and_two_pow_sub_one_eq_mod, Nat.mod_eq_of_lt (by omega : s % 256 * 2 ^ 2 < 256),
    or_mul_two_pow _ (Nat.mod_lt _ (by decide))]
  omega

theorem getD_append {l : List Nat} {s i : Nat} (hi : i < l.length) :
    (l ++ [s]).getD i 0 = l.getD i 0 := by
  rw [List.getD_eq_getElem?_getD, List.getElem?_append_left hi, List.getD_eq_getElem?_getD]

theorem getD_mem {l : List Nat} {i : Nat} (hi : i < l.length) : l.getD i 0 ∈ l := by
  rw [List.getD_eq_getElem?_getD, List.getElem?_eq_getElem hi]
  exact List.getElem_mem hi

/-- Between two sprites a scan is described by what is copied. -/
theorem Scanning.ofCopied (hs : s < 64) (hsprite : p.evaluation.sprite = .ofNat s)
    (hbyte : p.evaluation.byte = 0) (haddr : p.oamAddr = p.evaluation.oamAddr)
    (hfin : p.evaluation.finished = false) (hin : p.evaluation.inRange = false)
    (hroom : (p.lying s).length < 8) (hc : Copied p (p.lying s)) : Scanning p s 0 := by
  refine ⟨hs, by decide, hsprite, hbyte, ?_, hfin, hin, fun z => absurd rfl z, hroom, hc.copied, ?_, ?_⟩
  · rw [haddr, oamAddr_toNat hsprite hbyte hs (by decide)]
  · rw [hc.foundFirst]
    simp
  · intro m hm hlt
    rw [hc.stored m hm hlt, getD_append (by omega)]

/-- The search that still scans has room for a byte in the secondary memory. -/
theorem Scanning.copied_lt (h : Scanning p s b) : p.evaluation.copied.toNat < 32 := by
  have := h.copied
  have := h.room
  have := h.byte_lt
  omega

/-- Past a sprite that is dealt with the scan goes on, unless there are eight or none is left. -/
theorem Copied.onward {e : Evaluation} (hs : s < 64) (he : q.evaluation = e.nextSpriteOrEnd)
    (hsprite : e.sprite = .ofNat s) (hbyte : e.byte = 0) (hfin : e.finished = false)
    (hin : e.inRange = false) (haddr : q.oamAddr = q.evaluation.oamAddr)
    (hroom : (q.lying (s + 1)).length ≤ 8) (hc : Copied q (q.lying (s + 1))) :
    Searched q ∨ Scanning q (s + 1) 0 := by
  by_cases h8 : (q.lying (s + 1)).length = 8
  · have hcopied : q.evaluation.copied = 32 := by
      rw [← UInt8.toNat_inj, hc.copied, h8]
      rfl
    refine .inl ⟨.inr hcopied, ?_⟩
    rw [chosen, chosen_of_eight _ _ _ hs h8]
    exact hc
  · by_cases hlast : s = 63
    · -- no sprite is left, and there were no more than eight
      subst hlast
      rw [nextSpriteOrEnd_last hsprite] at he
      refine .inl ⟨.inl (by rw [he]), ?_⟩
      rw [chosen, chosen_of_all _ _ _ hroom]
      exact hc
    · rw [nextSpriteOrEnd_of_lt hsprite (by omega)] at he
      refine .inr (.ofCopied (by omega) (by rw [he]) ?_ haddr ?_ ?_ (by omega) hc)
      · rw [he]
        exact hbyte
      · rw [he]
        exact hfin
      · rw [he]
        exact hin

theorem nextSpriteOrEnd_copied (e : Evaluation) : e.nextSpriteOrEnd.copied = e.copied := by
  unfold Evaluation.nextSpriteOrEnd
  dsimp only
  split <;> rfl

theorem nextSpriteOrEnd_foundFirst (e : Evaluation) : e.nextSpriteOrEnd.foundFirst = e.foundFirst := by
  unfold Evaluation.nextSpriteOrEnd
  dsimp only
  split <;> rfl

/-- Copying a byte of sprite `s` shows whether it is the first of all. -/
theorem Scanning.found_next (h : Scanning p s b) :
    (p.evaluation.foundFirst || p.evaluation.sprite = 0) = true ↔ 0 ∈ p.lying s ∨ s = 0 := by
  have hzero : p.evaluation.sprite = 0 ↔ s = 0 := by
    have := h.sprite_lt
    rw [h.sprite, ← UInt8.toNat_inj, UInt8.toNat_ofNat']
    show s % 256 = 0 ↔ _
    omega
  rw [Bool.or_eq_true, decide_eq_true_eq, hzero, h.foundFirst]
  constructor
  · rintro ((hl | hl) | hl)
    · exact .inl hl
    · exact .inr hl.1
    · exact .inr hl
  · rintro (hl | hl)
    · exact .inl (.inl hl)
    · exact .inr hl

/-- The next byte goes behind those of the sprites before and those of this one. -/
theorem Scanning.copied_add_one (h : Scanning p s b) :
    (p.evaluation.copied + 1).toNat = 4 * (p.lying s).length + b + 1 := by
  have hlt := h.copied_lt
  have hcopied := h.copied
  rw [UInt8.toNat_add]
  show (_ + 1) % 256 = _
  omega

/-- `q` is `p` once it has dealt with the byte of sprite `s` that was to be looked at, the last of `n`
    bytes stored so far. -/
structure Stepped (p q : Picture) (s n : Nat) : Prop where
  lying : q.lying = p.lying
  lies : liesOn q.oam q.row.toNat q.control.spriteHeight.toNat s =
    liesOn p.oam p.row.toNat p.control.spriteHeight.toNat s
  evaluation : q.evaluation =
    { p.evaluation with
      inRange := liesOn p.oam p.row.toNat p.control.spriteHeight.toNat s }.afterCopy
  oamAddr : q.oamAddr = q.evaluation.oamAddr
  stored : ∀ m (hm : m < 32), m < n →
    q.secondaryOam[m] = spriteByte q.oam ((p.lying s ++ [s]).getD (m / 4) 0) (m % 4)

/-- A look at a byte leads to the next byte, or on to the next sprite. -/
theorem Scanning.stepped (h : Scanning p s b) (hbuf : p.evaluation.buffer = spriteByte p.oam s b)
    (hq : q.search = p.evaluateByte.search.address) (hrow : q.row = p.row)
    (hctl : q.control = p.control) : Stepped p q s (4 * (p.lying s).length + b + 1) := by
  have hc := h.copied_lt
  rw [h.evaluateByte hbuf hc] at hq
  have hoam : q.oam = p.oam := congrArg Search.oam hq
  have hsec : q.secondaryOam = p.secondaryOam.set _ (spriteByte p.oam s b) hc :=
    congrArg Search.secondaryOam hq
  have heval := congrArg Search.evaluation hq
  refine ⟨lying_congr hoam hrow hctl, by rw [hoam, hrow, hctl], heval, ?_, ?_⟩
  · exact (congrArg Search.oamAddr hq).trans (congrArg Evaluation.oamAddr heval.symm)
  · intro m hm hlt
    simp only [hsec, hoam]
    exact h.stored_next hc m hm hlt

/-- What a step of the scan leads to: the end, or one byte on. -/
def StepEnds (p q : Picture) (s b : Nat) : Prop :=
  Searched q ∨ ∃ s' b', Scanning q s' b' ∧
    s' + 3 * (q.lying s').length + b' = s + 3 * (p.lying s).length + b + 1

/-- A sprite off the row: the byte of it that was stored is not counted, and is written over later. -/
theorem Scanning.next_off (h : Scanning p s b) (hq : Stepped p q s (4 * (p.lying s).length + b + 1))
    (hl : liesOn p.oam p.row.toNat p.control.spriteHeight.toNat s = false) : StepEnds p q s b := by
  -- past its top, a sprite that is looked at lies on the row
  obtain rfl : b = 0 := Decidable.byContradiction fun hb => by
    rw [h.lies hb] at hl
    cases hl
  have hroom := h.room
  have hsucc : q.lying (s + 1) = p.lying s := by
    rw [hq.lying]
    exact lyingOn_succ_of_not _ _ _ hl
  have heval := hq.evaluation
  rw [hl, afterCopy_off rfl] at heval
  have hdone : Copied q (q.lying (s + 1)) := by
    refine ⟨?_, ?_, ?_⟩
    · rw [heval, nextSpriteOrEnd_copied, hsucc]
      exact h.copied
    · rw [heval, nextSpriteOrEnd_foundFirst, hsucc]
      exact h.foundFirst.trans (by simp)
    · intro m hm hlt
      rw [hsucc] at hlt ⊢
      rw [hq.stored m hm (by omega), getD_append (by omega)]
  have honward := hdone.onward h.sprite_lt heval h.sprite h.byte h.finished rfl hq.oamAddr
    (by rw [hsucc]; omega)
  refine honward.imp_right fun hn => ⟨s + 1, 0, hn, ?_⟩
  rw [hsucc]
  omega

/-- The fourth byte of a sprite on the row: the sprite is copied. -/
theorem Scanning.next_fourth (h : Scanning p s 3)
    (hq : Stepped p q s (4 * (p.lying s).length + 3 + 1))
    (hl : liesOn p.oam p.row.toNat p.control.spriteHeight.toNat s = true) : StepEnds p q s 3 := by
  have hroom := h.room
  have hcopied := h.copied
  have hsucc : q.lying (s + 1) = p.lying s ++ [s] := by
    rw [hq.lying]
    exact lyingOn_succ_of_lies _ _ _ hl
  have hlen : (q.lying (s + 1)).length = (p.lying s).length + 1 := by
    rw [hsucc, List.length_append, List.length_singleton]
  have heval := hq.evaluation
  rw [hl, afterCopy_last rfl (by show (p.evaluation.copied.toNat + 1) % 4 = 0; omega)] at heval
  have hdone : Copied q (q.lying (s + 1)) := by
    refine ⟨?_, ?_, ?_⟩
    · rw [heval, nextSpriteOrEnd_copied, hlen]
      exact h.copied_add_one
    · rw [heval, nextSpriteOrEnd_foundFirst, hsucc]
      exact h.found_next.trans (by simp [eq_comm])
    · intro m hm hlt
      rw [hq.stored m hm (by omega), hsucc]
  have honward := hdone.onward h.sprite_lt heval h.sprite rfl h.finished rfl hq.oamAddr (by omega)
  refine honward.imp_right fun hn => ⟨s + 1, 0, hn, ?_⟩
  rw [hlen]
  omega

/-- One of the first three bytes of a sprite on the row. -/
theorem Scanning.next_within (h : Scanning p s b)
    (hq : Stepped p q s (4 * (p.lying s).length + b + 1)) (hb : b < 3)
    (hl : liesOn p.oam p.row.toNat p.control.spriteHeight.toNat s = true) : StepEnds p q s b := by
  have hcopied := h.copied
  have heval := hq.evaluation
  rw [hl, afterCopy_within rfl (by show (p.evaluation.copied.toNat + 1) % 4 ≠ 0; omega)] at heval
  have hsprite : q.evaluation.sprite = .ofNat s := by
    rw [heval]
    exact h.sprite
  have hbyte : q.evaluation.byte = .ofNat (b + 1) := by
    rw [heval, UInt8.ofNat_add, ← h.byte]
    rfl
  refine .inr ⟨s, b + 1, ?_, by rw [hq.lying]; omega⟩
  refine ⟨h.sprite_lt, by omega, hsprite, hbyte, ?_, ?_, ?_, fun _ => hq.lies.trans hl, ?_, ?_, ?_,
    ?_⟩
  · rw [hq.oamAddr, oamAddr_toNat hsprite hbyte h.sprite_lt (by omega)]
  · rw [heval]
    exact h.finished
  · rw [heval, decide_eq_true (Nat.succ_ne_zero b)]
  · rw [hq.lying]
    exact h.room
  · rw [heval, hq.lying]
    exact h.copied_add_one
  · rw [heval, hq.lying]
    exact h.found_next.trans (by simp)
  · intro m hm hlt
    rw [hq.lying] at hlt ⊢
    exact hq.stored m hm (by omega)

/-- A step of the scan: one byte on, or the end. -/
theorem Scanning.next (h : Scanning p s b) (hbuf : p.evaluation.buffer = spriteByte p.oam s b)
    (hq : q.search = p.evaluateByte.search.address) (hrow : q.row = p.row)
    (hctl : q.control = p.control) : StepEnds p q s b := by
  have hstep := h.stepped hbuf hq hrow hctl
  have hb := h.byte_lt
  cases hl : liesOn p.oam p.row.toNat p.control.spriteHeight.toNat s with
  | false => exact h.next_off hstep hl
  | true =>
    by_cases h3 : b = 3
    · subst h3
      exact h.next_fourth hstep hl
    · exact h.next_within hstep (by omega) hl

/-- The search for a ninth sprite leaves what was found alone. -/
theorem afterFull_kept (e : Evaluation) :
    e.afterFull.copied = e.copied ∧ e.afterFull.foundFirst = e.foundFirst := by
  unfold Evaluation.afterFull
  dsimp only [Evaluation.nextSprite]
  split
  · generalize hn : (if e.byte + 1 = 4 then _ else _ : Evaluation) = e'
    have hkept : e'.copied = e.copied ∧ e'.foundFirst = e.foundFirst := by
      rw [← hn]
      split <;> exact ⟨rfl, rfl⟩
    split
    · exact hkept
    · split <;> exact hkept
  · exact ⟨nextSpriteOrEnd_copied _, nextSpriteOrEnd_foundFirst _⟩

/-- Once the sprites are found, looking at a byte stores nothing and counts nothing. -/
theorem Searched.evaluateByte (h : Searched p) :
    p.evaluateByte.oam = p.oam ∧ p.evaluateByte.sprites = p.sprites ∧
      p.evaluateByte.secondaryOam = p.secondaryOam ∧
      p.evaluateByte.evaluation.copied = p.evaluation.copied ∧
      p.evaluateByte.evaluation.foundFirst = p.evaluation.foundFirst ∧
      (p.evaluation.finished = true → p.evaluateByte.evaluation.finished = true) := by
  unfold Picture.evaluateByte
  dsimp only
  by_cases hfin : p.evaluation.finished = true
  · rw [if_pos hfin]
    exact ⟨rfl, rfl, rfl, rfl, rfl, fun _ => hfin⟩
  · have hfull : ¬ p.evaluation.copied.toNat < 32 := by
      rw [h.through.resolve_left hfin]
      decide
    rw [if_neg hfin, dif_neg hfull]
    exact ⟨rfl, rfl, rfl, (afterFull_kept _).1, (afterFull_kept _).2, fun z => absurd z hfin⟩

/-- Once the sprites are found, a step of the search leaves them. -/
theorem Searched.next (h : Searched p) (hq : q.search = p.evaluateByte.search.address)
    (hrow : q.row = p.row) (hctl : q.control = p.control) :
    Searched q ∧ q.oam = p.oam ∧ q.sprites = p.sprites := by
  obtain ⟨hoam, hsprites, hsec, hcopied, hfound, hfin⟩ := h.evaluateByte
  have hoam : q.oam = p.oam := (congrArg Search.oam hq).trans hoam
  have hsec : q.secondaryOam = p.secondaryOam := (congrArg Search.secondaryOam hq).trans hsec
  have heval : q.evaluation = p.evaluateByte.evaluation := congrArg Search.evaluation hq
  have hchosen : q.chosen = p.chosen := chosen_congr hoam hrow hctl
  refine ⟨⟨?_, ?_, ?_, ?_⟩, hoam, (congrArg Search.sprites hq).trans hsprites⟩
  · rw [heval, hcopied]
    exact h.through.imp_left hfin
  · rw [heval, hcopied, hchosen]
    exact h.copied.copied
  · rw [heval, hfound, hchosen]
    exact h.copied.foundFirst
  · rw [hchosen]
    simp only [hsec, hoam]
    exact h.copied.stored

/-! ## The whole search -/

/-- Reading a byte changes nothing but the buffer. -/
theorem Scanning.read (h : Scanning p s b) {buffer : UInt8}
    (hq : q.search = { p.search with evaluation := { p.evaluation with buffer } })
    (hrow : q.row = p.row) (hctl : q.control = p.control) : Scanning q s b := by
  cases p
  cases q
  cases hq; cases hrow; cases hctl
  exact ⟨h.sprite_lt, h.byte_lt, h.sprite, h.byte, h.oamAddr, h.finished, h.inRange, h.lies, h.room,
    h.copied, h.foundFirst, h.stored⟩

/-- Once the search is through, reading more changes nothing of its result. -/
theorem Searched.read (h : Searched p) {buffer : UInt8}
    (hq : q.search = { p.search with evaluation := { p.evaluation with buffer } })
    (hrow : q.row = p.row) (hctl : q.control = p.control) : Searched q := by
  cases p
  cases q
  cases hq; cases hrow; cases hctl
  exact ⟨h.through, h.copied.copied, h.copied.foundFirst, h.copied.stored⟩

/-- After `k` steps the search is through, or it has read the byte to be looked at next. -/
def Looking (p : Picture) (k : Nat) : Prop :=
  Searched p ∨ ∃ s b, Scanning p s b ∧ p.evaluation.buffer = spriteByte p.oam s b ∧
    s + 3 * (p.lying s).length + b = k

/-- The byte at the address of the search. -/
theorem readOam_eq {addr : UInt8} (h : addr.toNat = 4 * s + b) :
    p.readOam addr = spriteByte p.oam s b := by
  have hlt := addr.toNat_lt
  have hmod : (4 * s + b) % 256 = addr.toNat := by omega
  unfold readOam spriteByte
  simp only [hmod]

/-- The search starts with the first byte if that is where the address stands. -/
theorem scanning_start (h : Drawing p 64) (hv : p.onPrerender = false) (c : γ)
    (h0 : (p.tick c).2.1.oamAddr = 0) :
    Scanning (p.tick c).2.1 0 0 ∧
      (p.tick c).2.1.evaluation.buffer = spriteByte (p.tick c).2.1.oam 0 0 := by
  have hq := search_start h hv c
  have hoam : (p.tick c).2.1.oam = p.oam := congrArg Search.oam hq
  have haddr : (p.tick c).2.1.oamAddr = p.oamAddr := congrArg Search.oamAddr hq
  have heval : (p.tick c).2.1.evaluation =
      { p.evaluation.start 0 with buffer := p.readOam 0 } := by
    rw [← h0, haddr]
    exact congrArg Search.evaluation hq
  constructor
  · refine .ofCopied (by decide) (by rw [heval]; rfl) (by rw [heval]; rfl) ?_ (by rw [heval]; rfl)
      (by rw [heval]; rfl) (Nat.zero_lt_succ 7) ⟨by rw [heval]; rfl, ?_, fun m _ hlt => absurd hlt ?_⟩
    · rw [h0, heval]
      exact (UInt8.toNat_inj.mp (oamAddr_toNat (s := 0) (b := 0) rfl rfl (by decide) (by decide))).symm
    · rw [heval]
      simp [Evaluation.start, lying, lyingOn]
    · exact Nat.not_lt_zero m
  · rw [heval, hoam]
    exact readOam_eq rfl

/-- A step of the search is two dots: one looks at a byte, one reads the next. -/
theorem Looking.next {k : Nat} (h : Looking p k) (hk : k < 95) (hd : Drawing p (65 + 2 * k))
    (hv : p.onPrerender = false) : Looking (p.after cart 2) (k + 1) := by
  have hbound := Drawing.le_rowDots p
  have hr := hd.sameRow_next (by omega) (cart 0)
  have hd' := hd.next (by omega) (cart 0)
  have hq := search_look hd (by omega) (by omega) (by omega) hv (cart 0)
  rw [after_succ, after_succ]
  show Looking (((p.tick (cart 0)).2.1).tick (cart 1)).2.1 (k + 1)
  generalize (p.tick (cart 0)).2.1 = q at hr hd' hq
  have hbound' := Drawing.le_rowDots q
  have hr' := hd'.sameRow_next (by omega) (cart 1)
  have hread := search_read hd' (by omega) (by omega) (by omega) (hr.onPrerender.trans hv) (cart 1)
  -- the first dot looks at the byte that was read, the second reads where the address now stands
  rcases h with h | ⟨s, b, h, hbuf, hcount⟩
  · exact .inl ((h.next hq hr.row hr.control).1.read hread hr'.row hr'.control)
  · rcases h.next hbuf hq hr.row hr.control with h | ⟨s', b', h, hstep⟩
    · exact .inl (h.read hread hr'.row hr'.control)
    · have hscan := h.read hread hr'.row hr'.control
      have hoam : (q.tick (cart 1)).2.1.oam = q.oam := congrArg Search.oam hread
      refine .inr ⟨s', b', hscan, ?_, ?_⟩
      · rw [show (q.tick (cart 1)).2.1.evaluation.buffer = q.readOam q.oamAddr from
          congrArg (·.evaluation.buffer) hread, hoam]
        exact readOam_eq h.oamAddr
      · rw [lying_congr hoam hr'.row hr'.control, hstep]
        omega

/-- After 95 steps it is through. -/
theorem Looking.done (h : Looking p 95) : Searched p := by
  rcases h with h | ⟨s, b, h, -, hcount⟩
  · exact h
  · -- at most 63 sprites passed, seven of them copied, and three bytes: no more than 87 steps
    have := h.sprite_lt
    have := h.byte_lt
    have := h.room
    omega

theorem evaluateByte_kept (p : Picture) :
    p.evaluateByte.oam = p.oam ∧ p.evaluateByte.sprites = p.sprites := by
  unfold Picture.evaluateByte
  dsimp only
  split
  · exact ⟨rfl, rfl⟩
  · split <;> exact ⟨rfl, rfl⟩

theorem stepSearch_kept (p : Picture) :
    p.stepSearch.oam = p.oam ∧ p.stepSearch.sprites = p.sprites := by
  unfold Picture.stepSearch
  split
  · exact ⟨rfl, rfl⟩
  · exact evaluateByte_kept p

/-- Of the sprites that are shown, the search touches nothing before its last dot. -/
theorem search_kept (h : Drawing p d) (hd : d < 255) (hv : p.onPrerender = false) (c : γ) :
    (p.tick c).2.1.oam = p.oam ∧ (p.tick c).2.1.sprites = p.sprites := by
  have hq := search_next h (by omega) hv c
  suffices hkept : (p.onDot (d + 1)).evaluateSprites.oam = p.oam ∧
      (p.onDot (d + 1)).evaluateSprites.sprites = p.sprites from
    ⟨(congrArg Search.oam hq).trans hkept.1, (congrArg Search.sprites hq).trans hkept.2⟩
  rw [onDot_evaluateSprites p (by omega)]
  split
  · exact ⟨rfl, rfl⟩
  · by_cases h65 : d + 1 = 65
    · rw [h65]
      exact stepSearch_kept _
    · rw [onDot_boundSearch p (by omega) h65 (by omega)]
      exact stepSearch_kept _

/-- The search neither writes sprite memory nor disturbs the sprites in flight. -/
theorem seen_kept (h : Drawing p 0) (hv : p.onPrerender = false) (cart : Nat → γ) (n : Nat)
    (hn : n ≤ 255) :
    (p.after cart n).oam = p.oam ∧ (p.after cart n).sprites = p.sprites := by
  have hbound := Drawing.le_rowDots p
  induction n with
  | zero => exact ⟨rfl, rfl⟩
  | succ n ih =>
    obtain ⟨hd, hr⟩ := h.along cart n (by omega)
    obtain ⟨hoam, hsprites⟩ := ih (by omega)
    have hk := search_kept hd hn (hr.onPrerender.trans hv) (cart n)
    exact ⟨hk.1.trans hoam, hk.2.trans hsprites⟩

/-- Up to the search the address stands still, and nothing is reported. -/
theorem seen_before (h : Drawing p 0) (hv : p.onPrerender = false) (cart : Nat → γ) (n : Nat)
    (hn : n ≤ 65) :
    (p.after cart n).oamAddr = p.oamAddr ∧ (p.after cart n).overflow = p.overflow := by
  have hbound := Drawing.le_rowDots p
  induction n with
  | zero => exact ⟨rfl, rfl⟩
  | succ n ih =>
    obtain ⟨hd, hr⟩ := h.along cart n (by omega)
    have hs := search_next hd (by omega) (hr.onPrerender.trans hv) (cart n)
    rw [onDot_evaluateSprites _ (by omega)] at hs
    rw [after_succ, ← (ih (by omega)).1, ← (ih (by omega)).2]
    by_cases h65 : n + 1 = 65
    · rw [if_neg (by omega), h65, stepSearch_odd (n := 65) (by decide) rfl (by decide)] at hs
      exact ⟨congrArg Search.oamAddr hs, congrArg Search.overflow hs⟩
    · rw [if_pos (by omega)] at hs
      exact ⟨congrArg Search.oamAddr hs, congrArg Search.overflow hs⟩

/-- The sprites that `q` has found for the next row are those of the row of `p`. -/
structure Found (p q : Picture) : Prop where
  count : q.sprites.count.toNat = p.chosen.length
  hasFirst : q.sprites.hasFirst = true ↔ 0 ∈ p.chosen
  stored : ∀ m (hm : m < 32), m < 4 * p.chosen.length →
    q.secondaryOam[m] = spriteByte p.oam (p.chosen.getD (m / 4) 0) (m % 4)

/-- What was found depends on the sprites in flight and the secondary memory only. -/
theorem Found.congr {q' : Picture} (h : Found p q) (hc : q'.sprites.count = q.sprites.count)
    (hf : q'.sprites.hasFirst = q.sprites.hasFirst) (hsec : q'.secondaryOam = q.secondaryOam) :
    Found p q' := by
  refine ⟨?_, ?_, ?_⟩
  · rw [hc]
    exact h.count
  · rw [hf]
    exact h.hasFirst
  · intro m hm hlt
    simp only [hsec]
    exact h.stored m hm hlt

/-- No row shows more than eight sprites. -/
theorem chosen_length_le (p : Picture) : p.chosen.length ≤ 8 := by
  rw [chosen, Famicom.chosen, List.length_take]
  omega

/-- Starting at address zero, the search has looked at the first bytes of so many sprites after twice
    as many dots. -/
theorem search_looking (h : Drawing p 0) (hv : p.onPrerender = false)
    (h0 : (p.after cart 65).oamAddr = 0) (k : Nat) (hk : k ≤ 95) :
    Looking (p.after cart (65 + 2 * k)) k := by
  have hbound := Drawing.le_rowDots p
  induction k with
  | zero =>
    obtain ⟨hd, hr⟩ := h.along cart 64 (by omega)
    rw [after_succ _ _ 64] at h0
    rw [Nat.mul_zero, Nat.add_zero, after_succ _ _ 64]
    obtain ⟨hscan, hbuf⟩ := scanning_start hd (hr.onPrerender.trans hv) (cart 64) h0
    exact .inr ⟨0, 0, hscan, hbuf, rfl⟩
  | succ k ih =>
    obtain ⟨hd, hr⟩ := h.along cart (65 + 2 * k) (by omega)
    rw [show 65 + 2 * (k + 1) = 65 + 2 * k + 2 by omega, after_add]
    exact (ih (by omega)).next hk hd (hr.onPrerender.trans hv)

/-- The last dot of the search takes what was found. -/
theorem Searched.found (h : Searched p) (hd : Drawing p 255) (hv : p.onPrerender = false) (c : γ) :
    Found p (p.tick c).2.1 ∧ (p.tick c).2.1.oam = p.oam := by
  have hbound := Drawing.le_rowDots p
  have hr := hd.sameRow_next (by omega) c
  have htook : Searched p.tookSearch :=
    ⟨h.through, h.copied.copied, h.copied.foundFirst, h.copied.stored⟩
  obtain ⟨hq, hoam, hsprites⟩ := htook.next (search_end hd hv c) hr.row hr.control
  have hoam : (p.tick c).2.1.oam = p.oam := hoam
  have hchosen : (p.tick c).2.1.chosen = p.chosen := chosen_congr hoam hr.row hr.control
  refine ⟨⟨?_, ?_, ?_⟩, hoam⟩
  · rw [hsprites]
    show (p.evaluation.copied >>> (2 : UInt8)).toNat = _
    rw [UInt8.toNat_shiftRight, h.copied.copied, Nat.shiftRight_eq_div_pow]
    show 4 * _ / 2 ^ 2 = _
    omega
  · rw [hsprites]
    exact h.copied.foundFirst
  · intro m hm hlt
    rw [← hchosen] at hlt ⊢
    rw [hq.copied.stored m hm hlt, hoam]

/-- When the search is over, the sprites of the next row are found. -/
theorem search_found (h : Drawing p 0) (hv : p.onPrerender = false)
    (h0 : (p.after cart 65).oamAddr = 0) :
    Found p (p.after cart 256) ∧ (p.after cart 256).oam = p.oam := by
  have hbound := Drawing.le_rowDots p
  obtain ⟨hd, hr⟩ := h.along cart 255 (by omega)
  have hoam := (seen_kept h hv cart 255 (by decide)).1
  have hs : Searched (p.after cart 255) := (search_looking h hv h0 95 (by decide)).done
  have hchosen : (p.after cart 255).chosen = p.chosen := chosen_congr hoam hr.row hr.control
  obtain ⟨hfound, hkept⟩ := hs.found hd (hr.onPrerender.trans hv) (cart 255)
  rw [after_succ _ _ 255]
  refine ⟨⟨?_, ?_, ?_⟩, hkept.trans hoam⟩
  · rw [← hchosen]
    exact hfound.count
  · rw [← hchosen]
    exact hfound.hasFirst
  · rw [← hchosen, ← hoam]
    exact hfound.stored

end Picture

end Famicom
