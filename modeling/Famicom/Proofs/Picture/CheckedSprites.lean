/-
  The search for sprites and the fetching of them, with every check made.

  The rest of the parts of a dot, told as in the module before: with an answer only if no sum leaves
  its word, no index its memory and no address the picture bus.

  1. **The search** (`evaluateByte_eq`, `stepSearch_eq`, `evaluateSprites_eq`): what keeps it going is
     `Evaluation.Bounded`.  The sprite it looks at is one of 64, and it copies into the room there is.
     Where the room is full it goes on without copying (`afterFull_eq`), and there the byte within the
     sprite has to be one of four again.
  2. **The sprites of a row** (`fetchSprite_eq`): a fetch needs a place for its tile, which it has
     while fewer than eight sprites are fetched.  The pattern is found at an address of the bus for
     every sprite (`spritePattern_eq`), also for one that does not lie on the row, as may happen on the
     row before the first.
-/
import Famicom.Proofs.Picture.Checked

namespace Famicom

namespace Checked

/-! ## The search -/

/-- On to the next sprite. -/
def nextSprite (e : Evaluation) : Option Evaluation := do
  let sprite ← add8 e.sprite 1
  return { e with sprite := sprite &&& 0x3F }

theorem nextSprite_eq {e : Evaluation} (h : e.sprite.toNat < 64) :
    nextSprite e = some e.nextSprite := by
  have hadd : add8 e.sprite 1 = some (e.sprite + 1) := need_eq (by show _ + 1 < 256; omega) _
  rw [nextSprite, hadd]
  rfl

/-- On to the next sprite, which ends the search after the last. -/
def nextSpriteOrEnd (e : Evaluation) : Option Evaluation := do
  let e ← nextSprite e
  return if e.sprite = 0 then { e with finished := true } else e

theorem nextSpriteOrEnd_eq {e : Evaluation} (h : e.sprite.toNat < 64) :
    nextSpriteOrEnd e = some e.nextSpriteOrEnd := by
  rw [nextSpriteOrEnd, nextSprite_eq h]
  rfl

/-- The step after a byte was copied. -/
def afterCopy (e : Evaluation) : Option Evaluation :=
  if e.inRange then do
    let copied ← add8 e.copied 1
    let e := { e with byte := e.byte + 1, copied, foundFirst := e.foundFirst || e.sprite = 0 }
    if e.copied &&& 0x03 = 0 then nextSpriteOrEnd { e with inRange := false, byte := 0 } else return e
  else nextSpriteOrEnd e

/-- A copy into the room there is goes on within it. -/
theorem afterCopy_eq {e : Evaluation} (h : e.sprite.toNat < 64) (hroom : e.copied.toNat < 32) :
    afterCopy e = some e.afterCopy := by
  have hadd : add8 e.copied 1 = some (e.copied + 1) := need_eq (by show _ + 1 < 256; omega) _
  unfold afterCopy Evaluation.afterCopy
  split
  · rw [hadd]
    show (if e.copied + 1 &&& 0x03 = 0 then _ else _) = some (if e.copied + 1 &&& 0x03 = 0 then _ else _)
    split
    · exact nextSpriteOrEnd_eq h
    · rfl
  · exact nextSpriteOrEnd_eq h

/-- The byte after the last of a sprite too many is the first of the next. -/
def wrapByte (e : Evaluation) : Option Evaluation :=
  if e.byte = 4 then do
    let e ← nextSprite e
    return { e with byte := 0 }
  else some e

theorem wrapByte_eq {e : Evaluation} (h : e.sprite.toNat < 64) :
    wrapByte e = some (if e.byte = 4 then { e.nextSprite with byte := 0 } else e) := by
  unfold wrapByte
  split
  · rw [nextSprite_eq h]
    rfl
  · rfl

/-- The step once there is no more room. -/
def afterFull (e : Evaluation) : Option Evaluation :=
  if e.inRange then do
    let e ← wrapByte { e with byte := e.byte + 1 }
    if e.skipping = 0 then return { e with skipping := 3 }
    else
      let skipping ← sub8 e.skipping 1
      return if skipping = 0 then { e with skipping := 0, finished := true, byte := 0 }
        else { e with skipping }
  else do
    let byte ← add8 e.byte 1
    nextSpriteOrEnd { e with byte := byte &&& 0x03 }

/-- Where one is left, none is left after it. -/
theorem sub_one_eq_zero (v : UInt8) : v - 1 = 0 ↔ v = 1 :=
  forall_byte (P := fun v => v - 1 = 0 ↔ v = 1) (by decide +kernel) v

/-- With the room full, the search goes on without copying. -/
theorem afterFull_eq {e : Evaluation} (h : e.Bounded) (hroom : e.copied.toNat = 32) :
    afterFull e = some e.afterFull := by
  have hbyte := h.full hroom
  have hadd : add8 e.byte 1 = some (e.byte + 1) := need_eq (by show _ + 1 < 256; omega) _
  unfold afterFull Evaluation.afterFull
  split
  · rw [wrapByte_eq (e := { e with byte := e.byte + 1 }) h.sprite]
    dsimp only
    generalize (if e.byte + 1 = 4 then _ else _ : Evaluation) = moved
    show (if moved.skipping = 0 then _ else _) = some (if moved.skipping = 0 then _ else _)
    split
    · rfl
    · next hskip =>
      have hpos : (1 : UInt8) ≤ moved.skipping :=
        Nat.pos_of_ne_zero fun hz => hskip (UInt8.toNat_inj.mp hz)
      have hsub : sub8 moved.skipping 1 = some (moved.skipping - 1) := need_eq hpos _
      rw [hsub]
      show some (if moved.skipping - 1 = 0 then _ else _) = some (if moved.skipping = 1 then _ else _)
      exact congrArg some
        (ite_congr (propext (sub_one_eq_zero moved.skipping)) (fun _ => rfl) fun _ => rfl)
  · rw [hadd]
    exact nextSpriteOrEnd_eq h.sprite

/-- The byte in the buffer puts a sprite on the row. -/
def bufferOnRow (p : Picture) : Option Bool := do
  let top := p.evaluation.buffer.toUInt16
  let bottom ← add16 top p.control.spriteHeight
  return top ≤ p.row && p.row < bottom

theorem bufferOnRow_eq (p : Picture) : bufferOnRow p = some p.bufferOnRow := by
  have hheight := Picture.spriteHeight_le p.control
  have htop := p.evaluation.buffer.toNat_lt
  have hsum : p.evaluation.buffer.toUInt16.toNat + p.control.spriteHeight.toNat < 2 ^ 16 := by
    rw [UInt8.toNat_toUInt16]
    omega
  have hadd : add16 p.evaluation.buffer.toUInt16 p.control.spriteHeight = some _ := need_eq hsum _
  rw [bufferOnRow, hadd]
  rfl

/-- A byte of the sprites found so far, at the place the search has got to. -/
def readFound (p : Picture) : Option UInt8 := cell p.secondaryOam (p.evaluation.copied &&& 0x1F).toNat

/-- The byte of the secondary memory at the count of copied bytes is one of its 32. -/
theorem readFound_eq (p : Picture) : readFound p = some (p.readSecondary p.evaluation.copied) :=
  cell_eq _ (Picture.secondaryIndex_lt _)

/-- What is read once every sprite has been looked at. -/
def readFinished (p : Picture) : Option UInt8 :=
  if p.evaluation.copied < 0x20 then some p.evaluation.buffer else readFound p

theorem readFinished_eq (p : Picture) :
    readFinished p = some (if p.evaluation.copied < 0x20 then p.evaluation.buffer
      else p.readSecondary p.evaluation.copied) := by
  unfold readFinished
  split
  · rfl
  · exact readFound_eq p

/-- An even dot of the search, up to the address. -/
def evaluateByte (p : Picture) : Option Picture :=
  let e := p.evaluation
  if e.finished then do
    let next ← nextSprite e
    let buffer ← readFinished p
    return { p with evaluation := { next with buffer } }
  else do
    let onRow ← bufferOnRow p
    let inRange := e.inRange || onRow
    if e.copied.toNat < 32 then
      let secondaryOam ← put p.secondaryOam e.copied.toNat e.buffer
      let evaluation ← afterCopy { e with inRange }
      return { p with secondaryOam, evaluation }
    else
      let buffer ← readFound p
      let evaluation ← afterFull { e with inRange, buffer }
      return { p with overflow := p.overflow || inRange, evaluation }

/-- Looking at a byte misses no place. -/
theorem evaluateByte_eq {p : Picture} (h : p.evaluation.Bounded) :
    evaluateByte p = some p.evaluateByte := by
  unfold evaluateByte Picture.evaluateByte
  dsimp only
  split
  · rw [nextSprite_eq h.sprite]
    show (readFinished p >>= _) = _
    rw [readFinished_eq]
    rfl
  · rw [bufferOnRow_eq]
    show (if _ then _ else _) = _
    split
    · next hroom =>
      have hcopy : afterCopy { p.evaluation with inRange := p.evaluation.inRange || p.bufferOnRow } =
          some _ := afterCopy_eq h.sprite hroom
      rw [put_eq _ hroom]
      show (afterCopy _ >>= _) = _
      rw [hcopy]
      rfl
    · next hfull =>
      have hlook : Evaluation.Bounded { p.evaluation with
          inRange := p.evaluation.inRange || p.bufferOnRow
          buffer := p.readSecondary p.evaluation.copied } := ⟨h.copied, h.sprite, h.full⟩
      rw [readFound_eq]
      show (afterFull _ >>= _) = _
      rw [afterFull_eq hlook (Nat.le_antisymm h.copied (Nat.le_of_not_lt hfull))]
      rfl

/-- Before the search its memory is cleared. -/
def clearSearch (p : Picture) : Option Picture := do
  let dot ← sub16 p.dot 1
  let secondaryOam ← put p.secondaryOam (dot >>> (1 : UInt16)).toNat 0xFF
  return { p with evaluation := { p.evaluation with buffer := 0xFF }, secondaryOam }

/-- On its 64 dots the search clears the 32 bytes of the secondary memory, each twice. -/
theorem clearSearch_eq {p : Picture} (h1 : 1 ≤ p.dot) (h65 : p.dot < 65) :
    clearSearch p = some p.clearSearch := by
  have hindex : ((p.dot - 1) >>> (1 : UInt16)).toNat < 32 := by
    have : p.dot.toNat < 65 := h65
    rw [UInt16.toNat_shiftRight, UInt16.toNat_sub_of_le _ _ h1, Nat.shiftRight_eq_div_pow]
    show (p.dot.toNat - 1) / 2 ^ 1 < 32
    omega
  rw [clearSearch, sub16_one h1]
  show (put p.secondaryOam ((p.dot - 1) >>> (1 : UInt16)).toNat 0xFF >>= _) = _
  rw [put_inBounds _ hindex]
  rfl

/-- The search reads a byte on odd dots and looks at it on even ones. -/
def stepSearch (p : Picture) : Option Picture :=
  if p.dot &&& 1 = 1 then do
    let buffer ← cell p.oam p.oamAddr.toNat
    return { p with evaluation := { p.evaluation with buffer } }
  else do
    let p ← evaluateByte p
    return { p with oamAddr := p.evaluation.oamAddr }

theorem stepSearch_eq {p : Picture} (h : p.evaluation.Bounded) :
    stepSearch p = some p.stepSearch := by
  unfold stepSearch Picture.stepSearch
  split
  · rw [cell_eq _ p.oamAddr.toNat_lt]
    rfl
  · rw [evaluateByte_eq h]
    rfl

/-- The search's part of a dot. -/
def evaluateSprites (p : Picture) : Option Picture :=
  if !p.rendering then some p else if p.dot < 65 then clearSearch p else stepSearch p.boundSearch

/-- A step of the search misses no place. -/
theorem evaluateSprites_eq {p : Picture} (h : p.Bounded) (h1 : 1 ≤ p.dot) :
    evaluateSprites p = some p.evaluateSprites := by
  rw [Picture.evaluateSprites_eq]
  unfold evaluateSprites
  split
  · rfl
  · split
    · next h65 => exact clearSearch_eq h1 h65
    · exact stepSearch_eq h.boundSearch.evaluation

/-! ## The sprites of a row -/

/-- Marks the columns under a sprite, of which none lies beyond the last. -/
def cover (covered : Vector Bool screenWidth) (x : UInt8) : Option (Vector Bool screenWidth) :=
  (List.range (min (x.toNat + 8) screenWidth - x.toNat)).foldlM
    (fun covered i => put covered (x.toNat + i) true) covered

/-- A tile covers columns of the picture only. -/
theorem cover_eq (covered : Vector Bool screenWidth) (x : UInt8) :
    cover covered x = some (SpriteLine.cover covered x) := by
  -- columns in range are marked, and the rest of the eight mark nothing
  have within (n : Nat) (hn : x.toNat + n ≤ screenWidth) :
      (List.range n).foldlM (fun covered i => put covered (x.toNat + i) true) covered =
        some ((List.range n).foldl (fun covered i => covered.setIfInBounds (x.toNat + i) true)
          covered) := by
    induction n with
    | zero => rfl
    | succ n ih =>
      rw [List.range_succ, List.foldlM_append, ih (by omega), List.foldl_append]
      show (put _ (x.toNat + n) true >>= _) = _
      rw [put_inBounds _ (by omega)]
      rfl
  have beyond (n m : Nat) (hn : screenWidth ≤ x.toNat + n) :
      (List.range (n + m)).foldl (fun covered i => covered.setIfInBounds (x.toNat + i) true) covered =
        (List.range n).foldl (fun covered i => covered.setIfInBounds (x.toNat + i) true) covered := by
    induction m with
    | zero => rfl
    | succ m ih =>
      rw [← Nat.add_assoc, List.range_succ, List.foldl_append, ih]
      refine Vector.ext fun j hj => ?_
      show (Vector.setIfInBounds _ (x.toNat + (n + m)) true)[j] = _
      rw [Vector.getElem_setIfInBounds, if_neg (by omega)]
  have hx : x.toNat < screenWidth := x.toNat_lt
  unfold cover SpriteLine.cover
  rw [within _ (by omega)]
  by_cases hroom : x.toNat + 8 ≤ screenWidth
  · rw [Nat.min_eq_left hroom, Nat.add_sub_cancel_left]
  · have hrest := beyond (screenWidth - x.toNat) (8 - (screenWidth - x.toNat)) (by omega)
    rw [Nat.add_sub_of_le (by omega)] at hrest
    rw [Nat.min_eq_right (by omega), hrest]

/-- Where the row of a sprite's pattern is found that is shown on the next row of the picture. -/
def spritePattern (p : Picture) (y tile attributes : UInt8) : Option UInt16 :=
  let row : UInt8 := if p.onPrerender then 0xFF else p.row.toUInt8
  let line := row - y
  let line := if attributes &&& 0x80 != 0 then p.control.spriteHeight.toUInt8 - 1 - line else line
  if p.control.largeSprites then
    let table := if tile &&& 0x01 != 0 then 0x1000 else 0
    let pattern := table ||| ((tile &&& ~~~0x01).toUInt16 <<< (4 : UInt16))
    if 8 ≤ line.toUInt16 then do
      let line ← add16 line.toUInt16 8
      add16 pattern line
    else add16 pattern line.toUInt16
  else
    let table := if p.control.highSprites then 0x1000 else 0
    add16 ((tile.toUInt16 <<< (4 : UInt16)) ||| table) line.toUInt16

/-- A tile in one of the two tables. -/
theorem pattern_lt (tile : UInt8) (high : Bool) :
    ((tile.toUInt16 <<< (4 : UInt16)) ||| (if high then 0x1000 else 0)).toNat < 0x2000 := by
  have htile := tile.toNat_lt
  have htable : (if high then (0x1000 : UInt16) else 0).toNat < 2 ^ 13 := by cases high <;> decide
  rw [UInt16.toNat_or, tileOffset_toNat]
  exact Nat.or_lt_two_pow (by omega) htable

/-- A line of a pattern lies a few bytes into it. -/
theorem add16_line {pattern line : UInt16} (hp : pattern.toNat < 0x2000) (hl : line.toNat < 0x200) :
    add16 pattern line = some (pattern + line) ∧ (pattern + line).toNat < 0x2200 := by
  constructor
  · exact need_eq (by omega) _
  · rw [UInt16.toNat_add]
    omega

/-- The pattern of a sprite is found at an address of the bus. -/
theorem spritePattern_eq (p : Picture) (y tile attributes : UInt8) :
    spritePattern p y tile attributes = some (p.spritePattern y tile attributes) ∧
      (p.spritePattern y tile attributes).toNat < 0x2200 := by
  unfold spritePattern Picture.spritePattern
  dsimp only
  generalize (if attributes &&& 0x80 != 0 then
    p.control.spriteHeight.toUInt8 - 1 - _ else _ : UInt8) = line
  have hline : line.toUInt16.toNat < 0x100 := by
    rw [UInt8.toNat_toUInt16]
    exact line.toNat_lt
  split
  · have hpattern := pattern_lt (tile &&& ~~~0x01) (tile &&& 0x01 != 0)
    rw [UInt16.or_comm] at hpattern
    split
    · have hnext : add16 line.toUInt16 8 = some (line.toUInt16 + 8) :=
        need_eq (by show _ + 8 < 65536; omega) _
      have hlt : (line.toUInt16 + 8).toNat < 0x200 := by
        rw [UInt16.toNat_add]
        show (_ + 8) % 65536 < _
        omega
      rw [hnext]
      exact add16_line hpattern hlt
    · exact add16_line hpattern (by omega)
  · exact add16_line (pattern_lt tile p.control.highSprites) (by omega)

theorem idlePattern_lt (p : Picture) : p.idlePattern.toNat < 0x2200 := by
  unfold Picture.idlePattern
  split
  · decide
  · split
    · decide
    · decide

/-- Where the next pattern is read, for a sprite or for want of one. -/
def patternFor (p : Picture) (shown : Bool) (y tile attributes : UInt8) : Option UInt16 :=
  if shown then spritePattern p y tile attributes else some p.idlePattern

theorem patternFor_eq (p : Picture) (shown : Bool) (y tile attributes : UInt8) :
    patternFor p shown y tile attributes =
        some (if shown then p.spritePattern y tile attributes else p.idlePattern) ∧
      (if shown then p.spritePattern y tile attributes else p.idlePattern).toNat < 0x2200 := by
  unfold patternFor
  split
  · exact spritePattern_eq p y tile attributes
  · exact ⟨rfl, idlePattern_lt p⟩

/-- Puts a sprite in its place. -/
def putSprite (l : SpriteLine) (tile : SpriteTile) : Option SpriteLine := do
  let tiles ← put l.tiles l.next.toNat tile
  let covered ← cover l.covered tile.x
  return { l with tiles, covered }

/-- A tile is put among the eight in flight. -/
theorem putSprite_eq (l : SpriteLine) (tile : SpriteTile) (h : l.next.toNat < 8) :
    putSprite l tile = some (l.put tile h) := by
  rw [putSprite, put_eq _ h]
  show (cover l.covered tile.x >>= _) = _
  rw [cover_eq]
  rfl

section

variable {γ : Type} [Cartridge γ]

/-- Fetches the pattern of the next sprite of the row. -/
def fetchSprite (p : Picture) (c : γ) : Option (Picture × γ) := do
  let base := p.sprites.next.toNat * 4
  let y ← cell p.secondaryOam base
  let tile ← cell p.secondaryOam (base + 1)
  let attributes ← cell p.secondaryOam (base + 2)
  let x ← cell p.secondaryOam (base + 3)
  let shown := p.sprites.next < p.sprites.count && y < 240
  let addr ← patternFor p shown y tile attributes
  let (low, c) ← readPattern c addr
  let next ← add16 addr 8
  let (high, c) ← readPattern c next
  if shown then
    let line ← putSprite p.sprites
      { x, low, high
        palette := ((attributes &&& 0x03) <<< (2 : UInt8)) ||| 0x10
        behind := attributes &&& 0x20 != 0
        flipped := attributes &&& 0x40 != 0 }
    return ({ p with sprites := { line with next := line.next + 1 } }, c)
  else return ({ p with sprites := { p.sprites with next := p.sprites.next + 1 } }, c)

/-- Of the sprites found, a byte of the next one. -/
theorem cell_next {p : Picture} (h : p.sprites.next.toNat < 8) {b : UInt8} (hb : b.toNat < 4) :
    cell p.secondaryOam (p.sprites.next.toNat * 4 + b.toNat) =
      some (p.readSecondary ((p.sprites.next <<< (2 : UInt8)) + b)) := by
  have hbase : (p.sprites.next <<< (2 : UInt8)).toNat = p.sprites.next.toNat * 4 := by
    rw [UInt8.toNat_shiftLeft, Nat.shiftLeft_eq]
    show p.sprites.next.toNat * 2 ^ 2 % 256 = _
    omega
  have hindex : (((p.sprites.next <<< (2 : UInt8)) + b) &&& 0x1F).toNat =
      p.sprites.next.toNat * 4 + b.toNat := by
    rw [UInt8.toNat_and, UInt8.toNat_add, hbase]
    show _ % 256 &&& 2 ^ 5 - 1 = _
    rw [Nat.and_two_pow_sub_one_eq_mod]
    omega
  rw [cell_eq _ (by omega)]
  simp only [Picture.readSecondary, hindex]

/-- With fewer than eight sprites fetched there is a place for the next. -/
theorem fetchSprite_eq {p : Picture} (h : p.sprites.next.toNat < 8) (c : γ) :
    (p.fetchSprite c).1 = .ok () ∧ fetchSprite p c = some (p.fetchSprite c).2 := by
  have h0 := cell_next h (b := 0) (by decide)
  have h1 : cell p.secondaryOam (p.sprites.next.toNat * 4 + 1) = _ := cell_next h (b := 1) (by decide)
  have h2 : cell p.secondaryOam (p.sprites.next.toNat * 4 + 2) = _ := cell_next h (b := 2) (by decide)
  have h3 : cell p.secondaryOam (p.sprites.next.toNat * 4 + 3) = _ := cell_next h (b := 3) (by decide)
  rw [UInt8.add_zero] at h0
  have h0 : cell p.secondaryOam (p.sprites.next.toNat * 4) = _ := h0
  unfold Picture.fetchSprite
  rw [dif_pos h]
  refine ⟨rfl, ?_⟩
  unfold fetchSprite
  dsimp only
  rw [h0]
  show (cell _ _ >>= _) = _
  rw [h1]
  show (cell _ _ >>= _) = _
  rw [h2]
  show (cell _ _ >>= _) = _
  rw [h3]
  generalize p.readSecondary (p.sprites.next <<< (2 : UInt8)) = y
  generalize p.readSecondary (p.sprites.next <<< (2 : UInt8) + 1) = tile
  generalize p.readSecondary (p.sprites.next <<< (2 : UInt8) + 2) = attributes
  generalize p.readSecondary (p.sprites.next <<< (2 : UInt8) + 3) = x
  generalize (decide (p.sprites.next < p.sprites.count) && decide (y < 240)) = shown
  obtain ⟨hpattern, hlt⟩ := patternFor_eq p shown y tile attributes
  generalize (if shown = true then p.spritePattern y tile attributes else p.idlePattern) = addr at *
  obtain ⟨hadd, hhigh⟩ := add16_eight (Nat.lt_trans hlt (by decide))
  have hlow : addr < 0x4000 := Nat.lt_trans hlt (by decide)
  show (patternFor p _ y tile attributes >>= _) = _
  rw [hpattern]
  show (readPattern c addr >>= _) = _
  rw [readPattern_eq c hlow]
  show (add16 addr 8 >>= _) = _
  rw [hadd]
  show (readPattern _ (addr + 8) >>= _) = _
  rw [readPattern_eq _ hhigh]
  show (if shown = true then _ else _) = _
  split
  · show (putSprite p.sprites _ >>= _) = _
    rw [putSprite_eq _ _ h]
    rfl
  · rfl

end

end Checked

end Famicom
