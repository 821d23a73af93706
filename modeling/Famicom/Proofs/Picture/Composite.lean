/-
  A row of the picture with its sprites.

  What a row shows is settled on the row above: there the sprites are chosen and fetched, and the place
  on the name tables is reached.  So the statement is about two rows of dots.

  1. **The picture of the row below** (`rowOffset`), column by column: of the chosen sprites the
     foremost one with a colour, unless it is behind a background that has one; and whether the first
     sprite and the background both have a colour (`firstMeets`).
  2. **The row below** (`Below`): what is true when it begins, given by the course of the row above
     (`Below.start`).  In each of its columns the unit finds that background (`behind`), those sprites
     (`found`), and so that colour (`drawnOffset`) and that meeting (`meetsFirst`).

  Main statement (`sprite_row`): this is what two rows of dots draw, and the first sprite is reported
  to meet the background where both of them have a colour.  It is tried on a board with a solid pattern
  (`sprite_row_solid`).
-/
import Famicom.Proofs.Picture.BackgroundFrame
import Famicom.Proofs.Picture.SpriteRow

namespace Famicom

namespace Picture

variable {γ : Type} [Cartridge γ] {memory : UInt16 → UInt8} {cart : Nat → γ} {p q : Picture}

/-! ## The picture of the row below -/

/-- The place on the name tables where the row below starts. -/
def below (p : Picture) : Spot :=
  { (Scroll.spot p.scroll.addr).down with column := (Scroll.spot p.scroll.start).column }

/-- The offset of the background's colour in a column of the row below, 0 where it is hidden. -/
def behindOffset (p : Picture) (memory : UInt16 → UInt8) (x : Nat) : Nat :=
  if p.mask.showsBackground (.ofNat x) then
    (p.below.right (p.scroll.fineX.toNat + x)).colorOffset memory p.patternBase
  else 0

/-- The offset of the colour that a column of the row below has. -/
def rowOffset (p : Picture) (memory : UInt16 → UInt8) (x : Nat) : Nat :=
  match if p.mask.showsSprites (.ofNat x) then p.foremost memory x else none with
  | none => p.behindOffset memory x
  | some i =>
    if spriteByte p.oam i 2 &&& 0x20 = 0 ∨ p.behindOffset memory x = 0 then p.spriteOffset memory i x
    else p.behindOffset memory x

/-- In a column of the row below the first sprite and the background both show a colour. -/
def firstMeets (p : Picture) (memory : UInt16 → UInt8) (x : Nat) : Prop :=
  p.mask.showsSprites (.ofNat x) = true ∧ p.spriteOpaque memory x 0 = true ∧
    p.behindOffset memory x ≠ 0

/-! ## The row below -/

/-- The unit `q` is about to draw the row below that of `p`. -/
structure Below (memory : UInt16 → UInt8) (p q : Picture) : Prop where
  settings : q.settings = p.settings
  drawing : Drawing q 0
  row : q.row.toNat = p.row.toNat + 1
  visible : q.row.toNat < 240
  shows : Shows memory p q.sprites
  primed : ∃ s, Primed memory q s ∧ Scroll.Fits s.addr ∧ Scroll.spot s.addr = p.below

theorem spot_below (s : Scroll) :
    Scroll.spot (s.columns 32).nextRow.restartRow.addr =
      { (Scroll.spot s.addr).down with column := (Scroll.spot s.start).column } := by
  rw [Scroll.spot_restartRow, Scroll.nextRow_start, Scroll.columns_start, Scroll.spot_nextRow,
    Scroll.spot_columns, Spot.right_down]
  rfl

/-- Every row that is seen leads to the one below. -/
theorem Below.start (hd : Drawing p 0) (hrow : p.row.toNat < 239) (hs : Scroll.Fits p.scroll.addr)
    (h0 : (p.after cart 65).oamAddr = 0) (ha : ∀ n, Answers memory (cart n))
    (hon : ∀ n, AnswersOn memory (cart n)) : Below memory p (p.after cart 341) := by
  have hv : p.onPrerender = false := Drawing.not_prerender (by omega)
  obtain ⟨hset, hnext, hdot⟩ := hd.next_row hv cart
  have hprimed := row_primed hd ha
  have hshows := row_shows hd hv (by omega) h0 ha hon
  rw [Drawing.rowDots_seen hv] at hprimed hshows
  rw [nextBase_visible hd hv ha] at hprimed
  generalize p.after cart 341 = q at hset hnext hdot hprimed hshows ⊢
  have hq : q.row.toNat = p.row.toNat + 1 := by
    rw [hnext, UInt16.toNat_add]
    show (_ + 1) % 65536 = _
    omega
  have hdraws : q.mask.draws = true := by
    rw [show q.mask = p.mask from congrArg PictureSettings.mask hset]
    exact hd.draws
  have hwarm : q.warmingUp = false := (congrArg PictureSettings.warmingUp hset).trans hd.warm
  refine ⟨hset, .of_seen hwarm hdraws (by omega) hdot, hq, by omega, hshows, _, hprimed, ?_,
    spot_below _⟩
  exact Scroll.restartRow_fits _ (Scroll.nextRow_fits _ (p.scroll.columns_fits hs 32))

/-- Drawing a pixel, the unit has the sprites with which the row began. -/
theorem painter_sprites (h : Drawing q 0) (hv : q.onPrerender = false)
    (ha : ∀ n, Answers memory (cart n)) {x : Nat} (hx : x < 256) :
    (q.painter cart x).sprites = q.sprites := by
  rw [painter, fetched_eq (by omega) (ha x)]
  exact (seen_kept h hv cart x (by omega)).2

namespace Below

variable {x : Nat}

theorem not_prerender (h : Below memory p q) : q.onPrerender = false :=
  Drawing.not_prerender (Nat.le_of_lt h.visible)

theorem mask (h : Below memory p q) : q.mask = p.mask := congrArg PictureSettings.mask h.settings

/-- The background's colour, where it is drawn. -/
theorem behind (h : Below memory p q) (hf : p.scroll.fineX.toNat < 8)
    (ha : ∀ n, Answers memory (cart n)) (hx : x < 256) :
    (if (q.painter cart x).mask.showsBackground (.ofNat x) then
      (q.painter cart x).background.color (q.painter cart x).scroll.fineX (.ofNat x) else 0).toNat =
      p.behindOffset memory x := by
  obtain ⟨s, hprimed, hs, hspot⟩ := h.primed
  have hr := (painter_sameRow h.drawing cart hx).1
  have hfine : q.scroll.fineX = p.scroll.fineX := congrArg PictureSettings.fineX h.settings
  have hbase : q.patternBase = p.patternBase := by
    rw [patternBase, show q.control = p.control from congrArg PictureSettings.control h.settings]
    rfl
  have hcolor := behind_eq h.drawing h.not_prerender hprimed hs (hfine ▸ hf) ha x hx
  rw [hspot, hbase, hfine] at hcolor
  unfold behindOffset
  rw [hr.mask, h.mask, hr.fineX, hfine]
  split
  · exact hcolor
  · rfl

/-- The sprite that is found, where it is drawn. -/
theorem found (h : Below memory p q) (ha : ∀ n, Answers memory (cart n)) (hx : x < 256) :
    (if (q.painter cart x).mask.showsSprites (.ofNat x) then
      (q.painter cart x).sprites.opaqueAt (.ofNat x) else none) =
      if p.mask.showsSprites (.ofNat x) then
        (p.placeFrom memory x 0).map (p.seenTile memory x)
      else none := by
  have hr := (painter_sameRow h.drawing cart hx).1
  rw [hr.mask, h.mask, painter_sprites h.drawing h.not_prerender ha hx, h.shows.opaqueAt,
    UInt8.toNat_ofNat_of_lt' hx]

/-- The colour that is drawn in a column. -/
theorem drawnOffset (h : Below memory p q) (hf : p.scroll.fineX.toNat < 8)
    (ha : ∀ n, Answers memory (cart n)) (hx : x < 256) :
    (q.painter cart x).drawnOffset = .ofNat (p.rowOffset memory x) := by
  have hbehind := h.behind hf ha hx
  have hfound := h.found ha hx
  have hdot := (painter_sameRow h.drawing cart hx).2
  unfold Picture.drawnOffset rowOffset
  dsimp only
  rw [hdot, column_eq, hfound, foremost_eq]
  generalize (if (q.painter cart x).mask.showsBackground (.ofNat x) then _ else _ : UInt8) = b at hbehind ⊢
  have hb : b = .ofNat (p.behindOffset memory x) := by rw [← hbehind, UInt8.ofNat_toNat]
  have hzero : b = 0 ↔ p.behindOffset memory x = 0 := by
    rw [← hbehind, ← UInt8.toNat_inj]
    rfl
  -- the unit asks for the place of the sprite among the chosen, the picture for the sprite
  by_cases hs : p.mask.showsSprites (.ofNat x) = true
  · rw [if_pos hs, if_pos hs]
    cases p.placeFrom memory x 0 with
    | none => exact hb
    | some j =>
      dsimp only [Option.map_some, seenTile, tileFor]
      simp only [hzero, Bool.or_eq_true, Bool.not_eq_true', bne_eq_false_iff_eq, decide_eq_true_eq]
      split
      · rfl
      · exact hb
  · rw [if_neg hs, if_neg hs]
    exact hb

/-- The first sprite is reported in the columns where it meets the background. -/
theorem meetsFirst (h : Below memory p q) (hf : p.scroll.fineX.toNat < 8)
    (ha : ∀ n, Answers memory (cart n)) (hx : x < 256) :
    (q.painter cart x).meetsFirst = true ↔ 0 ∈ p.chosen ∧ x ≠ 255 ∧ p.firstMeets memory x := by
  have hbehind := h.behind hf ha hx
  have hfound := h.found ha hx
  have hdot := (painter_sameRow h.drawing cart hx).2
  have hfirst := placeFrom_first p memory x
  have hlast : UInt8.ofNat x ≠ 255 ↔ x ≠ 255 := by
    rw [ne_eq, ← UInt8.toNat_inj, UInt8.toNat_ofNat_of_lt' hx]
    rfl
  unfold Picture.meetsFirst firstMeets
  dsimp only
  rw [hdot, column_eq, hfound]
  generalize (if (q.painter cart x).mask.showsBackground (.ofNat x) then _ else _ : UInt8) = b at hbehind ⊢
  have hzero : b ≠ 0 ↔ p.behindOffset memory x ≠ 0 := by
    rw [← hbehind, ne_eq, ← UInt8.toNat_inj]
    rfl
  by_cases hs : p.mask.showsSprites (.ofNat x) = true
  · rw [if_pos hs]
    cases hplace : p.placeFrom memory x 0 with
    | none =>
      rw [hplace] at hfirst
      exact ⟨fun z => absurd z Bool.false_ne_true,
        fun z => absurd (hfirst.mpr ⟨z.1, z.2.2.2.1⟩).1 (Option.some_ne_none 0).symm⟩
    | some j =>
      rw [hplace, Option.some_inj] at hfirst
      rw [painter_sprites h.drawing h.not_prerender ha hx]
      dsimp only [Option.map_some, seenTile]
      simp only [Bool.and_eq_true, decide_eq_true_eq, bne_iff_ne, h.shows.hasFirst, hzero, hlast]
      constructor
      · rintro ⟨⟨⟨hj, hb⟩, hmem⟩, hx⟩
        exact ⟨hmem, hx, hs, (hfirst.mp ⟨hj, hmem⟩).2, hb⟩
      · rintro ⟨hmem, hx, -, hseen, hb⟩
        exact ⟨⟨⟨(hfirst.mpr ⟨hmem, hseen⟩).1, hb⟩, hmem⟩, hx⟩
  · rw [if_neg hs]
    exact ⟨fun z => absurd z Bool.false_ne_true, fun z => absurd z.2.2.1 hs⟩

end Below

/-! ## Two rows of dots -/

/-- No dot of the two rows is a fault. -/
theorem rows_ok (hd : Drawing p 0) (hv : p.onPrerender = false) (hb : Below memory p (p.after cart 341))
    (n : Nat) (hn : n < 682) : ((p.after cart n).tick (cart n)).1 = .ok () := by
  by_cases h341 : n < 341
  · exact row_ok hd cart n (by rw [Drawing.rowDots_seen hv]; exact h341)
  · obtain ⟨m, rfl⟩ : ∃ m, n = 341 + m := ⟨n - 341, by omega⟩
    rw [after_add]
    exact row_ok hb.drawing (fun i => cart (341 + i)) m
      (by rw [Drawing.rowDots_seen hb.not_prerender]; omega)

/-- A row of the picture with its sprites.  From the start of a row that is seen, drawing goes on to the
    end of the row below without a fault; that row then shows the background and, in front of it or
    behind it, the first eight of the sprites that lie on it, and the first sprite of all is reported if
    it met the background. -/
theorem sprite_row (hp : Reachable γ p) (hm : p.mask.draws = true) (hrow : p.row.toNat < 239)
    (hdot : p.dot = 0) (cart : Nat → γ) (h0 : (p.after cart 65).oamAddr = 0) (memory : UInt16 → UInt8)
    (ha : ∀ n < 682, ∀ addr, (Cartridge.ppuRead (cart n) addr).1 = memory addr)
    (hon : ∀ n < 341, ∀ shown addr,
      (Cartridge.ppuRead (readPattern (cart n) shown).2 addr).1 = memory addr) :
    (∀ n < 682, ((p.after cart n).tick (cart n)).1 = .ok ()) ∧
      (∀ x < 256, (p.after cart 682).frame.get x (p.row.toNat + 1) =
        .ok (p.maskedColor (.ofNat (p.rowOffset memory x)))) ∧
      ((p.after cart 682).spriteHit = true ↔
        (p.after cart 341).spriteHit = true ∨ 0 ∈ p.chosen ∧ ∃ x < 255, p.firstMeets memory x) := by
  have hv : p.onPrerender = false := Drawing.not_prerender (by omega)
  have hd : Drawing p 0 := .of_seen (hp.warm_of_draws hm) hm (by omega) hdot
  -- Each of the two rows is drawn from the cartridge as it is on its own dots.
  obtain ⟨cart₁, hcart₁, h₁⟩ := exists_cart (P := fun c => Answers memory c ∧ AnswersOn memory c) cart
    (by decide : 0 < 341) fun i hi => ⟨ha i (by omega), hon i hi⟩
  obtain ⟨cart₂, hcart₂, h₂⟩ := exists_cart (P := Answers memory) (fun i => cart (341 + i))
    (by decide : 0 < 341) fun i hi => ha (341 + i) (by omega)
  have hupper (n : Nat) (hn : n ≤ 341) : p.after cart n = p.after cart₁ n :=
    after_congr fun i hi => (hcart₁ i (by omega)).symm
  have hlower : p.after cart 682 = (p.after cart 341).after cart₂ 341 := by
    rw [show 682 = 341 + 341 from rfl, after_add]
    exact after_congr fun i hi => (hcart₂ i hi).symm
  have hb : Below memory p (p.after cart 341) := by
    rw [hupper 341 (by decide)]
    refine .start hd hrow hp.scroll.addr ?_ (fun n => (h₁ n).1) fun n => (h₁ n).2
    rw [← hupper 65 (by decide)]
    exact h0
  refine ⟨rows_ok hd hv hb, ?_⟩
  have hqv := hb.not_prerender
  rw [hlower]
  generalize p.after cart 341 = q at hb hqv ⊢
  have hframe := row_frame hb.drawing hqv hb.visible h₂
  have hhit := row_spriteHit hb.drawing hqv h₂
  rw [Drawing.rowDots_seen hqv] at hframe hhit
  refine ⟨?_, ?_⟩
  · intro x hx
    rw [hframe x _ hx, if_pos hb.row.symm, hb.drawnOffset hp.scroll.fineX h₂ hx,
      maskedColor_congr (congrArg PictureSettings.palette hb.settings) hb.mask]
  · rw [hhit]
    refine or_congr_right ⟨?_, ?_⟩
    · rintro ⟨x, hx, hmeets⟩
      obtain ⟨hmem, hlast, hmeets⟩ := (hb.meetsFirst hp.scroll.fineX h₂ hx).mp hmeets
      exact ⟨hmem, x, by omega, hmeets⟩
    · rintro ⟨hmem, x, hx, hmeets⟩
      exact ⟨x, by omega,
        (hb.meetsFirst hp.scroll.fineX h₂ (by omega)).mpr ⟨hmem, by omega, hmeets⟩⟩

/-- The picture of the row below depends on what is drawn from, on the sprites and on the place. -/
theorem rowOffset_congr (memory : UInt16 → UInt8) (hs : q.settings = p.settings)
    (ho : q.oam = p.oam) (hr : q.row = p.row) (hb : q.below = p.below) :
    q.rowOffset memory = p.rowOffset memory ∧ q.chosen = p.chosen ∧
      q.firstMeets memory = p.firstMeets memory := by
  have hbehind : q.behindOffset memory = p.behindOffset memory := by
    unfold behindOffset patternBase
    rw [hb, show q.mask = p.mask from congrArg PictureSettings.mask hs,
      show q.control = p.control from congrArg PictureSettings.control hs,
      show q.scroll.fineX = p.scroll.fineX from congrArg PictureSettings.fineX hs]
  have hc : q.control = p.control := congrArg PictureSettings.control hs
  have hm : q.mask = p.mask := congrArg PictureSettings.mask hs
  have hchosen : q.chosen = p.chosen := chosen_congr ho hr hc
  have hpixel : q.spritePixel memory = p.spritePixel memory := by
    unfold spritePixel planeOf
    rw [ho, hr, hc]
  have hseen : q.spriteOpaque memory = p.spriteOpaque memory := by
    unfold spriteOpaque
    rw [ho, hpixel]
  refine ⟨?_, hchosen, ?_⟩
  · unfold rowOffset foremost spriteOffset
    rw [hbehind, hchosen, hseen, hpixel, ho, hm]
  · unfold firstMeets
    rw [hbehind, hseen, hm]

/-- A unit about to draw its first picture, with sprites. -/
def firstPicture : Picture := ((warm .ntsc).writeRegister solidBoard 0x2001 0x1E).1

/-- The first row of that picture. -/
def firstRow : Picture := firstPicture.after (fun _ => solidBoard) firstPicture.rowDots

/-- The same place as a plain value. -/
def firstRowValue : Picture :=
  { firstPicture with row := 0, scroll := firstPicture.scroll.columns 2 }

theorem sprite_row_solid :
    Reachable Nrom firstRow ∧ firstRow.mask.draws = true ∧ firstRow.row.toNat < 239 ∧
      firstRow.dot = 0 ∧ (firstRow.after (fun _ => solidBoard) 65).oamAddr = 0 ∧
      (firstRow.after (fun _ => solidBoard) 682).frame.get 3 1 = .ok (firstRow.maskedColor 0x13) ∧
      (firstRow.after (fun _ => solidBoard) 682).frame.get 100 1 = .ok (firstRow.maskedColor 0x03) ∧
      (firstRow.after (fun _ => solidBoard) 682).spriteHit = true := by
  let memory (addr : UInt16) : UInt8 := if addr &&& 0x3FFF < 0x2000 then 0xFF else 0
  have ha (n : Nat) : Answers memory ((fun _ => solidBoard) n) := solidBoard_ppuRead
  have hreach : Reachable Nrom firstPicture :=
    (reachable_warm (fun _ => solidBoard) .ntsc).write solidBoard 0x2001 0x1E
  have hd : Drawing firstPicture 0 := ⟨rfl, rfl, rfl, rfl, by decide, fun z => absurd rfl z⟩
  have hfirst : AtRow memory firstPicture 0 firstRow := .first hd rfl hreach.scroll ha
  have hoam : firstRow.oam = firstPicture.oam := prerender_oam hd rfl rfl ha
  have haddr : firstRow.oamAddr = 0 := row_oamAddr hd
  have hreach : Reachable Nrom firstRow := hreach.after _ _
  generalize firstRow = p at hfirst hoam haddr hreach ⊢
  obtain ⟨s, hprimed, -, -, hspot⟩ := hfirst.primed
  have hdraws : p.mask.draws = true := hfirst.mask ▸ rfl
  have hrow : p.row.toNat < 239 := by
    rw [hfirst.row_toNat (by decide)]
    decide
  have h65 : (p.after (fun _ => solidBoard) 65).oamAddr = 0 := by
    have hp := hfirst.drawing (by decide) rfl rfl
    have hkept := seen_before hp (hfirst.not_prerender (by decide)) (fun _ => solidBoard) 65
    rw [(hkept (by decide)).1, haddr]
  have hstart : p.scroll.start = 0 := congrArg PictureSettings.start hfirst.settings
  have hbelow : p.below = firstRowValue.below := by
    unfold below
    rw [hstart, hprimed.scroll, Scroll.spot_columns, hspot]
    decide +kernel
  obtain ⟨hoff, hchosen, hmeets⟩ := rowOffset_congr memory (p := firstRowValue) (q := p)
    hfirst.settings hoam hfirst.row hbelow
  obtain ⟨-, hframe, hhit⟩ := sprite_row hreach hdraws hrow hfirst.dot (fun _ => solidBoard) h65 memory
    (fun _ _ => solidBoard_ppuRead) (fun _ _ _ => solidBoard_ppuRead)
  rw [hfirst.row_toNat (by decide), hoff] at hframe
  rw [hchosen, hmeets] at hhit
  have hsprite := hframe 3 (by decide)
  have hplain := hframe 100 (by decide)
  rw [show firstRowValue.rowOffset memory 3 = 0x13 by decide +kernel] at hsprite
  rw [show firstRowValue.rowOffset memory 100 = 0x03 by decide +kernel] at hplain
  refine ⟨hreach, hdraws, hrow, hfirst.dot, h65, hsprite, hplain, ?_⟩
  · refine hhit.mpr (.inr ⟨by decide +kernel, 3, by decide, ?_⟩)
    exact ⟨rfl, by decide +kernel, by decide +kernel⟩

end Picture

end Famicom
