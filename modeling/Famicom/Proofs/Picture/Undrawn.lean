/-
  A picture unit that does not draw.

  Drawing moves the address on, fetches tiles and sprites through the cartridge and turns sprite memory
  over.  A dot on which nothing is drawn does none of that: what the registers reach, the `Held` bytes and
  addresses, stays as it is, and so does the cartridge.  That is said once for each part of a dot, up to
  `tick_held`.
-/
import Famicom.Proofs.Picture.Reachable

namespace Famicom

/-- What a program reaches of a picture unit through its registers, beside the settings. -/
structure Held where
  oam : Vector UInt8 256
  oamAddr : UInt8
  scroll : Scroll
  readBuffer : UInt8
  latch : UInt8

namespace Picture

/-- What a picture unit holds for its registers. -/
def held (p : Picture) : Held where
  oam := p.oam
  oamAddr := p.oamAddr
  scroll := p.scroll
  readBuffer := p.readBuffer
  latch := p.latch

variable {γ : Type} [Cartridge γ] {p : Picture}

/-- The way to the next dot changes nothing that is held. -/
theorem nextDot_held (p : Picture) : p.nextDot.held = p.held := by
  unfold nextDot
  split
  · split
    · rfl
    · rfl
  · rfl

theorem warmUp_held (p : Picture) : p.warmUp.held = p.held := by
  unfold warmUp
  split
  · rfl
  · rfl

theorem arrive_held (p : Picture) : p.arrive.held = p.held := by
  have hfirst (q : Picture) : q.beginFirstRow.held = q.held := by
    unfold beginFirstRow
    split
    · rfl
    · rfl
  refine (hfirst _).trans ?_
  split
  · unfold beginVblank
    split
    · rfl
    · rfl
  · rfl

/-- Nothing is fetched. -/
theorem fetchBackground_idle (h : p.rendering = false) (c : γ) : p.fetchBackground c = (p, c) := by
  unfold fetchBackground
  rw [h]
  rfl

/-- With nothing drawn a pixel is the colour behind everything. -/
theorem drawPixel_idle (h : p.rendering = false) : ∃ frame, p.drawPixel = { p with frame } := by
  have hidle : (!p.rendering) = true := by
    rw [h]
    rfl
  unfold drawPixel
  exact ⟨_, if_pos hidle⟩

theorem beginPicture_idle (h : p.rendering = false) : p.beginPicture.held = p.held := by
  have hidle (q : Picture) (hq : q.rendering = p.rendering) : (q.rendering && 0x08 ≤ q.oamAddr) ≠ true := by
    rw [hq, h]
    exact Bool.false_ne_true
  unfold beginPicture
  dsimp only
  split
  · rw [if_neg (hidle _ rfl)]
    rfl
  · rw [if_neg (hidle _ rfl)]

/-- With nothing drawn a dot of the visible part leaves the cartridge and all that is held. -/
theorem pixelDot_idle (h : p.rendering = false) (c : γ) :
    (p.pixelDot c).2 = c ∧ (p.pixelDot c).1.held = p.held := by
  have hidle : (p.rendering && p.dot &&& 7 = 0) ≠ true := by
    rw [h]
    exact Bool.false_ne_true
  have hfetched : p.fetched c = p := by
    unfold fetched advance
    rw [fetchBackground_idle h]
    exact if_neg hidle
  constructor
  · have hcart : (p.pixelDot c).2 = if (p.fetched c).onPrerender then (p.fetchBackground c).2
        else (p.fetchBackground c).2 := apply_ite Prod.snd _ _ _
    rw [hcart, ite_self, fetchBackground_idle h]
  · rw [pixelDot_fst, hfetched]
    split
    · split
      · exact beginPicture_idle h
      · rfl
    · obtain ⟨frame, hdrawn⟩ := drawPixel_idle h
      have hshown : p.showPixel.rendering = false := by
        unfold showPixel
        rw [hdrawn]
        exact h
      rw [evaluateSprites_eq, hshown]
      unfold showPixel
      rw [hdrawn]
      rfl

/-- The row does not turn. -/
theorem turnRow_idle (h : p.rendering = false) : p.turnRow.rendering = false ∧ p.turnRow.held = p.held := by
  unfold turnRow
  split
  · refine ⟨h, ?_⟩
    unfold held
    dsimp only
    rw [h]
    rfl
  · exact ⟨h, rfl⟩

/-- So every dot goes well, and leaves the cartridge and all that is held. -/
theorem drawingDot_idle (h : p.mask.draws = false) (c : γ) :
    (p.drawingDot c).1 = .ok () ∧ (p.drawingDot c).2.2 = c ∧ (p.drawingDot c).2.1.held = p.held := by
  unfold drawingDot
  rw [h]
  dsimp only
  split
  · exact ⟨rfl, pixelDot_idle (p := { p with rendering := false }) rfl c⟩
  · split
    · obtain ⟨hturned, hheld⟩ := turnRow_idle (p := { p with rendering := false }) rfl
      rw [spriteDot_of_not_rendering _ c hturned]
      exact ⟨rfl, rfl, hheld⟩
    · split
      · unfold prefetchDot
        rw [fetchBackground_idle rfl]
        exact ⟨rfl, rfl, rfl⟩
      · split
        · exact ⟨rfl, rfl, rfl⟩
        · exact ⟨rfl, rfl, rfl⟩

/-- A dot after which the unit does not draw goes well, and leaves what it holds and the cartridge
    alone. -/
theorem tick_held {c : γ} (h : (p.tick c).2.1.rendering = false) :
    (p.tick c).1 = .ok () ∧ (p.tick c).2.2 = c ∧ (p.tick c).2.1.held = p.held := by
  cases hw : p.warmingUp with
  | true =>
    rw [tick_warmingUp p c hw]
    exact ⟨rfl, rfl, (warmUp_held _).trans (nextDot_held p)⟩
  | false =>
    have harrived := (arrive_held p.nextDot).trans (nextDot_held p)
    have ho : (p.tick c).2.1.rendering = (p.nextDot.arrive.atWork && p.mask.draws) :=
      congrArg Outline.rendering (tick_outline p c hw)
    rw [h] at ho
    rw [tick_eq p c hw]
    split
    · next hwork =>
      have hmask : p.nextDot.arrive.mask = p.mask :=
        (congrArg (·.settings.mask) (arrive_outline p.nextDot)).trans (nextDot_mask p)
      have hdraws : p.nextDot.arrive.mask.draws = false := by
        rw [hmask]
        rw [hwork, Bool.true_and] at ho
        exact ho.symm
      obtain ⟨hok, hc, hheld⟩ := drawingDot_idle hdraws c
      exact ⟨hok, hc, hheld.trans harrived⟩
    · have hidle (q : Picture) : ({ q with rendering := false } : Picture).held = q.held := rfl
      exact ⟨rfl, rfl, (hidle _).trans harrived⟩

end Picture

end Famicom
