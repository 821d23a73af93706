/-
  The signals of a picture unit, and the little that drawing does to them.

  `Signals` are what the unit tells the processor, together with what decides about it: the flag of
  vertical blank, the interrupt, the control register and the counts of dots that both wait for.

  1. **Drawing** touches no signal, one lemma for each part, but that the row before the first clears
     the flag on its second dot (`drawingDot_signals`).
  2. **A dot** of a warm unit therefore has one of three effects: vertical blank begins, its flag is
     cleared, or nothing (`tick_signals`).  A cold unit counts its dots and raises none
     (`warmUp_signals`).
  3. **The registers**: a read of the status clears the flag, and just before it would be set
     suppresses it (`readRegister_signals`); a write to the control register may raise the interrupt
     (`writeRegister_signals`).

  The registers, on their side, do not reach what the unit goes on with (`Engine`), so accesses between
  dots can be set aside where the place of the unit is concerned.
-/
import Famicom.Proofs.Picture.FetchPace

namespace Famicom

/-- What a picture unit tells the processor, and what decides about it. -/
structure Signals where
  control : Control
  vblank : Bool
  missVblank : Bool
  nmiRequested : Bool
  dmaPage : Option UInt8
  warmUpCount : Nat

/-- What the beginning of vertical blank does to the signals, wherever the unit stands. -/
def Signals.beginVblank (s : Signals) : Signals :=
  if s.missVblank then { s with missVblank := false }
  else { s with vblank := true, nmiRequested := s.nmiRequested || s.control.nmi }

/-- What a picture unit draws with, and where it stands. -/
structure Engine where
  region : Region
  row : UInt16
  dot : UInt16
  oddFrame : Bool
  rendering : Bool
  warmingUp : Bool
  warmUpCount : Nat
  sprites : SpriteLine
  background : Background

namespace Picture

/-- The signals of a picture unit. -/
def signals (p : Picture) : Signals where
  control := p.control
  vblank := p.vblank
  missVblank := p.missVblank
  nmiRequested := p.nmiRequested
  dmaPage := p.dmaPage
  warmUpCount := p.warmUpCount

/-- The engine of a picture unit. -/
def engine (p : Picture) : Engine where
  region := p.region
  row := p.row
  dot := p.dot
  oddFrame := p.oddFrame
  rendering := p.rendering
  warmingUp := p.warmingUp
  warmUpCount := p.warmUpCount
  sprites := p.sprites
  background := p.background

variable {γ : Type} [Cartridge γ] {p : Picture}

/-! ## Drawing and the signals -/

theorem fetchBackground_signals (p : Picture) (c : γ) : (p.fetchBackground c).1.signals = p.signals := by
  unfold fetchBackground
  split
  · rfl
  · split
    · rfl
    · split <;> rfl

theorem advance_signals (p : Picture) : p.advance.signals = p.signals := by
  unfold advance
  split
  · rfl
  · rfl

/-- What a drawing dot does first raises no signal. -/
theorem fetched_signals (p : Picture) (c : γ) : (p.fetched c).signals = p.signals :=
  (advance_signals _).trans (fetchBackground_signals p c)

theorem showPixel_signals (p : Picture) : p.showPixel.signals = p.signals := by
  obtain ⟨f, hit, hdraw⟩ := drawPixel_shape p
  rw [showPixel, hdraw]
  rfl

theorem evaluateByte_signals (p : Picture) : p.evaluateByte.signals = p.signals := by
  unfold evaluateByte
  dsimp only
  split
  · rfl
  · split
    · rfl
    · rfl

/-- Neither does the search for sprites. -/
theorem evaluateSprites_signals (p : Picture) : p.evaluateSprites.signals = p.signals := by
  have hbound : p.boundSearch.signals = p.signals := by
    unfold boundSearch
    split
    · rfl
    · split
      · rfl
      · rfl
  have hstep (q : Picture) : q.stepSearch.signals = q.signals := by
    unfold stepSearch
    split
    · rfl
    · exact evaluateByte_signals q
  rw [evaluateSprites_eq]
  split
  · rfl
  · split
    · rfl
    · exact (hstep _).trans hbound

/-- The second dot of the row before the first clears the flag of vertical blank. -/
theorem beginPicture_signals (p : Picture) :
    p.beginPicture.signals =
      if p.dot = 1 then { p.signals with vblank := false } else p.signals := by
  unfold beginPicture
  dsimp only
  split
  · split
    · rfl
    · rfl
  · split
    · rfl
    · rfl

/-- Of the dots on which pixels are drawn, only that one. -/
theorem pixelDot_signals (p : Picture) (c : γ) :
    (p.pixelDot c).1.signals =
      if p.onPrerender && p.dot = 1 then { p.signals with vblank := false } else p.signals := by
  have ho := fetched_outline p c
  have hdot : (p.fetched c).dot = p.dot := congrArg Outline.dot ho
  have hpre : (p.fetched c).onPrerender = p.onPrerender := by
    rw [onPrerender, show (p.fetched c).row = p.row from congrArg Outline.row ho,
      show (p.fetched c).region = p.region from congrArg (·.settings.region) ho]
    rfl
  rw [pixelDot_fst, hpre, hdot]
  cases p.onPrerender with
  | true =>
    rw [if_pos rfl, Bool.true_and, ← fetched_signals p c, ← hdot]
    by_cases h1 : (p.fetched c).dot = 1
    · rw [if_pos (show (p.fetched c).dot < 9 by rw [h1]; decide), beginPicture_signals, if_pos h1,
        if_pos (decide_eq_true h1)]
    · rw [if_neg (show ¬ decide ((p.fetched c).dot = 1) = true from fun e => h1 (of_decide_eq_true e))]
      split
      · rw [beginPicture_signals, if_neg h1]
      · rfl
  | false =>
    rw [if_neg (by decide), if_neg (by simp)]
    exact (evaluateSprites_signals _).trans ((showPixel_signals _).trans (fetched_signals p c))

theorem fetchSprite_signals (p : Picture) (c : γ) : (p.fetchSprite c).2.1.signals = p.signals := by
  unfold fetchSprite
  split
  · rfl
  · rfl

/-- Neither does a dot of the sprite fetches. -/
theorem spriteDot_signals (p : Picture) (c : γ) : (p.spriteDot c).2.1.signals = p.signals := by
  have hrow : p.turnRow.signals = p.signals := by
    unfold turnRow
    split
    · rfl
    · rfl
  have hpicture (q : Picture) : q.turnPicture.signals = q.signals := by
    unfold turnPicture
    split
    · rfl
    · rfl
  have hfetch (q : Picture) : (q.spriteFetches c).2.1.signals = q.signals := by
    unfold spriteFetches
    split
    · rfl
    · rfl
    · exact fetchSprite_signals q c
    · rfl
  rw [← hrow]
  cases hr : p.turnRow.rendering with
  | true =>
    rw [(spriteDot_of_rendering p c hr).2]
    exact (hpicture _).trans (hfetch { p.turnRow with oamAddr := 0 })
  | false => rw [spriteDot_of_not_rendering p c hr]

theorem prefetchDot_signals (p : Picture) (c : γ) : (p.prefetchDot c).1.signals = p.signals := by
  have hf := fetchBackground_signals p c
  unfold prefetchDot
  dsimp only
  split
  · exact hf
  · split
    · exact hf
    · split
      · exact hf
      · exact hf

theorem idleDot_signals (p : Picture) (c : γ) : (p.idleDot c).1.signals = p.signals := by
  unfold idleDot
  split
  · rfl
  · rfl

/-- Drawing leaves the signals alone, but that the row before the first clears the flag. -/
theorem drawingDot_signals (p : Picture) (c : γ) :
    (p.drawingDot c).2.1.signals =
      if p.onPrerender && p.dot = 1 then { p.signals with vblank := false } else p.signals := by
  have later (h : ¬ p.dot ≤ 256) : ¬ (p.onPrerender && p.dot = 1) = true := by
    intro h1
    obtain ⟨-, h1⟩ := Bool.and_eq_true_iff.mp h1
    rw [of_decide_eq_true h1] at h
    exact h (by decide)
  unfold drawingDot
  dsimp only
  split
  · exact pixelDot_signals { p with rendering := p.mask.draws } c
  · next h =>
    rw [if_neg (later h)]
    split
    · exact spriteDot_signals { p with rendering := p.mask.draws } c
    · split
      · exact prefetchDot_signals { p with rendering := p.mask.draws } c
      · split
        · exact idleDot_signals { p with rendering := p.mask.draws } c
        · rfl

/-! ## A dot -/

/-- The way to the next dot raises no signal either. -/
theorem nextDot_signals (p : Picture) : p.nextDot.signals = p.signals := by
  unfold nextDot
  split
  · split
    · rfl
    · rfl
  · rfl

theorem beginVblank_signals (p : Picture) : p.beginVblank.signals = p.signals.beginVblank := by
  unfold beginVblank Signals.beginVblank
  exact apply_ite signals (p.missVblank = true) _ _

/-- Signals change where vertical blank begins. -/
theorem arrive_signals (p : Picture) :
    p.arrive.signals = if p.enteredVblank then p.signals.beginVblank else p.signals := by
  have hfirst (q : Picture) : q.beginFirstRow.signals = q.signals := by
    unfold beginFirstRow
    split
    · rfl
    · rfl
  rw [arrive, hfirst, apply_ite signals, beginVblank_signals]

/-- A unit cannot begin vertical blank on the row before the first. -/
theorem enteredVblank_not_prerender (h : p.enteredVblank = true) : p.onPrerender = false := by
  obtain ⟨hrow, -⟩ := Bool.and_eq_true_iff.mp h
  refine decide_eq_false fun e => ?_
  rw [of_decide_eq_true hrow] at e
  cases hr : p.region with
  | ntsc =>
    rw [hr] at e
    exact absurd e (by decide)
  | pal =>
    rw [hr] at e
    exact absurd e (by decide)

/-- A dot of a warm unit begins vertical blank, clears its flag, or leaves the signals alone. -/
theorem tick_signals (hw : p.warmingUp = false) (c : γ) :
    (p.tick c).2.1.signals =
      if p.nextDot.enteredVblank then p.signals.beginVblank
      else if p.nextDot.onPrerender && p.nextDot.dot = 1 then { p.signals with vblank := false }
      else p.signals := by
  have harrive := arrive_signals p.nextDot
  have ho := arrive_outline p.nextDot
  have hdot : p.nextDot.arrive.dot = p.nextDot.dot := congrArg Outline.dot ho
  have hpre : p.nextDot.arrive.onPrerender = p.nextDot.onPrerender := by
    rw [onPrerender, show p.nextDot.arrive.row = p.nextDot.row from congrArg Outline.row ho,
      show p.nextDot.arrive.region = p.nextDot.region from congrArg (·.settings.region) ho]
    rfl
  rw [nextDot_signals] at harrive
  rw [tick_eq p c hw]
  split
  · rw [drawingDot_signals, hpre, hdot, harrive]
    split
    · next h1 =>
      have hv : p.nextDot.enteredVblank = false := by
        cases hv : p.nextDot.enteredVblank with
        | false => rfl
        | true =>
          rw [enteredVblank_not_prerender hv] at h1
          cases h1
      rw [hv, if_neg (by decide), if_neg (by decide)]
    · rfl
  · next hrest =>
    have hz : ¬ (p.nextDot.onPrerender && p.nextDot.dot = 1) = true := by
      intro h1
      obtain ⟨hp, h1⟩ := Bool.and_eq_true_iff.mp h1
      refine hrest ?_
      rw [arrive_atWork, atWork, hp, of_decide_eq_true h1]
      simp
    rw [if_neg hz]
    exact harrive

/-- A cold unit counts its dots. -/
theorem warmUp_signals (p : Picture) :
    p.warmUp.signals =
      { p.signals with
        warmUpCount := if p.warmUpCount = p.region.warmUpDots then 0 else p.warmUpCount + 1 } := by
  unfold warmUp
  split
  · rfl
  · rfl

/-! ## The registers -/

/-- The unit stands on the dot before vertical blank. -/
def onEve (p : Picture) : Bool := p.row = p.region.vblankRow && p.dot = 0

/-- Of the registers that are read, the status clears the flag, and on the dot before vertical blank
    takes note of it. -/
theorem readRegister_signals (p : Picture) (c : γ) (addr : UInt16) :
    (p.readRegister c addr).2.1.signals =
      if addr &&& 0x0007 = 2 then
        { p.signals with vblank := false, missVblank := p.missVblank || p.onEve }
      else p.signals := by
  unfold readRegister
  dsimp only
  split
  · next h =>
    rw [h]
    rfl
  · next h =>
    rw [h]
    unfold readSprites
    dsimp only
    split
    · split
      · rfl
      · rfl
    · rfl
  · next h =>
    rw [h]
    rfl
  · next h _ _ =>
    rw [if_neg h]

/-- Of the registers that are written, control may ask for the interrupt; the others leave the signals
    alone. -/
theorem writeRegister_signals (p : Picture) (c : γ) (addr : UInt16) (data : UInt8) :
    (p.writeRegister c addr data).1.signals = p.signals ∨
      (p.writeRegister c addr data).1.signals =
        { p.signals with
          control := ⟨data⟩
          nmiRequested :=
            p.nmiRequested || (p.vblank && !p.control.nmi && (⟨data⟩ : Control).nmi) } := by
  unfold writeRegister
  dsimp only
  split
  · split
    · exact .inl rfl
    · exact .inr rfl
  · refine .inl ?_
    split
    · rfl
    · rfl
  · exact .inl rfl
  · refine .inl ?_
    unfold writeSprites
    split
    · rfl
    · rfl
  · refine .inl ?_
    split
    · rfl
    · rfl
  · refine .inl ?_
    split
    · rfl
    · rfl
  · refine .inl ?_
    unfold writeData
    dsimp only
    split
    · rfl
    · rfl
  · exact .inl rfl

/-! ## The registers and the engine -/

/-- A register that is read does not move the unit. -/
theorem readRegister_engine (p : Picture) (c : γ) (addr : UInt16) :
    (p.readRegister c addr).2.1.engine = p.engine := by
  unfold readRegister
  dsimp only
  split
  · rfl
  · unfold readSprites
    dsimp only
    split
    · split
      · rfl
      · rfl
    · rfl
  · rfl
  · rfl

/-- Nor does one that is written. -/
theorem writeRegister_engine (p : Picture) (c : γ) (addr : UInt16) (data : UInt8) :
    (p.writeRegister c addr data).1.engine = p.engine := by
  unfold writeRegister
  dsimp only
  split
  · split
    · rfl
    · rfl
  · split
    · rfl
    · rfl
  · rfl
  · unfold writeSprites
    split
    · rfl
    · rfl
  · split
    · rfl
    · rfl
  · split
    · rfl
    · rfl
  · unfold writeData
    dsimp only
    split
    · rfl
    · rfl
  · rfl

end Picture

end Famicom
