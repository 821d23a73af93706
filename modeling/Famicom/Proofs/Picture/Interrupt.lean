/-
  When the picture unit interrupts the processor.

  The interrupt follows an edge: the line `vblank && control.nmi` goes up.  Two places look for the edge,
  and neither looks at the line.  Writing control compares the bit before and after; the beginning of
  vertical blank takes the flag to be clear.

  1. **The flag** (`Quiet`): it is set only while the unit is warm and stands between the second dot of
     vertical blank and the first of the row before the first.  So it is clear whenever vertical blank
     begins (`Quiet.clear`).
  2. **The edge** (`perform_nmiRequested`): in a quiet unit every act requests the interrupt exactly
     where the line goes up.  Over every run: `nmi_follows_edge`.
-/
import Famicom.Proofs.Picture.Acts

namespace Famicom

namespace Picture

variable {γ : Type} [Cartridge γ] {p : Picture}

/-- The line that asks for the interrupt. -/
def nmiLine (p : Picture) : Bool := p.vblank && p.control.nmi

/-- The flag of vertical blank is set only in vertical blank, and only in a warm unit. -/
def Quiet (p : Picture) : Prop :=
  p.vblank = true → p.warmingUp = false ∧ 341 * p.region.vblankRow.toNat < p.place ∧
    p.place ≤ 341 * p.region.prerenderRow.toNat

/-- In vertical blank the unit is past the first dot of all. -/
theorem Placed.dot_le (h : Placed p) (hp : 341 * p.region.vblankRow.toNat < p.place) :
    p.dot.toNat ≤ 340 := by
  have hv : 241 ≤ p.region.vblankRow.toNat := by cases p.region <;> decide
  rcases h.dot with hd | ⟨hd, hr⟩
  · exact hd
  · unfold place at hp
    rw [hd, hr] at hp
    have : 341 * (0 : UInt16).toNat + (0xFFFF : UInt16).toNat = 65535 := rfl
    omega

namespace Quiet

theorem new (region : Region) : Quiet (new region) := fun h => by cases h

/-- In a unit whose flag is set the next dot is one further on. -/
theorem place_nextDot (h : Quiet p) (hp : Placed p) (hv : p.vblank = true) :
    p.nextDot.place = p.place + 1 := by
  obtain ⟨-, hlo, hhi⟩ := h hv
  rcases Picture.place_nextDot hp (hp.dot_le hlo) with hs | ⟨-, hend⟩
  · exact hs
  · omega

/-- When vertical blank begins, the flag is clear. -/
theorem clear (h : Quiet p) (hp : Placed p) (he : p.nextDot.enteredVblank = true) :
    p.vblank = false := by
  have hplace := (enteredVblank_iff (nextDot_dot hp)).mp he
  rw [nextDot_region] at hplace
  cases hv : p.vblank with
  | false => rfl
  | true =>
    have hstep := h.place_nextDot hp hv
    obtain ⟨-, hlo, -⟩ := h hv
    omega

/-- Only what clears the flag, or leaves flag and place alone, has been done. -/
theorem congr {q : Picture} (h : Quiet p) (he : q.engine = p.engine)
    (hv : q.vblank = true → p.vblank = true) : Quiet q := by
  have region : q.region = p.region := congrArg Engine.region he
  have warmingUp : q.warmingUp = p.warmingUp := congrArg Engine.warmingUp he
  have place : q.place = p.place := by
    unfold Picture.place
    rw [show q.row = p.row from congrArg Engine.row he, show q.dot = p.dot from congrArg Engine.dot he]
  intro hq
  rw [region, warmingUp, place]
  exact h (hv hq)

theorem tick (h : Quiet p) (hp : Placed p) (c : γ) : Quiet (p.tick c).2.1 := by
  intro hv
  rw [tick_region]
  cases hw : p.warmingUp with
  | true =>
    -- a cold unit has no flag, and its dots set none
    rw [tick_warmingUp p c hw] at hv
    have hv : p.nextDot.warmUp.signals.vblank = true := hv
    rw [warmUp_signals, nextDot_signals] at hv
    rw [(h hv).1] at hw
    cases hw
  | false =>
    obtain ⟨hwarm, -, hrow, hdot⟩ := tick_place hw c
    have hplace : (p.tick c).2.1.place = p.nextDot.place := by
      unfold place
      rw [hrow, hdot]
    have hs : (p.tick c).2.1.vblank = _ := congrArg Signals.vblank (tick_signals hw c)
    have hrows := vblankRow_lt p.region
    refine ⟨hwarm, ?_⟩
    rw [hplace]
    rw [hv] at hs
    by_cases he : p.nextDot.enteredVblank = true
    · have := (enteredVblank_iff (nextDot_dot hp)).mp he
      rw [nextDot_region] at this
      omega
    · rw [if_neg he] at hs
      by_cases hb : (p.nextDot.onPrerender && p.nextDot.dot = 1) = true
      · rw [if_pos hb] at hs
        cases hs
      · rw [if_neg hb] at hs
        -- the flag was set, and this dot is not the one that clears it
        have hold : p.vblank = true := hs.symm
        have hstep := h.place_nextDot hp hold
        obtain ⟨-, hlo, hhi⟩ := h hold
        have hne : p.nextDot.place ≠ 341 * p.region.prerenderRow.toNat + 1 := fun e =>
          hb ((beginsPicture_iff (nextDot_dot hp)).mpr (by rw [nextDot_region]; exact e))
        omega

theorem read (h : Quiet p) (c : γ) (addr : UInt16) : Quiet (p.readRegister c addr).2.1 := by
  refine h.congr (readRegister_engine p c addr) fun hv => ?_
  have hs : (p.readRegister c addr).2.1.vblank = _ :=
    congrArg Signals.vblank (readRegister_signals p c addr)
  rw [hv] at hs
  split at hs
  · cases hs
  · exact hs.symm

theorem write (h : Quiet p) (c : γ) (addr : UInt16) (data : UInt8) :
    Quiet (p.writeRegister c addr data).1 := by
  refine h.congr (writeRegister_engine p c addr data) fun hv => ?_
  rcases writeRegister_signals p c addr data with hs | hs
  · exact (congrArg Signals.vblank hs).symm.trans hv
  · exact (congrArg Signals.vblank hs).symm.trans hv

theorem perform (h : Quiet p) (hp : Placed p) (act : Act γ) : Quiet (p.perform act) := by
  cases act with
  | tick c => exact h.tick hp c
  | read c addr => exact h.read c addr
  | write c addr data => exact h.write c addr data
  | takeNmi => exact h.congr rfl id
  | requestDma page => exact h.congr rfl id
  | takeDma => exact h.congr rfl id
  | reset => exact .new p.region

end Quiet

theorem quiet_run (region : Region) (acts : List (Act γ)) : Quiet ((new region).run acts) :=
  (run_inv (P := fun p => Placed p ∧ Quiet p)
    (fun _ act h => ⟨h.1.perform act, h.2.perform h.1 act⟩) acts ⟨.new region, .new region⟩).2

/-! ## The edge -/

/-- What an act leaves in the latch of the interrupt, given the line before and after it. -/
def Act.latches (act : Act γ) (requested before after : Bool) : Bool :=
  match act with
  | .takeNmi => false
  | .reset => false
  | _ => requested || (!before && after)

/-- A dot requests the interrupt where the line goes up. -/
theorem tick_nmiRequested (h : Quiet p) (hp : Placed p) (c : γ) :
    (p.tick c).2.1.nmiRequested = (p.nmiRequested || (!p.nmiLine && (p.tick c).2.1.nmiLine)) := by
  have hline (q : Picture) : q.nmiLine = (q.signals.vblank && q.signals.control.nmi) := rfl
  have hreq (q : Picture) : q.nmiRequested = q.signals.nmiRequested := rfl
  rw [hreq, hline, hline, hreq p]
  cases hw : p.warmingUp with
  | true =>
    rw [tick_warmingUp p c hw, warmUp_signals, nextDot_signals]
    cases p.signals.vblank && p.signals.control.nmi <;> simp
  | false =>
    rw [tick_signals hw c]
    by_cases he : p.nextDot.enteredVblank = true
    · have hclear : p.signals.vblank = false := h.clear hp he
      rw [if_pos he]
      unfold Signals.beginVblank
      split
      · simp [hclear]
      · simp [hclear]
    · rw [if_neg he]
      split
      · simp
      · cases p.signals.vblank && p.signals.control.nmi <;> simp

/-- An act requests the interrupt exactly where the line goes up, and answering it ends the request. -/
theorem perform_nmiRequested (h : Quiet p) (hp : Placed p) (act : Act γ) :
    (p.perform act).nmiRequested = act.latches p.nmiRequested p.nmiLine (p.perform act).nmiLine := by
  cases act with
  | tick c => exact tick_nmiRequested h hp c
  | read c addr =>
    have hs := readRegister_signals p c addr
    show (p.readRegister c addr).2.1.signals.nmiRequested =
      (p.signals.nmiRequested || (!(p.signals.vblank && p.signals.control.nmi) &&
        ((p.readRegister c addr).2.1.signals.vblank &&
          (p.readRegister c addr).2.1.signals.control.nmi)))
    rw [hs]
    split
    · simp
    · cases p.signals.vblank && p.signals.control.nmi <;> simp
  | write c addr data =>
    have hs := writeRegister_signals p c addr data
    show (p.writeRegister c addr data).1.signals.nmiRequested =
      (p.signals.nmiRequested || (!(p.signals.vblank && p.signals.control.nmi) &&
        ((p.writeRegister c addr data).1.signals.vblank &&
          (p.writeRegister c addr data).1.signals.control.nmi)))
    rcases hs with hs | hs
    · rw [hs]
      cases p.signals.vblank && p.signals.control.nmi <;> simp
    · rw [hs]
      show (p.nmiRequested || (p.vblank && !p.control.nmi && _)) =
        (p.nmiRequested || (!(p.vblank && p.control.nmi) && (p.vblank && _)))
      cases p.vblank <;> cases p.control.nmi <;> simp
  | takeNmi => rfl
  | requestDma page =>
    show p.nmiRequested = (p.nmiRequested || (!p.nmiLine && p.nmiLine))
    cases p.nmiLine <;> simp
  | takeDma =>
    show p.nmiRequested = (p.nmiRequested || (!p.nmiLine && p.nmiLine))
    cases p.nmiLine <;> simp
  | reset => rfl

/-- In every run the interrupt is requested exactly where the line goes up: no act requests it without
    an edge, and none misses one.  Answering hands the request out and ends it. -/
theorem nmi_follows_edge (region : Region) (acts : List (Act γ)) (act : Act γ) :
    (((new region).run acts).perform act).nmiRequested =
        act.latches ((new region).run acts).nmiRequested ((new region).run acts).nmiLine
          (((new region).run acts).perform act).nmiLine ∧
      ((new region).run acts).takeNmi.1 = ((new region).run acts).nmiRequested ∧
      ((new region).run acts).takeNmi.2.nmiRequested = false := by
  refine ⟨?_, rfl, rfl⟩
  exact perform_nmiRequested (quiet_run region acts) (placed_run region acts) act

end Picture

end Famicom
