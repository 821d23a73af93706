/-
  Changing the region in the midst of a picture.

  A change of region takes effect at once.  It keeps the dot and the count of fetched sprites, and a row
  that the new region does not have becomes its last, the row before the first.  So a unit that rests
  below its picture, on a dot where other rows fetch sprites, may find itself on such a row with the count
  of the row before: all eight fetched, and the fetches of this row still to come.

  1. **Course** — what the console may do to a unit, with every change of region made in time.
     `Mistimed` says which are not: from PAL to NTSC, on the rows 261 to 310 and the dots 257 to 316,
     with a count that is ahead of the dot.
  2. **In time** — a change that is not mistimed keeps the pace (`Paced.setRegion`), so along a course
     the unit stays inside its memories (`Course.paced`).
  3. **Mistimed** — the program only has to let the unit draw, and the count is ahead (`Mistimed.ahead`).
     Together: `inside_after_setRegion_iff`.
  4. **A mistimed change** — whatever the cartridge, there is a course to a mistimed change
     (`exists_mistimed`), so not every reachable unit has room for what it fetches
     (`exists_reachable_fault`).
-/
import Famicom.Proofs.Picture.BackgroundFrame
import Famicom.Proofs.Picture.FetchPace

namespace Famicom

namespace Picture

variable {γ : Type} [Cartridge γ] {p s : Picture} {r : Region} {n : Nat}

/-! ## Changes of region that come in time, and that do not -/

/-- Changing to region `r` puts the unit on a row that fetches sprites, on a dot by which fewer are due
    than it has counted. -/
structure Mistimed (p : Picture) (r : Region) : Prop where
  before : p.region = .pal
  after : r = .ntsc
  rows : 261 ≤ p.row.toNat ∧ p.row.toNat < 311
  dots : 257 ≤ p.dot.toNat ∧ p.dot.toNat < 317
  early : due p.dot.toNat < p.sprites.next.toNat

/-- What can become of a picture unit from `s` on if no change of region is mistimed. -/
inductive Course (γ : Type) [Cartridge γ] (s : Picture) : Picture → Prop where
  | refl : Course γ s s
  | tick {p : Picture} (c : γ) : Course γ s p → Course γ s (p.tick c).2.1
  | read {p : Picture} (c : γ) (addr : UInt16) :
      Course γ s p → Course γ s (p.readRegister c addr).2.1
  | write {p : Picture} (c : γ) (addr : UInt16) (data : UInt8) :
      Course γ s p → Course γ s (p.writeRegister c addr data).1
  | setRegion {p : Picture} (region : Region) :
      Course γ s p → ¬ Mistimed p region → Course γ s (p.setRegion region)
  | takeNmi {p : Picture} : Course γ s p → Course γ s p.takeNmi.2
  | requestDma {p : Picture} (page : UInt8) : Course γ s p → Course γ s (p.requestDma page)
  | takeDma {p : Picture} : Course γ s p → Course γ s p.takeDma.2

theorem Course.after (h : Course γ s p) (cart : Nat → γ) (n : Nat) : Course γ s (p.after cart n) := by
  induction n with
  | zero => exact h
  | succ n ih => exact ih.tick (cart n)

/-- A course leads to what is reachable. -/
theorem Course.reachable (h : Course γ s p) (hs : Reachable γ s) : Reachable γ p := by
  induction h with
  | refl => exact hs
  | tick c _ ih => exact ih.tick c
  | read c addr _ ih => exact ih.read c addr
  | write c addr data _ ih => exact ih.write c addr data
  | setRegion region _ _ ih => exact ih.setRegion region
  | takeNmi _ ih => exact ih.takeNmi
  | requestDma page _ ih => exact ih.requestDma page
  | takeDma _ ih => exact ih.takeDma

/-- No count leads out of the memory it is used for, and whatever the cartridge, the next dot has room
    for what it fetches. -/
structure Inside (γ : Type) [Cartridge γ] (p : Picture) : Prop where
  count : p.sprites.count.toNat ≤ 8
  copied : p.evaluation.copied.toNat ≤ 32
  tick (c : γ) : (p.tick c).1 = .ok ()

theorem Paced.inside (h : Paced p) : Inside γ p :=
  ⟨h.fits.count, h.fits.copied, fun c => (h.tick c).1⟩

/-! ## In time -/

theorem setRegion_row (p : Picture) (r : Region) :
    (p.setRegion r).row.toNat = min p.row.toNat r.prerenderRow.toNat := by
  show (if p.row ≤ r.prerenderRow then p.row else r.prerenderRow).toNat = _
  split
  · next hle => exact (Nat.min_eq_left hle).symm
  · next hgt => exact (Nat.min_eq_right (Nat.le_of_not_le hgt)).symm

theorem onDrawnRow_iff :
    p.onDrawnRow = true ↔ p.row.toNat < 240 ∨ p.row.toNat = p.region.prerenderRow.toNat := by
  rw [onDrawnRow, onPrerender, Bool.or_eq_true, decide_eq_true_eq, decide_eq_true_eq,
    ← UInt16.toNat_inj]
  rfl

/-- A change of region that is not mistimed keeps the pace. -/
theorem Paced.setRegion (h : Paced p) (hr : ¬ Mistimed p r) : Paced (p.setRegion r) := by
  have hrow := setRegion_row p r
  have hroom : p.sprites.next.toNat ≤ 8 := h.fits.next
  refine ⟨h.cold, ?_, h.fits, fun hdrawn h1 h2 => ?_⟩
  · rw [hrow]
    exact Nat.min_le_right _ _
  · show p.sprites.next.toNat ≤ due p.dot.toNat
    have h1 : 257 ≤ p.dot.toNat := h1
    have h2 : p.dot.toNat ≤ 320 := h2
    by_cases hold : p.onDrawnRow = true
    · exact h.onTime hold h1 h2
    · -- a row that begins to take part in drawing is one that only PAL has
      have hbound := h.row
      rw [onDrawnRow_iff] at hold hdrawn
      rw [hrow, show (p.setRegion r).region = r from rfl] at hdrawn
      refine Nat.le_of_not_lt fun hlate => hr ?_
      have hdots : p.dot.toNat < 317 := by
        unfold due at hlate
        omega
      cases hp : p.region with
      | ntsc =>
        have hpre : (261 : Nat) ≤ r.prerenderRow.toNat := by cases r <;> decide
        rw [hp, show Region.ntsc.prerenderRow.toNat = 261 from rfl] at hbound hold
        omega
      | pal =>
        rw [hp, show Region.pal.prerenderRow.toNat = 311 from rfl] at hbound hold
        cases hq : r with
        | ntsc =>
          rw [hq, show Region.ntsc.prerenderRow.toNat = 261 from rfl] at hdrawn
          exact ⟨hp, rfl, by omega, ⟨h1, hdots⟩, hlate⟩
        | pal =>
          rw [hq, show Region.pal.prerenderRow.toNat = 311 from rfl] at hdrawn
          omega

theorem Course.paced (h : Course γ s p) (hs : Paced s) : Paced p := by
  induction h with
  | refl => exact hs
  | tick c _ ih => exact (ih.tick c).2
  | read c addr _ ih => exact ih.read c addr
  | write c addr data _ ih => exact ih.write c addr data
  | setRegion region _ hr ih => exact ih.setRegion hr
  | takeNmi _ ih => exact ih.congr rfl ih.fits.copied
  | requestDma page _ ih => exact ih.congr rfl ih.fits.copied
  | takeDma _ ih => exact ih.congr rfl ih.fits.copied

/-! ## Mistimed -/

/-- A mistimed change leaves a unit that is ahead of the dot, once it draws. -/
theorem Mistimed.ahead (h : Mistimed p r) (hp : Paced p) (c : γ) :
    Ahead ((p.setRegion r).writeRegister c 0x2001 0x08).1 p.dot.toNat := by
  obtain ⟨hbefore, rfl, ⟨hrow1, hrow2⟩, ⟨hdot1, hdot2⟩, hearly⟩ := h
  -- a unit that has fetched a sprite is warm, so the mask is written
  have hwarm : p.warmingUp = false := by
    cases hw : p.warmingUp with
    | false => rfl
    | true =>
      rw [hp.cold hw] at hearly
      exact absurd hearly (Nat.not_lt_zero _)
  have hwrite : ((p.setRegion .ntsc).writeRegister c 0x2001 0x08).1 =
      { p.setRegion .ntsc with latch := 0x08, mask := ⟨0x08⟩ } :=
    if_neg (show ¬ p.warmingUp = true by rw [hwarm]; decide)
  have hdrawn : (p.setRegion .ntsc).onDrawnRow = true := by
    rw [onDrawnRow_iff, setRegion_row]
    exact .inr (Nat.min_eq_right hrow1)
  have hdraws : (⟨0x08⟩ : Mask).draws = true := by decide
  have hupper : p.dot.toNat ≤ 316 := Nat.le_of_lt_succ hdot2
  rw [hwrite]
  exact ⟨hwarm, hdraws, hdrawn, UInt16.ofNat_toNat.symm, hdot1, hupper, hearly, hp.fits.next⟩

/-- A mistimed change lets some later dot come to a sprite there is no room for. -/
theorem Mistimed.exists_fault (h : Mistimed p r) (hp : Paced p) (c : γ) :
    ∃ q, Course γ (p.setRegion r) q ∧ (q.tick c).1 = .error .ninthSprite := by
  obtain ⟨n, hn⟩ := (h.ahead hp c).exists_fault c
  exact ⟨_, (Course.refl.write c 0x2001 0x08).after (fun _ => c) n, hn⟩

/-- On a course from power-on the unit is inside its memories, and a change of region keeps it there,
    whatever comes after, if and only if it is not mistimed. -/
theorem inside_after_setRegion_iff (c : γ) {region : Region} (h : Course γ (new region) p) :
    Inside γ p ∧ ((∀ q, Course γ (p.setRegion r) q → Inside γ q) ↔ ¬ Mistimed p r) := by
  have hp := h.paced (.new region)
  refine ⟨hp.inside, fun hinside hlate => ?_, fun hr q hq => ?_⟩
  · obtain ⟨q, hq, hfault⟩ := hlate.exists_fault hp c
    have hok := (hinside q hq).tick c
    rw [hfault] at hok
    cases hok
  · exact (hq.paced (hp.setRegion hr)).inside

/-! ## A mistimed change -/

/-- The unit rests below the rows that are seen, `n` dots after the start of its first row. -/
structure AtRest (p : Picture) (n : Nat) : Prop where
  warm : p.warmingUp = false
  row : p.row = .ofNat (n / 341)
  dot : p.dot = .ofNat (n % 341)
  below : 240 ≤ n / 341
  above : n / 341 < p.region.prerenderRow.toNat

namespace AtRest

/-- Resting, the unit only moves on. -/
theorem next (h : AtRest p n) (hn : (n + 1) / 341 < p.region.prerenderRow.toNat) (c : γ) :
    AtRest (p.tick c).2.1 (n + 1) ∧ (p.tick c).2.1.region = p.region ∧
      (p.tick c).2.1.sprites.next = p.sprites.next := by
  have hpre : p.region.prerenderRow.toNat ≤ 311 := by cases p.region <;> decide
  have hbelow := h.below
  have hnext := idle_nextDot p h.row h.dot h.above
  obtain ⟨hwarm, hregion, hrow, hdot⟩ := tick_place h.warm c
  rw [hnext] at hregion hrow hdot
  have hwork : p.nextDot.atWork = false := by
    refine Bool.eq_false_iff.mpr fun hwork => ?_
    have hdrawn := onDrawnRow_iff.mp (atWork_iff.mp hwork).2
    rw [hnext] at hdrawn
    have hdrawn : (UInt16.ofNat ((n + 1) / 341)).toNat < 240 ∨
        (UInt16.ofNat ((n + 1) / 341)).toNat = p.region.prerenderRow.toNat := hdrawn
    rw [toNat_ofNat_dot (by omega)] at hdrawn
    omega
  have hcount : (p.tick c).2.1.sprites.next = p.nextDot.arrive.sprites.next :=
    congrArg (·.2.1.sprites.next) (tick_at_rest h.warm hwork c)
  refine ⟨⟨hwarm, hrow, hdot, by omega, ?_⟩, hregion, ?_⟩
  · rw [hregion]
    exact hn
  · rw [hcount, arrive_next]
    exact congrArg Tally.next (nextDot_tally p)

theorem after (h : AtRest p n) (cart : Nat → γ) (m : Nat)
    (hm : (n + m) / 341 < p.region.prerenderRow.toNat) :
    AtRest (p.after cart m) (n + m) ∧ (p.after cart m).region = p.region ∧
      (p.after cart m).sprites.next = p.sprites.next := by
  induction m with
  | zero => exact ⟨h, rfl, rfl⟩
  | succ m ih =>
    obtain ⟨hrest, hregion, hcount⟩ := ih (by omega)
    rw [← hregion] at hm
    obtain ⟨hrest', hregion', hcount'⟩ := hrest.next hm (cart m)
    exact ⟨hrest', hregion'.trans hregion, hcount'.trans hcount⟩

end AtRest

/-- A PAL unit that has fetched all sprites of the row before the first. -/
structure Full (p : Picture) : Prop where
  region : p.region = .pal
  row : p.row = 311
  dot : p.dot = 320
  warm : p.warmingUp = false
  next : p.sprites.next = 8

/-- A PAL unit about to draw its first picture, with the background shown. -/
def palUnit : Picture := { warm .pal with latch := 0x08, mask := ⟨0x08⟩ }

theorem palUnit_drawing : Drawing palUnit 0 := by
  have hdraws : palUnit.mask.draws = true := by decide
  exact ⟨rfl, hdraws, rfl, rfl, by decide, fun h => absurd rfl h⟩

/-- It comes there from power-on. -/
theorem exists_full (c : γ) : ∃ p, Course γ (new .pal) p ∧ Full p := by
  obtain ⟨k, hk⟩ := exists_after_warm (fun _ => c) .pal
  have hcourse : Course γ (new .pal) palUnit := by
    refine .write c 0x2001 0x08 (p := warm .pal) ?_
    rw [← hk]
    exact Course.refl.after (fun _ => c) k
  obtain ⟨hat, hsame⟩ := palUnit_drawing.along (fun _ => c) 320 (by decide)
  have hnext : (palUnit.after (fun _ => c) (257 + 63)).sprites.next.toNat = (63 + 4) / 8 :=
    (sprites_next palUnit_drawing 63 (by decide)).2
  rw [show 257 + 63 = 320 from rfl] at hnext
  have hreached := hcourse.after (fun _ => c) 320
  generalize palUnit.after (fun _ => c) 320 = u at hat hsame hnext hreached
  exact ⟨u, hreached, hsame.region, hsame.row, hat.dot, hat.warm, UInt8.toNat_inj.mp hnext⟩

/-- Its region changed and changed back, the unit is on row 261, where nothing is drawn. -/
theorem Full.atRest (h : Full p) :
    AtRest ((p.setRegion .ntsc).setRegion .pal) (341 * 261 + 320) := by
  have hrow : ((p.setRegion .ntsc).setRegion .pal).row = 261 := by
    show min (min p.row 261) 311 = 261
    rw [h.row]
    rfl
  have habove : (341 * 261 + 320) / 341 < Region.pal.prerenderRow.toNat := by decide
  exact ⟨h.warm, hrow, h.dot, by decide, habove⟩

/-- Some change of region is mistimed, although none was before it. -/
theorem exists_mistimed (c : γ) : ∃ p, Course γ (new .pal) p ∧ Mistimed p .ntsc := by
  obtain ⟨p, hcourse, hfull⟩ := exists_full c
  have hback : Course γ (new .pal) ((p.setRegion .ntsc).setRegion .pal) := by
    -- the first change comes on the last row of a picture, the second leads to PAL
    refine (hcourse.setRegion .ntsc fun h => ?_).setRegion .pal fun h => ?_
    · have := h.rows.2
      rw [hfull.row] at this
      exact absurd this (by decide)
    · cases h.after
  -- from there the unit rests up to dot 257 of row 262
  have hbelow : (341 * 261 + 320 + 278) / 341 < Region.pal.prerenderRow.toNat := by decide
  obtain ⟨hrest, hregion, hcount⟩ := hfull.atRest.after (fun _ => c) 278 hbelow
  have hreached := hback.after (fun _ => c) 278
  generalize ((p.setRegion .ntsc).setRegion .pal).after (fun _ => c) 278 = u
    at hrest hregion hcount hreached
  have hrow : u.row = 262 := hrest.row
  have hdot : u.dot = 257 := hrest.dot
  have hnext : u.sprites.next = 8 := hcount.trans hfull.next
  refine ⟨u, hreached, hregion, rfl, ?_, ?_, ?_⟩
  · rw [hrow]
    decide
  · rw [hdot]
    decide
  · rw [hdot, hnext]
    decide

/-- The theorem on the boundary: up to its mistimed change of region a unit is inside its memories. -/
theorem inside_after_setRegion_iff_late :
    ∃ p, Course Nrom (new .pal) p ∧ Mistimed p .ntsc ∧ Inside Nrom p ∧
      ∃ q, Course Nrom (p.setRegion .ntsc) q ∧ ¬ Inside Nrom q := by
  obtain ⟨p, hcourse, hlate⟩ := exists_mistimed solidBoard
  obtain ⟨hinside, hiff⟩ := inside_after_setRegion_iff solidBoard (r := .ntsc) hcourse
  refine ⟨p, hcourse, hlate, hinside, ?_⟩
  by_cases hex : ∃ q, Course Nrom (p.setRegion .ntsc) q ∧ ¬ Inside Nrom q
  · exact hex
  · refine absurd hlate (hiff.mp fun q hq => ?_)
    by_cases hq' : Inside Nrom q
    · exact hq'
    · exact absurd ⟨q, hq, hq'⟩ hex

/-- Not every unit that can be reached has room for the sprite its next dot fetches. -/
theorem exists_reachable_fault :
    ∃ (p : Picture) (c : Nrom), Reachable Nrom p ∧ (p.tick c).1 = .error .ninthSprite := by
  obtain ⟨p, hcourse, hlate⟩ := exists_mistimed solidBoard
  obtain ⟨q, hq, hfault⟩ := hlate.exists_fault (hcourse.paced (.new .pal)) solidBoard
  refine ⟨q, solidBoard, hq.reachable ?_, hfault⟩
  exact (hcourse.reachable (.new .pal)).setRegion .ntsc

end Picture

end Famicom
