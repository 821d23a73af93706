/-
  The search for sprites in closed form, with what it reports of a ninth.

  Once eight sprites are copied the search goes on to see whether there is a ninth, but it counts the byte
  within a sprite up along with the sprite.  So it takes for the top of a sprite what may be any of its
  bytes: sprites that lie on the row go unnoticed, and others are reported though there are no more than
  eight.

  1. **The rule** (`MeetsNinth`): with the eighth sprite at `j`, look number `n` of the search is at byte
     `n % 4` of sprite `j + 1 + n`, up to the last sprite.
  2. **The steps**: `Scanning` leads to itself, to the first look for a ninth (`Hunting`) or to the end of
     sprite memory (`Scanning.leads`); `Hunting` to the next look, to a hit or to the end (`Hunting.next`).
     In the last two cases the report stays as it is (`Decided`).
  3. **The row** (`Reporting`): after 95 steps the report is decided, and the last dot takes the result.

  Together: `sprite_evaluation`.
-/
import Famicom.Proofs.Picture.BackgroundFrame
import Famicom.Proofs.Picture.SpriteSearch

namespace Famicom

/-! ## The eighth sprite -/

section

variable {oam : Vector UInt8 256} {row height s : Nat}

/-- A sprite that lies on the row, after seven that do, is the eighth of all. -/
theorem eighth_of_lies (hs : s < 64) (hseven : (lyingOn oam row height s).length = 7)
    (hl : liesOn oam row height s = true) : (lyingOn oam row height 64)[7]? = some s := by
  have hsucc := lyingOn_succ_of_lies oam row height hl
  have heighth : (lyingOn oam row height (s + 1))[7]? = some s := by
    rw [hsucc, List.getElem?_append_right (Nat.le_of_eq hseven), hseven]
    rfl
  obtain ⟨rest, hrest⟩ := lyingOn_prefix oam row height hs
  rw [← hrest, List.getElem?_append_left, heighth]
  rw [hsucc, List.length_append, hseven, List.length_singleton]
  decide

/-- If there are no eight before the last sprite, none but the last is the eighth. -/
theorem eighth_eq_last (hroom : (lyingOn oam row height 63).length < 8) {j : Nat}
    (hj : (lyingOn oam row height 64)[7]? = some j) : j = 63 := by
  cases hl : liesOn oam row height 63 with
  | false =>
    rw [lyingOn_succ_of_not oam row height hl, List.getElem?_eq_none (by omega)] at hj
    cases hj
  | true =>
    obtain ⟨hlt, -⟩ := List.getElem?_eq_some_iff.mp hj
    rw [lyingOn_succ_of_lies oam row height hl, List.length_append, List.length_singleton] at hlt
    rw [lyingOn_succ_of_lies oam row height hl, List.getElem?_append_right (by omega),
      show 7 - (lyingOn oam row height 63).length = 0 by omega] at hj
    exact (Option.some.inj hj).symm

end

namespace Picture

variable {γ : Type} [Cartridge γ] {cart : Nat → γ} {p q : Picture} {d s b j n : Nat}

/-- A byte, taken for the top of a sprite, puts it on the row of a unit. -/
def puts (p : Picture) (top : UInt8) : Bool := topOn p.row.toNat p.control.spriteHeight.toNat top

/-- The search for a ninth sprite meets a byte that puts one on the row. -/
def MeetsNinth (p : Picture) : Prop :=
  ∃ j, (p.lying 64)[7]? = some j ∧ j < 63 ∧
    ∃ n ≤ 62 - j, p.puts (spriteByte p.oam (j + 1 + n) (n % 4)) = true

theorem puts_congr (hr : q.row = p.row) (hc : q.control = p.control) : q.puts = p.puts := by
  funext top
  rw [puts, puts, hr, hc]

theorem meetsNinth_congr (ho : q.oam = p.oam) (hr : q.row = p.row) (hc : q.control = p.control) :
    q.MeetsNinth ↔ p.MeetsNinth := by
  unfold MeetsNinth
  rw [lying_congr ho hr hc, puts_congr hr hc, ho]

/-! ## Looking for a ninth -/

/-- The unit is about to take look number `n` for a ninth sprite, past the eighth at `j`. -/
structure Hunting (p : Picture) (j n : Nat) : Prop where
  eighth : (p.lying 64)[7]? = some j
  within : j + 1 + n < 64
  full : p.evaluation.copied = 32
  sprite : p.evaluation.sprite = .ofNat (j + 1 + n)
  byte : p.evaluation.byte = .ofNat (n % 4)
  oamAddr : p.oamAddr.toNat = 4 * (j + 1 + n) + n % 4
  finished : p.evaluation.finished = false
  inRange : p.evaluation.inRange = false
  missed : ∀ m < n, p.puts (spriteByte p.oam (j + 1 + m) (m % 4)) = false

/-- Whatever the search still looks at, its report stays as it is. -/
def Decided (p : Picture) : Prop :=
  p.evaluation.finished = true ∨ (p.evaluation.copied = 32 ∧ p.overflow = true)

theorem Decided.next (h : Decided p) (hq : q.search = p.evaluateByte.search.address) :
    Decided q ∧ q.overflow = p.overflow := by
  have hover : q.overflow = p.evaluateByte.overflow := congrArg Search.overflow hq
  have heval : q.evaluation = p.evaluateByte.evaluation := congrArg Search.evaluation hq
  rw [Decided, hover, heval]
  unfold Picture.evaluateByte
  dsimp only
  by_cases hfin : p.evaluation.finished = true
  · rw [if_pos hfin]
    exact ⟨.inl hfin, rfl⟩
  · obtain ⟨hfull, hset⟩ := h.resolve_left hfin
    have hnot : ¬ p.evaluation.copied.toNat < 32 := by
      rw [hfull]
      decide
    rw [if_neg hfin, dif_neg hnot]
    have hkept := (afterFull_kept { p.evaluation with
      inRange := p.evaluation.inRange || p.bufferOnRow
      buffer := p.readSecondary p.evaluation.copied }).1
    dsimp only at hkept ⊢
    rw [hset, Bool.true_or, hkept]
    exact ⟨.inr ⟨hfull, rfl⟩, rfl⟩

theorem Decided.tookSearch (h : Decided p) : Decided p.tookSearch := h

/-- What a look for a ninth sprite leads to. -/
def HuntEnds (q : Picture) (j n : Nat) (reported : Bool) : Prop :=
  (Decided q ∧ (q.overflow = true ↔ reported = true ∨ q.MeetsNinth)) ∨
    (Hunting q j (n + 1) ∧ q.overflow = reported)

theorem nextByte (n : Nat) : (UInt8.ofNat (n % 4) + 1) &&& 0x03 = .ofNat ((n + 1) % 4) := by
  rw [← UInt8.toNat_inj, UInt8.toNat_and, UInt8.toNat_add, UInt8.toNat_ofNat', UInt8.toNat_ofNat']
  show (n % 4 % 256 + 1) % 256 &&& 2 ^ 2 - 1 = _
  rw [Nat.and_two_pow_sub_one_eq_mod]
  omega

/-- With the room full, a look at a byte reports what it means for the row and moves on. -/
theorem Hunting.evaluateByte (h : Hunting p j n)
    (hbuf : p.evaluation.buffer = spriteByte p.oam (j + 1 + n) (n % 4)) :
    p.evaluateByte.search =
      { p.search with
        overflow := p.overflow || p.puts (spriteByte p.oam (j + 1 + n) (n % 4))
        evaluation := { p.evaluation with
          inRange := p.puts (spriteByte p.oam (j + 1 + n) (n % 4))
          buffer := p.readSecondary p.evaluation.copied }.afterFull } := by
  have hput : (p.evaluation.inRange || p.bufferOnRow) =
      p.puts (spriteByte p.oam (j + 1 + n) (n % 4)) := by
    rw [h.inRange, Bool.false_or, bufferOnRow_eq, hbuf]
    rfl
  have hfull : ¬ p.evaluation.copied.toNat < 32 := by
    rw [h.full]
    decide
  unfold Picture.evaluateByte
  dsimp only
  rw [if_neg (by rw [h.finished]; decide), dif_neg hfull, hput]
  rfl

/-- A look at a byte: it puts a sprite on the row, which is reported, or the search goes on. -/
theorem Hunting.next (h : Hunting p j n)
    (hbuf : p.evaluation.buffer = spriteByte p.oam (j + 1 + n) (n % 4))
    (hq : q.search = p.evaluateByte.search.address) (hrow : q.row = p.row)
    (hctl : q.control = p.control) : HuntEnds q j n p.overflow := by
  rw [h.evaluateByte hbuf] at hq
  have hwithin := h.within
  have hoam : q.oam = p.oam := congrArg Search.oam hq
  have hover : q.overflow = (p.overflow || _) := congrArg Search.overflow hq
  have heval : q.evaluation = Evaluation.afterFull _ := congrArg Search.evaluation hq
  have haddr : q.oamAddr = q.evaluation.oamAddr :=
    (congrArg Search.oamAddr hq).trans (congrArg Evaluation.oamAddr heval.symm)
  have heighth : (q.lying 64)[7]? = some j := by
    rw [lying_congr hoam hrow hctl]
    exact h.eighth
  have hputs := puts_congr hrow hctl
  cases hit : p.puts (spriteByte p.oam (j + 1 + n) (n % 4)) with
  | true =>
    rw [hit] at hover heval
    have hset : q.overflow = true := hover.trans (Bool.or_true _)
    have hfull : q.evaluation.copied = 32 := by
      rw [heval, (afterFull_kept _).1]
      exact h.full
    have hmeets : q.MeetsNinth :=
      ⟨j, heighth, by omega, n, by omega, by rw [hputs, hoam]; exact hit⟩
    exact .inl ⟨.inr ⟨hfull, hset⟩, fun _ => .inr hmeets, fun _ => hset⟩
  | false =>
    rw [hit] at hover heval
    have hsame : q.overflow = p.overflow := hover.trans (Bool.or_false _)
    have hmissed : ∀ m < n + 1, q.puts (spriteByte q.oam (j + 1 + m) (m % 4)) = false := by
      intro m hm
      rw [hputs, hoam]
      rcases Nat.lt_succ_iff_lt_or_eq.mp hm with hm | rfl
      · exact h.missed m hm
      · exact hit
    have hstep : q.evaluation = Evaluation.nextSpriteOrEnd _ := heval.trans (if_neg Bool.false_ne_true)
    by_cases hlast : j + 1 + n = 63
    · -- the last sprite is passed without a hit, so no look meets a ninth
      have hsprite : p.evaluation.sprite = .ofNat 63 := hlast ▸ h.sprite
      replace hstep := hstep.trans (nextSpriteOrEnd_last hsprite)
      have hnot : ¬ q.MeetsNinth := by
        rintro ⟨j', hj', -, m, hm, hput⟩
        obtain rfl : j = j' := Option.some.inj (heighth.symm.trans hj')
        rw [hmissed m (by omega)] at hput
        cases hput
      refine .inl ⟨.inl (by rw [hstep]), ?_⟩
      rw [hsame]
      exact ⟨.inl, fun h => h.resolve_right hnot⟩
    · replace hstep := hstep.trans (nextSpriteOrEnd_of_lt h.sprite (by omega))
      have hsprite : q.evaluation.sprite = .ofNat (j + 1 + (n + 1)) := by
        rw [hstep]
        rfl
      have hbyte : q.evaluation.byte = .ofNat ((n + 1) % 4) := by
        rw [hstep, ← nextByte, ← h.byte]
      refine .inr ⟨⟨heighth, by omega, ?_, hsprite, hbyte, ?_, ?_, ?_, hmissed⟩, hsame⟩
      · rw [hstep]
        exact h.full
      · rw [haddr, oamAddr_toNat hsprite hbyte (by omega) (Nat.mod_lt _ (by decide))]
      · rw [hstep]
        exact h.finished
      · rw [hstep]

/-! ## From the eighth sprite on -/

theorem nextSpriteOrEnd_finished {e : Evaluation} (he : e.sprite = .ofNat s) (hs : s < 63) :
    e.nextSpriteOrEnd.finished = e.finished := by
  rw [nextSpriteOrEnd_of_lt he hs]

/-- Before the last sprite a copied byte does not end the search. -/
theorem afterCopy_finished {e : Evaluation} (he : e.sprite = .ofNat s) (hs : s < 63) :
    e.afterCopy.finished = e.finished := by
  unfold Evaluation.afterCopy
  dsimp only
  split
  · split
    · exact nextSpriteOrEnd_finished he hs
    · rfl
  · exact nextSpriteOrEnd_finished he hs

theorem Stepped.finished (h : Stepped p q s n) (hsprite : p.evaluation.sprite = .ofNat s)
    (hs : s < 63) : q.evaluation.finished = p.evaluation.finished := by
  rw [h.evaluation]
  exact afterCopy_finished hsprite hs

/-- The step that fills the room has copied the last byte of the eighth sprite. -/
theorem Scanning.eighth (h : Scanning p s b)
    (hstep : Stepped p q s (4 * (p.lying s).length + b + 1)) (hfull : q.evaluation.copied = 32)
    (hfin : q.evaluation.finished = false) :
    Hunting q s 0 ∧ b = 3 ∧ (p.lying s).length = 7 := by
  have hs := h.sprite_lt
  have hb := h.byte_lt
  have hroom := h.room
  have hcopied := h.copied
  have hnext := h.copied_add_one
  have heval := hstep.evaluation
  have hfull : q.evaluation.copied.toNat = 32 := congrArg UInt8.toNat hfull
  cases hl : liesOn p.oam p.row.toNat p.control.spriteHeight.toNat s with
  | false =>
    -- nothing is counted of a sprite off the row
    rw [hl, afterCopy_off rfl] at heval
    have hlt := h.copied_lt
    rw [heval, nextSpriteOrEnd_copied] at hfull
    dsimp only at hfull
    omega
  | true =>
    rw [hl] at heval
    by_cases h3 : b = 3
    · subst h3
      replace heval := heval.trans (afterCopy_last rfl
        (by show (p.evaluation.copied.toNat + 1) % 4 = 0; omega))
      have hseven : (p.lying s).length = 7 := by
        rw [heval, nextSpriteOrEnd_copied] at hfull
        dsimp only at hfull
        omega
      have hlast : s < 63 := by
        refine Nat.lt_of_le_of_ne (Nat.le_of_lt_succ hs) fun hlast => ?_
        have hsprite : p.evaluation.sprite = .ofNat 63 := hlast ▸ h.sprite
        replace heval := heval.trans (nextSpriteOrEnd_last hsprite)
        rw [heval] at hfin
        cases hfin
      replace heval := heval.trans (nextSpriteOrEnd_of_lt h.sprite hlast)
      have hsprite : q.evaluation.sprite = .ofNat (s + 1 + 0) := by
        rw [heval]
      have hbyte : q.evaluation.byte = .ofNat (0 % 4) := by
        rw [heval]
        rfl
      refine ⟨⟨?_, by omega, UInt8.toNat_inj.mp hfull, hsprite, hbyte, ?_, hfin, ?_,
        fun m hm => absurd hm (Nat.not_lt_zero m)⟩, rfl, hseven⟩
      · rw [hstep.lying]
        exact eighth_of_lies hs hseven hl
      · rw [hstep.oamAddr, oamAddr_toNat hsprite hbyte (by omega) (by decide)]
      · rw [heval]
    · replace heval := heval.trans (afterCopy_within rfl
        (by show (p.evaluation.copied.toNat + 1) % 4 ≠ 0; omega))
      rw [heval] at hfull
      dsimp only at hfull
      omega

/-- What a step of the scan leads to: one byte on, the first look for a ninth sprite, or the end of
    sprite memory. -/
def ScanLeads (p q : Picture) (s b : Nat) : Prop :=
  (∃ s' b', Scanning q s' b' ∧
      s' + 3 * (q.lying s').length + b' = s + 3 * (p.lying s).length + b + 1) ∨
    (Hunting q s 0 ∧ b = 3 ∧ (p.lying s).length = 7) ∨
    (q.evaluation.finished = true ∧ ¬ q.MeetsNinth)

theorem Scanning.leads (h : Scanning p s b) (hbuf : p.evaluation.buffer = spriteByte p.oam s b)
    (hq : q.search = p.evaluateByte.search.address) (hrow : q.row = p.row)
    (hctl : q.control = p.control) : ScanLeads p q s b ∧ q.overflow = p.overflow := by
  have hstep := h.stepped hbuf hq hrow hctl
  constructor
  · rcases h.next hbuf hq hrow hctl with hsearched | hscan
    · cases hfin : q.evaluation.finished with
      | true =>
        have hlast : s = 63 := by
          refine Decidable.byContradiction fun hne => ?_
          have hlt := h.sprite_lt
          rw [hstep.finished h.sprite (by omega), h.finished] at hfin
          cases hfin
        subst hlast
        refine .inr (.inr ⟨hfin, ?_⟩)
        rintro ⟨j, hj, hlt, -⟩
        rw [hstep.lying] at hj
        have hlast := eighth_eq_last h.room hj
        omega
      | false =>
        have hnot : ¬ q.evaluation.finished = true := by
          rw [hfin]
          decide
        exact .inr (.inl (h.eighth hstep (hsearched.through.resolve_left hnot) hfin))
    · exact .inl hscan
  · rw [h.evaluateByte hbuf h.copied_lt] at hq
    exact congrArg Search.overflow hq

/-! ## The whole row -/

/-- Reading a byte changes nothing but the buffer. -/
theorem Hunting.read (h : Hunting p j n) {buffer : UInt8}
    (hq : q.search = { p.search with evaluation := { p.evaluation with buffer } })
    (hrow : q.row = p.row) (hctl : q.control = p.control) : Hunting q j n := by
  cases p
  cases q
  cases hq; cases hrow; cases hctl
  exact ⟨h.eighth, h.within, h.full, h.sprite, h.byte, h.oamAddr, h.finished, h.inRange, h.missed⟩

/-- After `k` steps, of which the first found the flag of a ninth sprite as `reported`, the flag is
    decided, or the byte to be looked at next is read: for a sprite of the row, or for a ninth. -/
inductive Reporting (reported : Bool) (p : Picture) (k : Nat) : Prop
  | scanning {s b : Nat} : Scanning p s b → p.evaluation.buffer = spriteByte p.oam s b →
      s + 3 * (p.lying s).length + b = k → p.overflow = reported → Reporting reported p k
  | hunting {j n : Nat} : Hunting p j n →
      p.evaluation.buffer = spriteByte p.oam (j + 1 + n) (n % 4) → j + 25 + n = k →
      p.overflow = reported → Reporting reported p k
  | decided : Decided p → (p.overflow = true ↔ reported = true ∨ p.MeetsNinth) →
      Reporting reported p k

/-- A step of the search is two dots: one looks at a byte, one reads the next. -/
theorem Reporting.next {reported : Bool} {k : Nat} (h : Reporting reported p k) (hk : k < 95)
    (hd : Drawing p (65 + 2 * k)) (hv : p.onPrerender = false) :
    Reporting reported (p.after cart 2) (k + 1) := by
  have hbound := Drawing.le_rowDots p
  have hr := hd.sameRow_next (by omega) (cart 0)
  have hd' := hd.next (by omega) (cart 0)
  have hq := search_look hd (by omega) (by omega) (by omega) hv (cart 0)
  rw [after_succ, after_succ]
  show Reporting reported (((p.tick (cart 0)).2.1).tick (cart 1)).2.1 (k + 1)
  generalize (p.tick (cart 0)).2.1 = q at hr hd' hq
  have hbound' := Drawing.le_rowDots q
  have hr' := hd'.sameRow_next (by omega) (cart 1)
  have hread := search_read hd' (by omega) (by omega) (by omega) (hr.onPrerender.trans hv) (cart 1)
  have hover : (q.tick (cart 1)).2.1.overflow = q.overflow := congrArg Search.overflow hread
  have hoam : (q.tick (cart 1)).2.1.oam = q.oam := congrArg Search.oam hread
  have hbuffer : (q.tick (cart 1)).2.1.evaluation.buffer = q.readOam q.oamAddr :=
    congrArg (·.evaluation.buffer) hread
  have hlying := lying_congr hoam hr'.row hr'.control
  have hmeets := meetsNinth_congr hoam hr'.row hr'.control
  -- what the look has led to, once the next byte is read
  have decided (hq : Decided q) : Decided (q.tick (cart 1)).2.1 := by
    rcases hq with hfin | ⟨hfull, hset⟩
    · exact .inl ((congrArg (·.evaluation.finished) hread).trans hfin)
    · exact .inr ⟨(congrArg (·.evaluation.copied) hread).trans hfull, hover.trans hset⟩
  have hunting {j n : Nat} (hq : Hunting q j n) (hover' : q.overflow = reported)
      (hcount : j + 25 + n = k + 1) : Reporting reported (q.tick (cart 1)).2.1 (k + 1) := by
    refine .hunting (hq.read hread hr'.row hr'.control) ?_ hcount (hover.trans hover')
    rw [hbuffer, hoam]
    exact readOam_eq hq.oamAddr
  cases h with
  | scanning h hbuf hcount hsame =>
    obtain ⟨hleads, hkept⟩ := h.leads hbuf hq hr.row hr.control
    rcases hleads with ⟨s', b', hscan, hstep⟩ | ⟨hhunt, hb, hseven⟩ | ⟨hfin, hnot⟩
    · refine .scanning (hscan.read hread hr'.row hr'.control) ?_ ?_
        (hover.trans (hkept.trans hsame))
      · rw [hbuffer, hoam]
        exact readOam_eq hscan.oamAddr
      · rw [hlying]
        omega
    · exact hunting hhunt (hkept.trans hsame) (by omega)
    · refine .decided (decided (.inl hfin)) ?_
      rw [hover, hkept, hsame, hmeets]
      exact ⟨.inl, fun h => h.resolve_right hnot⟩
  | hunting h hbuf hcount hsame =>
    rcases h.next hbuf hq hr.row hr.control with ⟨hdecided, hiff⟩ | ⟨hhunt, hkept⟩
    · refine .decided (decided hdecided) ?_
      rw [hover, hmeets, ← hsame]
      exact hiff
    · exact hunting hhunt (hkept.trans hsame) (by omega)
  | decided h hiff =>
    obtain ⟨hdecided, hkept⟩ := h.next hq
    have hsame : q.oam = p.oam := (congrArg Search.oam hq).trans (evaluateByte_kept p).1
    refine .decided (decided hdecided) ?_
    rw [hover, hkept, hmeets, meetsNinth_congr hsame hr.row hr.control]
    exact hiff

/-- After 95 steps it is decided. -/
theorem Reporting.done {reported : Bool} (h : Reporting reported p 95) :
    Decided p ∧ (p.overflow = true ↔ reported = true ∨ p.MeetsNinth) := by
  cases h with
  | scanning h hbuf hcount hsame =>
    have := h.sprite_lt
    have := h.byte_lt
    have := h.room
    omega
  | hunting h hbuf hcount hsame =>
    have := h.within
    omega
  | decided h hiff => exact ⟨h, hiff⟩

theorem search_reporting (h : Drawing p 0) (hv : p.onPrerender = false)
    (h0 : (p.after cart 65).oamAddr = 0) (k : Nat) (hk : k ≤ 95) :
    Reporting p.overflow (p.after cart (65 + 2 * k)) k := by
  have hbound := Drawing.le_rowDots p
  induction k with
  | zero =>
    have hbefore := (seen_before h hv cart 65 (Nat.le_refl _)).2
    obtain ⟨hd, hr⟩ := h.along cart 64 (by omega)
    rw [after_succ _ _ 64] at h0 hbefore
    rw [Nat.mul_zero, Nat.add_zero, after_succ _ _ 64]
    obtain ⟨hscan, hbuf⟩ := scanning_start hd (hr.onPrerender.trans hv) (cart 64) h0
    exact .scanning hscan hbuf rfl hbefore
  | succ k ih =>
    obtain ⟨hd, hr⟩ := h.along cart (65 + 2 * k) (by omega)
    rw [show 65 + 2 * (k + 1) = 65 + 2 * k + 2 by omega, after_add]
    exact (ih (by omega)).next hk hd (hr.onPrerender.trans hv)

/-- When the search is over, the flag is set if it was, or if the search met a ninth sprite. -/
theorem search_overflow (h : Drawing p 0) (hv : p.onPrerender = false)
    (h0 : (p.after cart 65).oamAddr = 0) :
    (p.after cart 256).overflow = true ↔ p.overflow = true ∨ p.MeetsNinth := by
  have hbound := Drawing.le_rowDots p
  obtain ⟨hd, hr⟩ := h.along cart 255 (by omega)
  have hoam := (seen_kept h hv cart 255 (by decide)).1
  have hall := search_reporting h hv h0 95 (by decide)
  rw [show 65 + 2 * 95 = 255 by decide] at hall
  -- the last dot takes what was found, which the report does not depend on
  have hend := search_end hd (hr.onPrerender.trans hv) (cart 255)
  rw [after_succ _ _ 255]
  generalize p.after cart 255 = q at hr hoam hall hend ⊢
  obtain ⟨hdecided, hiff⟩ := hall.done
  rw [(hdecided.tookSearch.next hend).2]
  show q.overflow = true ↔ _
  exact hiff.trans (or_congr_right (meetsNinth_congr hoam hr.row hr.control))

/-- What the search on the row of `p` leaves in `q`. -/
structure Evaluated (p q : Picture) : Prop where
  /-- It has counted the sprites of the row, up to eight. -/
  count : q.sprites.count.toNat = min 8 (p.lying 64).length
  /-- It has copied the first eight of them in order. -/
  stored : ∀ k (hk : k < (p.lying 64).length) b (_ : k < 8) (_ : b < 4),
    q.secondaryOam[4 * k + b] = spriteByte p.oam (p.lying 64)[k] b
  /-- It tells whether the first sprite of all is one of them. -/
  hasFirst : q.sprites.hasFirst = true ↔
    liesOn p.oam p.row.toNat p.control.spriteHeight.toNat 0 = true
  /-- It reports a ninth if the diagonal scan past the eighth meets one. -/
  overflow : q.overflow = true ↔ p.overflow = true ∨ p.MeetsNinth

/-- On a row that is seen, while the unit draws and nothing is done to it, the search finds the first eight
    sprites that lie on the row, and reports a ninth exactly if the scan that counts bytes and sprites up
    together meets a byte that would put one there. -/
theorem sprite_evaluation (hw : p.warmingUp = false) (hm : p.mask.draws = true)
    (hrow : p.row.toNat < 240) (hdot : p.dot = 0) (cart : Nat → γ)
    (h0 : (p.after cart 65).oamAddr = 0) :
    (∀ n < 256, ((p.after cart n).tick (cart n)).1 = .ok ()) ∧
      Evaluated p (p.after cart 256) := by
  have h : Drawing p 0 := .of_seen hw hm hrow hdot
  have hv : p.onPrerender = false := Drawing.not_prerender (Nat.le_of_lt hrow)
  have hbound := Drawing.le_rowDots p
  have hfound := (search_found h hv h0).1
  have hlen : p.chosen.length = min 8 (p.lying 64).length := List.length_take
  constructor
  · intro n hn
    exact row_ok h cart n (by omega)
  · constructor
    · rw [hfound.count, hlen]
    · intro k hk b h8 hb
      have hget : p.chosen.getD k 0 = (p.lying 64)[k] := by
        rw [List.getD_eq_getElem?_getD, chosen, Famicom.chosen, List.getElem?_take_of_lt h8,
          ← lying, List.getElem?_eq_getElem hk]
        rfl
      rw [hfound.stored (4 * k + b) (by omega) (by omega), show (4 * k + b) / 4 = k by omega,
        show (4 * k + b) % 4 = b by omega, hget]
    · exact hfound.hasFirst.trans zero_mem_chosen
    · exact search_overflow h hv h0

/-- A row of eight sprites; the tile of another is numbered like their top. -/
def crowdedRow : Picture :=
  { warm .ntsc with
    row := 20
    mask := ⟨0x18⟩
    oam := .ofFn fun i => if (i.val < 32 ∧ i.val % 4 = 0) ∨ i.val = 37 then 20 else 255 }

theorem sprite_evaluation_crowded :
    crowdedRow.warmingUp = false ∧ crowdedRow.mask.draws = true ∧ crowdedRow.row.toNat < 240 ∧
      crowdedRow.dot = 0 ∧ (crowdedRow.after (fun _ => solidBoard) 65).oamAddr = 0 ∧
      crowdedRow.lying 64 = [0, 1, 2, 3, 4, 5, 6, 7] ∧
      (crowdedRow.after (fun _ => solidBoard) 256).sprites.count.toNat = 8 ∧
      (crowdedRow.after (fun _ => solidBoard) 256).overflow = true := by
  have hd : Drawing crowdedRow 0 := .of_seen rfl rfl (by decide) rfl
  have h65 : (crowdedRow.after (fun _ => solidBoard) 65).oamAddr = 0 :=
    (seen_before hd rfl (fun _ => solidBoard) 65 (by decide)).1
  have height : crowdedRow.lying 64 = [0, 1, 2, 3, 4, 5, 6, 7] := by decide +kernel
  obtain ⟨-, hq⟩ := sprite_evaluation rfl rfl (by decide) rfl (fun _ => solidBoard) h65
  refine ⟨rfl, rfl, by decide, rfl, h65, height, ?_, ?_⟩
  · rw [hq.count, height]
    rfl
  · -- the second look for a ninth takes the number of the tile for a top
    refine hq.overflow.mpr (.inr ⟨7, ?_, by decide, 1, by decide, ?_⟩)
    · rw [height]
      rfl
    · decide +kernel

end Picture

end Famicom
