/-
  What is done to a picture unit of one region, act by act, and where it comes to stand.

  1. **Acts** (`Act`, `run`): a dot, a register read or written, a request taken or made, a reset.  What
     every act keeps holds after every run (`run_inv`); the region is kept, and the unit stays reachable
     and keeps pace (`reachable_run`, `paced_run`).
  2. **Place** (`Placed`): the unit stands on a dot and a row that the region has, or before the first
     dot of all, and its count of the time after power-on does not pass its limit.
  3. **Progress** (`exists_eve`): left to itself, a unit gets warm, and comes to the dot before vertical
     blank.  While it is cold the count goes up; afterwards each dot is one nearer to the end of the
     picture, and from its start to vertical blank.
-/
import Famicom.Proofs.Picture.Signals

namespace Famicom

namespace Picture

variable {γ : Type} [Cartridge γ] {p : Picture}

/-! ## Acts -/

omit [Cartridge γ] in
/-- What is done to a picture unit, with the cartridge as it is then. -/
inductive Act (γ : Type) where
  | tick (cartridge : γ)
  | read (cartridge : γ) (addr : UInt16)
  | write (cartridge : γ) (addr : UInt16) (data : UInt8)
  | takeNmi
  | requestDma (page : UInt8)
  | takeDma
  | reset

/-- The unit after an act. -/
def perform (p : Picture) : Act γ → Picture
  | .tick c => (p.tick c).2.1
  | .read c addr => (p.readRegister c addr).2.1
  | .write c addr data => (p.writeRegister c addr data).1
  | .takeNmi => p.takeNmi.2
  | .requestDma page => p.requestDma page
  | .takeDma => p.takeDma.2
  | .reset => p.reset

/-- The unit after one act after the other. -/
def run (p : Picture) (acts : List (Act γ)) : Picture := acts.foldl perform p

/-- Acts are done one after the other. -/
theorem run_append (p : Picture) (acts more : List (Act γ)) :
    p.run (acts ++ more) = (p.run acts).run more :=
  List.foldl_append

/-- The last act comes after the others. -/
theorem run_concat (p : Picture) (acts : List (Act γ)) (act : Act γ) :
    p.run (acts ++ [act]) = (p.run acts).perform act :=
  p.run_append acts [act]

/-- What every act keeps holds after every run. -/
theorem run_inv {P : Picture → Prop} (hstep : ∀ p (act : Act γ), P p → P (p.perform act))
    (acts : List (Act γ)) (h : P p) : P (p.run acts) := by
  induction acts generalizing p with
  | nil => exact h
  | cons act acts ih => exact ih (hstep p act h)

/-- A run that only lets time pass. -/
theorem run_ticks (p : Picture) (c : γ) (n : Nat) :
    p.run (List.replicate n (.tick c)) = p.after (fun _ => c) n := by
  induction n with
  | zero => rfl
  | succ n ih =>
    rw [List.replicate_succ', run_concat, ih]
    rfl

theorem nextDot_region (p : Picture) : p.nextDot.region = p.region := by
  unfold nextDot
  split
  · split
    · rfl
    · rfl
  · rfl

theorem warmUp_region (p : Picture) : p.warmUp.region = p.region := by
  unfold warmUp
  split
  · rfl
  · rfl

/-- A dot does not switch the region. -/
theorem tick_region (p : Picture) (c : γ) : (p.tick c).2.1.region = p.region := by
  cases hw : p.warmingUp with
  | true =>
    rw [tick_warmingUp p c hw]
    exact (warmUp_region _).trans (nextDot_region p)
  | false => exact (tick_place hw c).2.1.trans (nextDot_region p)

theorem readRegister_region (p : Picture) (c : γ) (addr : UInt16) :
    (p.readRegister c addr).2.1.region = p.region :=
  congrArg Engine.region (readRegister_engine p c addr)

theorem writeRegister_region (p : Picture) (c : γ) (addr : UInt16) (data : UInt8) :
    (p.writeRegister c addr data).1.region = p.region :=
  congrArg Engine.region (writeRegister_engine p c addr data)

/-- No act switches it. -/
theorem perform_region (p : Picture) (act : Act γ) : (p.perform act).region = p.region := by
  cases act with
  | tick c => exact tick_region p c
  | read c addr => exact readRegister_region p c addr
  | write c addr data => exact writeRegister_region p c addr data
  | takeNmi => rfl
  | requestDma page => rfl
  | takeDma => rfl
  | reset => rfl

/-- So a run stays in the region of its power-on. -/
theorem run_region (region : Region) (acts : List (Act γ)) :
    ((new region).run acts).region = region :=
  run_inv (P := fun p => p.region = region) (fun p act h => (perform_region p act).trans h) acts rfl

/-- Every act is among the things a console does. -/
theorem Reachable.perform (h : Reachable γ p) (act : Act γ) : Reachable γ (p.perform act) := by
  cases act with
  | tick c => exact h.tick c
  | read c addr => exact h.read c addr
  | write c addr data => exact h.write c addr data
  | takeNmi => exact h.takeNmi
  | requestDma page => exact h.requestDma page
  | takeDma => exact h.takeDma
  | reset => exact .new p.region

theorem reachable_run (region : Region) (acts : List (Act γ)) :
    Reachable γ ((new region).run acts) :=
  run_inv (fun _ act h => h.perform act) acts (.new region)

/-- Every act keeps the unit in step. -/
theorem Paced.perform (h : Paced p) (act : Act γ) : Paced (p.perform act) := by
  cases act with
  | tick c => exact (h.tick c).2
  | read c addr => exact h.read c addr
  | write c addr data => exact h.write c addr data
  | takeNmi => exact h.congr rfl h.fits.copied
  | requestDma page => exact h.congr rfl h.fits.copied
  | takeDma => exact h.congr rfl h.fits.copied
  | reset => exact .new p.region

/-- So every run is in step. -/
theorem paced_run (region : Region) (acts : List (Act γ)) : Paced ((new region).run acts) :=
  run_inv (fun _ act h => h.perform act) acts (.new region)

/-! ## Place -/

/-- The unit stands on a dot of a row that the region has, or before the first of all, and has not
    counted past the time after power-on. -/
structure Placed (p : Picture) : Prop where
  dot : p.dot.toNat ≤ 340 ∨ (p.dot = 0xFFFF ∧ p.row = 0)
  row : p.row.toNat ≤ p.region.prerenderRow.toNat
  count : p.warmUpCount ≤ p.region.warmUpDots

theorem prerenderRow_le (r : Region) : r.prerenderRow.toNat ≤ 311 := by cases r <;> decide

/-- The next dot is one that rows have. -/
theorem nextDot_dot (h : Placed p) : p.nextDot.dot.toNat ≤ 340 := by
  unfold nextDot
  split
  · split
    · exact Nat.zero_le _
    · exact Nat.zero_le _
  · next hc =>
    have hne : p.dot.toNat ≠ 340 := fun e => by
      rw [show p.dot = lastDot from UInt16.toNat_inj.mp e] at hc
      exact hc rfl
    show (p.dot + 1).toNat ≤ 340
    rcases h.dot with hd | ⟨hd, -⟩
    · rw [UInt16.toNat_add]
      show (_ + 1) % 65536 ≤ _
      omega
    · rw [hd]
      decide

namespace Placed

/-- A new unit stands before its first dot and has counted nothing. -/
theorem new (region : Region) : Placed (new region) :=
  ⟨.inr ⟨rfl, rfl⟩, Nat.zero_le _, Nat.zero_le _⟩

/-- Nothing else of the unit matters. -/
theorem congr {q : Picture} (h : Placed p) (he : q.engine = p.engine) : Placed q := by
  have region : q.region = p.region := congrArg Engine.region he
  have row : q.row = p.row := congrArg Engine.row he
  have dot : q.dot = p.dot := congrArg Engine.dot he
  have count : q.warmUpCount = p.warmUpCount := congrArg Engine.warmUpCount he
  constructor
  · rw [dot, row]
    exact h.dot
  · rw [row, region]
    exact h.row
  · rw [count, region]
    exact h.count

/-- A dot leads from a place to a place. -/
theorem tick (h : Placed p) (c : γ) : Placed (p.tick c).2.1 := by
  have hdot := nextDot_dot h
  have hrow := nextDot_row h.row
  cases hw : p.warmingUp with
  | true =>
    have hcount := h.count
    have hsame : p.nextDot.warmUpCount = p.warmUpCount :=
      congrArg Signals.warmUpCount (nextDot_signals p)
    have hregion := nextDot_region p
    rw [tick_warmingUp p c hw]
    unfold warmUp
    split
    · exact ⟨.inl hdot, hrow, Nat.zero_le _⟩
    · next hne =>
      refine ⟨.inl hdot, hrow, ?_⟩
      show p.nextDot.warmUpCount + 1 ≤ p.nextDot.region.warmUpDots
      rw [hsame, hregion] at hne ⊢
      omega
  | false =>
    obtain ⟨-, hregion, hrow', hdot'⟩ := tick_place hw c
    refine ⟨.inl ?_, ?_, ?_⟩
    · rw [hdot']
      exact hdot
    · rw [hrow', hregion]
      exact hrow
    · have hcount : (p.tick c).2.1.warmUpCount = p.warmUpCount := by
        have hs : ∀ s : Signals, s.beginVblank.warmUpCount = s.warmUpCount := fun s => by
          unfold Signals.beginVblank
          split
          · rfl
          · rfl
        have ht := congrArg Signals.warmUpCount (tick_signals hw c)
        refine ht.trans ?_
        split
        · exact hs _
        · split
          · rfl
          · rfl
      rw [hcount, tick_region]
      exact h.count

theorem perform (h : Placed p) (act : Act γ) : Placed (p.perform act) := by
  cases act with
  | tick c => exact h.tick c
  | read c addr => exact h.congr (readRegister_engine p c addr)
  | write c addr data => exact h.congr (writeRegister_engine p c addr data)
  | takeNmi => exact h.congr rfl
  | requestDma page => exact h.congr rfl
  | takeDma => exact h.congr rfl
  | reset => exact .new p.region

end Placed

/-- Wherever a run ends, the unit is at a place of its raster. -/
theorem placed_run (region : Region) (acts : List (Act γ)) : Placed ((new region).run acts) :=
  run_inv (fun _ act h => h.perform act) acts (.new region)

/-! ## From dot to dot -/

/-- Where the unit stands, counted in dots from the start of the picture. -/
def place (p : Picture) : Nat := 341 * p.row.toNat + p.dot.toNat

/-- The next dot is one further on, but at the end of the picture it is the first. -/
theorem place_nextDot (h : Placed p) (hd : p.dot.toNat ≤ 340) :
    p.nextDot.place = p.place + 1 ∨
      (p.nextDot.place = 0 ∧ 341 * p.region.prerenderRow.toNat + 339 ≤ p.place) := by
  have hpre := prerenderRow_le p.region
  have hrow := h.row
  unfold nextDot
  split
  · next hlast =>
    have hend : 339 ≤ p.dot.toNat ∧ (p.onPrerender = false → p.dot.toNat = 340) := by
      rcases Bool.or_eq_true_iff.mp hlast with h340 | hskip
      · have : p.dot.toNat = 340 := congrArg UInt16.toNat (of_decide_eq_true h340)
        exact ⟨by omega, fun _ => this⟩
      · obtain ⟨hrest, hp⟩ := Bool.and_eq_true_iff.mp hskip
        simp only [Bool.and_eq_true, decide_eq_true_eq] at hrest
        have : p.dot.toNat = 339 := congrArg UInt16.toNat hrest.1.1.1
        refine ⟨by omega, fun hf => ?_⟩
        rw [hf] at hp
        cases hp
    split
    · next hp =>
      have : p.row.toNat = p.region.prerenderRow.toNat := congrArg UInt16.toNat (of_decide_eq_true hp)
      refine .inr ⟨rfl, ?_⟩
      unfold place
      omega
    · next hp =>
      have h340 := hend.2 (Bool.eq_false_iff.mpr hp)
      refine .inl ?_
      show 341 * (p.row + 1).toNat + 0 = 341 * p.row.toNat + p.dot.toNat + 1
      have hadd : (p.row + 1).toNat = p.row.toNat + 1 := by
        rw [UInt16.toNat_add]
        show (_ + 1) % 65536 = _
        omega
      rw [hadd]
      omega
  · refine .inl ?_
    show 341 * p.row.toNat + (p.dot + 1).toNat = 341 * p.row.toNat + p.dot.toNat + 1
    have hadd : (p.dot + 1).toNat = p.dot.toNat + 1 := by
      rw [UInt16.toNat_add]
      show (_ + 1) % 65536 = _
      omega
    rw [hadd]
    omega

/-- A place gives the row and the dot. -/
theorem place_eq_iff (row dot : UInt16) (hd : p.dot.toNat ≤ 340) (hdot : dot.toNat ≤ 340) :
    p.place = 341 * row.toNat + dot.toNat ↔ p.row = row ∧ p.dot = dot := by
  rw [← UInt16.toNat_inj, ← UInt16.toNat_inj]
  unfold place
  omega

/-- The eve of vertical blank is one place. -/
theorem onEve_iff (hd : p.dot.toNat ≤ 340) :
    p.onEve = true ↔ p.place = 341 * p.region.vblankRow.toNat := by
  have h := place_eq_iff p.region.vblankRow 0 hd (by decide)
  rw [onEve, Bool.and_eq_true, decide_eq_true_eq, decide_eq_true_eq, ← h]
  rfl

/-- The dot after it is the next. -/
theorem enteredVblank_iff (hd : p.dot.toNat ≤ 340) :
    p.enteredVblank = true ↔ p.place = 341 * p.region.vblankRow.toNat + 1 := by
  have h := place_eq_iff p.region.vblankRow 1 hd (by decide)
  rw [enteredVblank, Bool.and_eq_true, decide_eq_true_eq, decide_eq_true_eq, ← h]
  rfl

/-- The signals are cleared on the second dot of the row before the first. -/
theorem beginsPicture_iff (hd : p.dot.toNat ≤ 340) :
    (p.onPrerender && p.dot = 1) = true ↔ p.place = 341 * p.region.prerenderRow.toNat + 1 := by
  have h := place_eq_iff p.region.prerenderRow 1 hd (by decide)
  rw [onPrerender, Bool.and_eq_true, decide_eq_true_eq, decide_eq_true_eq, ← h]
  rfl

/-- Vertical blank lasts more than ten rows. -/
theorem vblankRow_lt (r : Region) : r.vblankRow.toNat + 10 < r.prerenderRow.toNat := by
  cases r <;> decide

/-- From the dot before it, a dot begins vertical blank. -/
theorem nextDot_of_onEve (h : p.onEve = true) : p.nextDot.enteredVblank = true := by
  obtain ⟨hrow, hdot⟩ := Bool.and_eq_true_iff.mp h
  have hdot := of_decide_eq_true hdot
  have hnext := nextDot_of_lt (p := p) (by rw [hdot]; decide)
  rw [hnext, hdot]
  show (p.row = p.region.vblankRow && _) = true
  rw [hrow]
  rfl

/-! ## A unit left to itself -/

/-- The unit is warm, on a dot that rows have. -/
structure Going (p : Picture) : Prop where
  warm : p.warmingUp = false
  placed : Placed p
  dot : p.dot.toNat ≤ 340

/-- So is one that stands where its first picture starts. -/
theorem going_warm (region : Region) : Going (warm region) :=
  ⟨rfl, ⟨.inl (Nat.zero_le _), Nat.le_refl _, Nat.zero_le _⟩, Nat.zero_le _⟩

namespace Going

theorem tick (h : Going p) (c : γ) :
    Going (p.tick c).2.1 ∧ (p.tick c).2.1.place = p.nextDot.place := by
  obtain ⟨hw, -, hrow, hdot⟩ := tick_place h.warm c
  refine ⟨⟨hw, h.placed.tick c, ?_⟩, ?_⟩
  · rw [hdot]
    exact nextDot_dot h.placed
  · unfold place
    rw [hrow, hdot]

/-- No place lies behind the last dot of the row before the first. -/
theorem place_le (h : Going p) : p.place ≤ 341 * p.region.prerenderRow.toNat + 340 := by
  have hrow := h.placed.row
  have hdot := h.dot
  unfold place
  omega

/-- Until the row before the first is under way, a unit comes to every place that lies ahead. -/
theorem exists_ahead (h : Going p) (cart : Nat → γ) (target : Nat) (hle : p.place ≤ target)
    (ht : target ≤ 341 * p.region.prerenderRow.toNat) :
    ∃ n, Going (p.after cart n) ∧ (p.after cart n).region = p.region ∧
      (p.after cart n).place = target := by
  -- by the dots that are left
  induction hm : target - p.place generalizing p cart with
  | zero => exact ⟨0, h, rfl, by show p.place = target; omega⟩
  | succ m ih =>
    obtain ⟨hgo, hplace⟩ := h.tick (cart 0)
    have hregion := tick_region p (cart 0)
    have hstep : p.nextDot.place = p.place + 1 := by
      rcases place_nextDot h.placed h.dot with hs | ⟨-, hend⟩
      · exact hs
      · omega
    obtain ⟨n, hg, hr, hp⟩ := ih hgo (fun i => cart (1 + i)) (by omega) (by rw [hregion]; exact ht)
      (by omega)
    refine ⟨1 + n, ?_⟩
    rw [after_add]
    exact ⟨hg, hr.trans hregion, hp⟩

/-- Wherever it stands, a unit comes to the start of a picture. -/
theorem exists_start (h : Going p) (cart : Nat → γ) :
    ∃ n, Going (p.after cart n) ∧ (p.after cart n).region = p.region ∧ (p.after cart n).place = 0 := by
  induction hm : 341 * p.region.prerenderRow.toNat + 340 - p.place generalizing p cart with
  | zero =>
    obtain ⟨hgo, hplace⟩ := h.tick (cart 0)
    have hregion := tick_region p (cart 0)
    refine ⟨1, hgo, hregion, ?_⟩
    rcases place_nextDot h.placed h.dot with hs | ⟨hz, -⟩
    · have hle := hgo.place_le
      rw [hregion] at hle
      omega
    · exact hplace.trans hz
  | succ m ih =>
    obtain ⟨hgo, hplace⟩ := h.tick (cart 0)
    have hregion := tick_region p (cart 0)
    rcases place_nextDot h.placed h.dot with hs | ⟨hz, -⟩
    · obtain ⟨n, hg, hr, hp⟩ := ih hgo (fun i => cart (1 + i)) (by rw [hregion]; omega)
      refine ⟨1 + n, ?_⟩
      rw [after_add]
      exact ⟨hg, hr.trans hregion, hp⟩
    · exact ⟨1, hgo, hregion, hplace.trans hz⟩

end Going

/-- A dot of a cold unit ends the warm-up, or counts. -/
theorem tick_count (hw : p.warmingUp = true) (c : γ) :
    (p.tick c).2.1.warmingUp = false ∨
      (p.warmUpCount ≠ p.region.warmUpDots ∧
        (p.tick c).2.1.warmUpCount = p.warmUpCount + 1) := by
  have hcount : p.nextDot.warmUpCount = p.warmUpCount :=
    congrArg Signals.warmUpCount (nextDot_signals p)
  rw [tick_warmingUp p c hw]
  unfold warmUp
  rw [hcount, nextDot_region]
  split
  · exact .inl rfl
  · next hne => exact .inr ⟨hne, rfl⟩

/-- A unit left to itself gets warm. -/
theorem Placed.exists_going (h : Placed p) (cart : Nat → γ) :
    ∃ n, 0 < n ∧ Going (p.after cart n) ∧ (p.after cart n).region = p.region := by
  -- by what is left to count
  induction hm : p.region.warmUpDots - p.warmUpCount using Nat.strongRecOn
    generalizing p cart with
  | _ m ih =>
    have hplaced := h.tick (cart 0)
    have hregion := tick_region p (cart 0)
    have hdot : (p.tick (cart 0)).2.1.dot.toNat ≤ 340 := by
      cases hw : p.warmingUp with
      | true =>
        rw [tick_warmingUp p _ hw]
        have hd := nextDot_dot h
        unfold warmUp
        split
        · exact hd
        · exact hd
      | false =>
        rw [(tick_place hw (cart 0)).2.2.2]
        exact nextDot_dot h
    cases hw : (p.tick (cart 0)).2.1.warmingUp with
    | false => exact ⟨1, Nat.one_pos, ⟨hw, hplaced, hdot⟩, hregion⟩
    | true =>
      have hcount := h.count
      obtain ⟨hne, hnext⟩ := (tick_count (tick_cold p (cart 0) hw).1 (cart 0)).resolve_left
        (by rw [hw]; decide)
      obtain ⟨n, -, hg, hr⟩ := ih _ (by rw [hregion]; omega) hplaced (fun i => cart (1 + i)) rfl
      refine ⟨1 + n, by omega, ?_⟩
      rw [after_add]
      exact ⟨hg, hr.trans hregion⟩

/-- And it comes to the dot before vertical blank. -/
theorem Placed.exists_eve (h : Placed p) (cart : Nat → γ) :
    ∃ n, 0 < n ∧ (p.after cart n).warmingUp = false ∧ (p.after cart n).onEve = true := by
  obtain ⟨k, hk, hgo, hr⟩ := h.exists_going cart
  obtain ⟨m, hstart, hr', hz⟩ := hgo.exists_start fun i => cart (k + i)
  have hv := vblankRow_lt p.region
  rw [hr] at hr'
  obtain ⟨n, heve, hr'', hp⟩ := hstart.exists_ahead (fun i => cart (k + (m + i)))
    (341 * p.region.vblankRow.toNat) (by omega) (by rw [hr']; omega)
  refine ⟨k + (m + n), by omega, ?_⟩
  rw [after_add, after_add]
  refine ⟨heve.warm, (onEve_iff heve.dot).mpr ?_⟩
  rw [hr'', hr']
  exact hp

end Picture

end Famicom
