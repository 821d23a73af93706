/-
  The raster: how long a picture is, and what each of its dots draws.

  A picture lasts from one visit of the first dot of the first row to the next, whatever is done to the
  registers in between.

  1. **One dot** (`Sweeping.goesOn`, `Sweeping.arrives`): either the unit moves one place on and keeps the
     parity of the picture, or it comes back to the first dot and turns the parity.  The latter happens
     at the last place, or one before it where the picture is cut short (`endsPicture_iff`).
  2. **One picture** (`ToStart`): the acts that lead to the next first dot.  By induction on them: their
     number of dots (`ToStart.length`), the parity (`ToStart.oddFrame`), and the single beginning of
     vertical blank (`ToStart.countP_enteredVblank`).
  3. **The pixels** (`Paints`, `Draws`): a dot of a warm unit draws the pixel that belongs to its place, or
     none (`tick_paints`), so the run of a picture draws all of them in order (`ToStart.draws`).

  Together: `raster_geometry`.
-/
import Famicom.Proofs.Picture.VblankStart

namespace Famicom

namespace Picture

variable {γ : Type} [Cartridge γ] {p q : Picture} {act : Act γ} {acts : List (Act γ)}

/-! ## One dot -/

/-- The unit stands on a dot that rows have, and draws nothing while it is cold. -/
structure Sweeping (p : Picture) : Prop where
  placed : Placed p
  dot : p.dot.toNat ≤ 340
  cold : p.warmingUp = true → p.rendering = false

/-- The unit stands on the first dot of a picture. -/
def atStart (p : Picture) : Bool := p.row = 0 && p.dot = 0

/-- The next dot is the first of a picture. -/
def endsPicture (p : Picture) : Bool :=
  p.onPrerender && (p.dot = lastDot ||
    (p.dot = lastDot - 1 && p.region = .ntsc && p.rendering && p.oddFrame))

/-- The engine decides where a unit stands. -/
theorem place_congr (h : q.engine = p.engine) : q.place = p.place := by
  rw [place, show q.row = p.row from congrArg Engine.row h,
    show q.dot = p.dot from congrArg Engine.dot h]
  rfl

/-- Only dots and resets change where a unit stands. -/
theorem access_place (h : act.movesOn = false) : (p.perform act).place = p.place :=
  place_congr (perform_engine h)

theorem access_oddFrame (h : act.movesOn = false) : (p.perform act).oddFrame = p.oddFrame :=
  congrArg Engine.oddFrame (perform_engine h)

theorem access_rendering (h : act.movesOn = false) : (p.perform act).rendering = p.rendering :=
  congrArg Engine.rendering (perform_engine h)

theorem access_warmingUp (h : act.movesOn = false) : (p.perform act).warmingUp = p.warmingUp :=
  congrArg Engine.warmingUp (perform_engine h)

/-- The first dot of a picture is place zero. -/
theorem atStart_iff (hd : p.dot.toNat ≤ 340) : p.atStart = true ↔ p.place = 0 := by
  have h := place_eq_iff 0 0 hd (by decide)
  rw [atStart, Bool.and_eq_true, decide_eq_true_eq, decide_eq_true_eq, ← h]
  rfl

/-- A picture ends at its last place, or one before it if it is cut short. -/
theorem endsPicture_iff (hd : p.dot.toNat ≤ 340) :
    p.endsPicture = true ↔ p.place = 341 * p.region.prerenderRow.toNat + 340 ∨
      (p.place = 341 * p.region.prerenderRow.toNat + 339 ∧ p.region = .ntsc ∧ p.rendering = true ∧
        p.oddFrame = true) := by
  have hlast := place_eq_iff p.region.prerenderRow lastDot hd (by decide)
  have heve := place_eq_iff p.region.prerenderRow (lastDot - 1) hd (by decide)
  change p.place = 341 * p.region.prerenderRow.toNat + 340 ↔ _ at hlast
  change p.place = 341 * p.region.prerenderRow.toNat + 339 ↔ _ at heve
  rw [hlast, heve]
  simp only [endsPicture, onPrerender, Bool.and_eq_true, Bool.or_eq_true, decide_eq_true_eq]
  tauto

/-- At the end of a picture the unit comes back to its first dot, and the parity turns. -/
theorem nextDot_of_ends (h : p.endsPicture = true) :
    p.nextDot = { p with dot := 0, row := 0, oddFrame := !p.oddFrame } := by
  obtain ⟨hpre, hlast⟩ := Bool.and_eq_true_iff.mp h
  unfold nextDot
  rw [hpre, Bool.and_true, if_pos hlast, if_pos rfl]

/-- Anywhere else the parity stays. -/
theorem nextDot_of_not_ends (h : p.endsPicture = false) : p.nextDot.oddFrame = p.oddFrame := by
  unfold nextDot
  split
  · next hlast =>
    split
    · next hpre =>
      rw [hpre, Bool.and_true] at hlast
      rw [endsPicture, hpre, hlast] at h
      cases h
    · rfl
  · rfl

/-- And the unit moves one place on. -/
theorem place_nextDot_of_not_ends (h : Sweeping p) (he : p.endsPicture = false) :
    p.nextDot.place = p.place + 1 := by
  rcases place_nextDot h.placed h.dot with hnext | ⟨hzero, hend⟩
  · exact hnext
  · -- so far on, the unit stands on the row before the first, and goes on along it
    have hdot := h.dot
    have hrow := h.placed.row
    have hrows := vblankRow_lt p.region
    have hpre : p.onPrerender = true := by
      refine decide_eq_true (UInt16.toNat_inj.mp ?_)
      unfold place at hend
      omega
    have hstep : p.nextDot = { p with dot := p.dot + 1 } := by
      rw [endsPicture, hpre, Bool.true_and] at he
      unfold nextDot
      rw [hpre, Bool.and_true, he]
      rfl
    rw [hstep] at hzero
    have hzero : 341 * p.row.toNat + (p.dot + 1).toNat = 0 := hzero
    unfold place at hend
    omega

/-- Where a dot leaves the unit, be it warm or cold. -/
theorem tick_position (p : Picture) (c : γ) :
    (p.tick c).2.1.row = p.nextDot.row ∧ (p.tick c).2.1.dot = p.nextDot.dot ∧
      (p.tick c).2.1.oddFrame = p.nextDot.oddFrame := by
  cases hw : p.warmingUp with
  | true =>
    rw [tick_warmingUp p c hw]
    unfold warmUp
    split
    · exact ⟨rfl, rfl, rfl⟩
    · exact ⟨rfl, rfl, rfl⟩
  | false =>
    have ho := tick_outline p c hw
    exact ⟨congrArg Outline.row ho, congrArg Outline.dot ho, congrArg Outline.oddFrame ho⟩

/-- Whether the unit then draws depends on the mask the dot found. -/
theorem tick_rendering (hcold : p.warmingUp = true → p.rendering = false) (c : γ) :
    (p.tick c).2.1.rendering = (!p.warmingUp && (p.nextDot.atWork && p.mask.draws)) := by
  cases hw : p.warmingUp with
  | true =>
    have hnext : p.nextDot.rendering = p.rendering := by
      unfold nextDot
      split
      · split
        · rfl
        · rfl
      · rfl
    rw [tick_warmingUp p c hw]
    unfold warmUp
    split
    · exact hnext.trans (hcold hw)
    · exact hnext.trans (hcold hw)
  | false =>
    have ho : (p.tick c).2.1.rendering = _ := congrArg Outline.rendering (tick_outline p c hw)
    rw [ho, arrive_atWork]
    rfl

namespace Sweeping

/-- An access keeps the unit on its dot. -/
theorem access (h : Sweeping p) (hact : act.movesOn = false) : Sweeping (p.perform act) := by
  constructor
  · exact h.placed.perform act
  · rw [show (p.perform act).dot = p.dot from congrArg Engine.dot (perform_engine hact)]
    exact h.dot
  · rw [access_warmingUp hact, access_rendering hact]
    exact h.cold

/-- A dot keeps it among the dots that rows have. -/
theorem tick (h : Sweeping p) (c : γ) : Sweeping (p.tick c).2.1 := by
  constructor
  · exact h.placed.tick c
  · rw [(tick_position p c).2.1]
    exact nextDot_dot h.placed
  · intro hcold
    rw [tick_rendering h.cold, (tick_cold p c hcold).1]
    rfl

/-- A dot that is not the first of a picture is one place on. -/
theorem goesOn (h : Sweeping p) {c : γ} (hs : (p.tick c).2.1.atStart = false) :
    p.endsPicture = false ∧ (p.tick c).2.1.place = p.place + 1 ∧
      (p.tick c).2.1.oddFrame = p.oddFrame := by
  obtain ⟨hrow, hdot, hodd⟩ := tick_position p c
  have he : p.endsPicture = false := by
    cases he : p.endsPicture with
    | false => rfl
    | true =>
      rw [atStart, hrow, hdot, nextDot_of_ends he] at hs
      cases hs
  refine ⟨he, ?_, hodd.trans (nextDot_of_not_ends he)⟩
  rw [← place_nextDot_of_not_ends h he, place, hrow, hdot]
  rfl

/-- A dot that is turns the parity. -/
theorem arrives (h : Sweeping p) {c : γ} (hs : (p.tick c).2.1.atStart = true) :
    p.endsPicture = true ∧ (p.tick c).2.1.oddFrame = !p.oddFrame := by
  obtain ⟨hrow, hdot, hodd⟩ := tick_position p c
  have he : p.endsPicture = true := by
    cases he : p.endsPicture with
    | true => rfl
    | false =>
      have hzero := (atStart_iff (h.tick c).dot).mp hs
      have hnext := place_nextDot_of_not_ends h he
      rw [place, hrow, hdot] at hzero
      rw [place] at hnext
      omega
  refine ⟨he, ?_⟩
  rw [hodd, nextDot_of_ends he]

end Sweeping

/-! ## One picture

  The acts of a picture are given by where they lead, not by their number: up to the next first dot,
  with any accesses in between.  The length is then read off the places. -/

/-- What is done until the unit comes to the first dot of a picture, and while it stands there. -/
inductive ToStart : Picture → List (Act γ) → Prop
  | arrive {p : Picture} {c : γ} {acts : List (Act γ)} : (p.tick c).2.1.atStart = true →
      (∀ act ∈ acts, act.movesOn = false) → ToStart p (.tick c :: acts)
  | dot {p : Picture} {c : γ} {acts : List (Act γ)} : (p.tick c).2.1.atStart = false →
      ToStart (p.tick c).2.1 acts → ToStart p (.tick c :: acts)
  | access {p : Picture} {act : Act γ} {acts : List (Act γ)} : act.movesOn = false →
      ToStart (p.perform act) acts → ToStart p (act :: acts)

/-- In every run a unit that has come to the first dot of a picture sweeps the raster. -/
theorem sweeping_run (region : Region) (acts : List (Act γ))
    (hs : ((new region).run acts).atStart = true) : Sweeping ((new region).run acts) := by
  constructor
  · exact placed_run region acts
  · obtain ⟨-, hdot⟩ := Bool.and_eq_true_iff.mp hs
    rw [of_decide_eq_true hdot]
    exact Nat.zero_le _
  · refine run_inv (P := fun p => p.warmingUp = true → p.rendering = false) ?_ acts (fun _ => rfl)
    intro p act hcold
    cases hm : act.movesOn with
    | false =>
      rw [access_warmingUp hm, access_rendering hm]
      exact hcold
    | true =>
      cases act with
      | tick c =>
        intro hw
        refine (tick_rendering hcold c).trans ?_
        rw [(tick_cold p c hw).1]
        rfl
      | reset => exact fun _ => rfl
      | _ => cases hm

/-- A dot of a run: the unit as the dot finds it, and the cartridge then. -/
structure Tick (γ : Type) where
  found : Picture
  cartridge : γ

/-- The unit as the dot leaves it. -/
def Tick.left (t : Tick γ) : Picture := (t.found.tick t.cartridge).2.1

/-- The dot is the one on which vertical blank begins. -/
def Tick.entersVblank (t : Tick γ) : Bool := t.left.enteredVblank

/-- The dots of a run. -/
def ticks (p : Picture) : List (Act γ) → List (Tick γ)
  | [] => []
  | .tick c :: acts => ⟨p, c⟩ :: (p.tick c).2.1.ticks acts
  | act :: acts => (p.perform act).ticks acts

/-- An access is no dot of a run. -/
theorem ticks_access (h : act.movesOn = false) (acts : List (Act γ)) :
    p.ticks (act :: acts) = (p.perform act).ticks acts := by
  cases act with
  | tick c => cases h
  | _ => rfl

/-- A run of accesses has no dots. -/
theorem ticks_still (h : ∀ act ∈ acts, act.movesOn = false) : p.ticks acts = [] := by
  induction acts generalizing p with
  | nil => rfl
  | cons act acts ih =>
    rw [ticks_access (h act List.mem_cons_self)]
    exact ih fun a ha => h a (List.mem_cons_of_mem act ha)

/-- The dot comes to the last but one of the row before the first, and finds a warm unit that shows the
    background or the sprites. -/
def Tick.drawsOnEve (t : Tick γ) : Prop :=
  t.left.onPrerender = true ∧ t.left.dot = 339 ∧ t.found.mask.draws = true ∧
    t.found.warmingUp = false

/-- A dot comes to the eve of a picture drawing just if it leaves the unit at the place before the last
    while it draws. -/
theorem drawsOnEve_iff (h : Sweeping p) (c : γ) :
    (Tick.mk p c).drawsOnEve ↔
      (p.tick c).2.1.place = 341 * p.region.prerenderRow.toNat + 339 ∧
        (p.tick c).2.1.rendering = true := by
  obtain ⟨hrow, hdot, -⟩ := tick_position p c
  have hplace := place_eq_iff p.region.prerenderRow 339 (h.tick c).dot (by decide)
  change (p.tick c).2.1.place = 341 * p.region.prerenderRow.toNat + 339 ↔ _ at hplace
  have hpre : (Tick.mk p c).left.onPrerender = true ↔ (p.tick c).2.1.row = p.region.prerenderRow := by
    rw [onPrerender, decide_eq_true_eq]
    show _ = (p.tick c).2.1.region.prerenderRow ↔ _
    rw [tick_region]
    rfl
  rw [hplace, tick_rendering h.cold]
  constructor
  · rintro ⟨hon, h339, hdraws, hwarm⟩
    have hat := hpre.mp hon
    refine ⟨⟨hat, h339⟩, ?_⟩
    have hwork : p.nextDot.atWork = true := by
      rw [atWork, ← hdot, show (p.tick c).2.1.dot = 339 from h339, onPrerender, ← hrow, hat,
        nextDot_region, decide_eq_true rfl, Bool.or_true]
      rfl
    rw [hwork, hdraws, hwarm]
    rfl
  · rintro ⟨⟨hat, h339⟩, hdraws⟩
    simp only [Bool.and_eq_true, Bool.not_eq_true'] at hdraws
    exact ⟨hpre.mpr hat, h339, hdraws.2.2, hdraws.1⟩

/-- A unit left to itself comes to the next picture. -/
theorem exists_toStart (h : Sweeping p) (c : γ) : ∃ n, ToStart p (List.replicate n (.tick c)) := by
  -- by the places that are left
  induction hm : 341 * p.region.prerenderRow.toNat + 340 - p.place generalizing p with
  | zero =>
    refine ⟨1, .arrive ?_ (by simp)⟩
    cases hs : (p.tick c).2.1.atStart with
    | true => rfl
    | false =>
      obtain ⟨he, -, -⟩ := h.goesOn hs
      have hlast : p.endsPicture = true := by
        have hdot := h.dot
        have hrow := h.placed.row
        refine (endsPicture_iff hdot).mpr (.inl ?_)
        unfold place at hm ⊢
        omega
      rw [hlast] at he
      cases he
  | succ m ih =>
    cases hs : (p.tick c).2.1.atStart with
    | true => exact ⟨1, .arrive hs (by simp)⟩
    | false =>
      obtain ⟨-, hplace, -⟩ := h.goesOn hs
      obtain ⟨n, hn⟩ := ih (h.tick c) (by rw [tick_region, hplace]; omega)
      refine ⟨n + 1, ?_⟩
      rw [List.replicate_succ]
      exact .dot hs hn

/-- The dots that are left of a picture, and when there is one less of them: if a dot to come finds the
    unit drawing, or the unit stands on the last dot but one and draws. -/
theorem ToStart.length (ha : ToStart p acts) (h : Sweeping p) :
    (p.place + (p.ticks acts).length = 341 * (p.region.prerenderRow.toNat + 1) ∨
      p.place + (p.ticks acts).length + 1 = 341 * (p.region.prerenderRow.toNat + 1)) ∧
    (p.place + (p.ticks acts).length + 1 = 341 * (p.region.prerenderRow.toNat + 1) ↔
      p.region = .ntsc ∧ p.oddFrame = true ∧
        ((p.place = 341 * p.region.prerenderRow.toNat + 339 ∧ p.rendering = true) ∨
          ∃ t ∈ p.ticks acts, t.drawsOnEve)) := by
  induction ha with
  | @arrive p c acts hs hstill =>
    obtain ⟨he, -⟩ := h.arrives hs
    have hone : p.ticks (.tick c :: acts) = [⟨p, c⟩] := by
      show _ :: (p.tick c).2.1.ticks acts = _
      rw [ticks_still hstill]
    -- the dot that comes to the first is not on the row before it
    have hnone : ¬ ∃ t ∈ p.ticks (.tick c :: acts), t.drawsOnEve := by
      rintro ⟨t, ht, hdraws⟩
      rw [hone] at ht
      obtain rfl := List.mem_singleton.mp ht
      have hzero := (atStart_iff (h.tick c).dot).mp hs
      have heve := ((drawsOnEve_iff h c).mp hdraws).1
      omega
    rw [endsPicture_iff h.dot] at he
    rw [hone, List.length_singleton]
    constructor
    · omega
    · constructor
      · intro hshort
        rcases he with hlast | ⟨hplace, hntsc, hdraws, hodd⟩
        · omega
        · exact ⟨hntsc, hodd, .inl ⟨hplace, hdraws⟩⟩
      · rintro ⟨-, -, ⟨hplace, -⟩ | hex⟩
        · omega
        · rw [← hone] at hex
          exact absurd hex hnone
  | @dot p c acts hs hrest ih =>
    obtain ⟨he, hplace, hodd⟩ := h.goesOn hs
    obtain ⟨hlen, hiff⟩ := ih (h.tick c)
    have hticks : p.ticks (.tick c :: acts) = ⟨p, c⟩ :: (p.tick c).2.1.ticks acts := rfl
    have hnot : ¬ (p.endsPicture = true) := by
      rw [he]
      decide
    rw [endsPicture_iff h.dot] at hnot
    rw [tick_region, hplace, hodd] at hiff
    rw [tick_region, hplace] at hlen
    rw [hticks, List.length_cons]
    constructor
    · omega
    · have hshift : p.place + ((((p.tick c).2.1.ticks acts).length + 1)) + 1 =
          p.place + 1 + ((p.tick c).2.1.ticks acts).length + 1 := by omega
      rw [hshift, hiff, ← hplace, ← drawsOnEve_iff h c]
      -- on the last dot but one the unit would leave the last one out, had it been drawing
      constructor
      · rintro ⟨hntsc, hodd, hnow | ⟨t, ht, hdraws⟩⟩
        · exact ⟨hntsc, hodd, .inr ⟨_, List.mem_cons_self, hnow⟩⟩
        · exact ⟨hntsc, hodd, .inr ⟨t, List.mem_cons_of_mem _ ht, hdraws⟩⟩
      · rintro ⟨hntsc, hodd, ⟨hp, hdraws⟩ | ⟨t, ht, hdraws⟩⟩
        · exact absurd (.inr ⟨hp, hntsc, hdraws, hodd⟩) hnot
        · rcases List.mem_cons.mp ht with rfl | ht
          · exact ⟨hntsc, hodd, .inl hdraws⟩
          · exact ⟨hntsc, hodd, .inr ⟨t, ht, hdraws⟩⟩
  | @access p act acts hstill hrest ih =>
    have hih := ih (h.access hstill)
    rw [perform_region, access_place hstill, access_oddFrame hstill, access_rendering hstill] at hih
    rw [ticks_access hstill]
    exact hih

/-- The parity is kept up to the last dot, and turned by it. -/
theorem ToStart.oddFrame (ha : ToStart p acts) (h : Sweeping p) :
    (∀ t ∈ p.ticks acts, t.found.oddFrame = p.oddFrame) ∧ (p.run acts).oddFrame = !p.oddFrame := by
  induction ha with
  | @arrive p c acts hs hstill =>
    have hrun : (p.run (.tick c :: acts)).oddFrame = (p.tick c).2.1.oddFrame :=
      congrArg Engine.oddFrame (run_engine (p := (p.tick c).2.1) hstill)
    constructor
    · intro t ht
      rw [show p.ticks (.tick c :: acts) = ⟨p, c⟩ :: (p.tick c).2.1.ticks acts from rfl,
        ticks_still hstill] at ht
      obtain rfl := List.mem_singleton.mp ht
      rfl
    · rw [hrun, (h.arrives hs).2]
  | @dot p c acts hs hrest ih =>
    obtain ⟨-, -, hodd⟩ := h.goesOn hs
    obtain ⟨hall, hrun⟩ := ih (h.tick c)
    rw [hodd] at hall hrun
    refine ⟨?_, hrun⟩
    intro t ht
    rcases List.mem_cons.mp ht with rfl | ht
    · rfl
    · exact hall t ht
  | @access p act acts hstill hrest ih =>
    have hih := ih (h.access hstill)
    rw [access_oddFrame hstill] at hih
    rw [ticks_access hstill]
    exact hih

/-- Of the dots to come one is the first of vertical blank, if it lies ahead. -/
theorem ToStart.countP_enteredVblank (ha : ToStart p acts) (h : Sweeping p) :
    (p.ticks acts).countP Tick.entersVblank =
      if p.place ≤ 341 * p.region.vblankRow.toNat then 1 else 0 := by
  induction ha with
  | @arrive p c acts hs hstill =>
    have hrows := vblankRow_lt p.region
    have hzero := (atStart_iff (h.tick c).dot).mp hs
    have hnot : ¬ (Tick.mk p c).entersVblank = true := by
      intro hv
      have := (enteredVblank_iff (h.tick c).dot).mp hv
      omega
    have hlast := (endsPicture_iff h.dot).mp (h.arrives hs).1
    show (Tick.mk p c :: (p.tick c).2.1.ticks acts).countP _ = _
    rw [ticks_still hstill, List.countP_cons_of_neg hnot, List.countP_nil, if_neg (by omega)]
  | @dot p c acts hs hrest ih =>
    obtain ⟨-, hplace, -⟩ := h.goesOn hs
    have hih := ih (h.tick c)
    have hv := enteredVblank_iff (h.tick c).dot
    rw [tick_region, hplace] at hih hv
    show (Tick.mk p c :: (p.tick c).2.1.ticks acts).countP _ = _
    by_cases hnow : (Tick.mk p c).entersVblank = true
    · have heve := hv.mp hnow
      rw [List.countP_cons_of_pos hnow, hih, if_neg (by omega), if_pos (by omega)]
    · have hne := mt hv.mpr hnow
      rw [List.countP_cons_of_neg hnow, hih]
      exact if_congr (by omega) rfl rfl
  | @access p act acts hstill hrest ih =>
    have hih := ih (h.access hstill)
    rw [perform_region, access_place hstill] at hih
    rw [ticks_access hstill]
    exact hih

/-! ## The pixels

  What an act draws is told apart from what was on the picture before, so the picture under a dot is
  left open: a dot draws one pixel whatever it finds there, or none. -/

/-- The colour that is drawn on this dot. -/
def shownColor (p : Picture) : UInt32 :=
  if p.rendering then p.maskedColor p.drawnOffset else p.idleColor

/-- The unit with another picture to draw on. -/
def onFrame (f : Frame) (p : Picture) : Picture := { p with frame := f }

/-- A pixel is drawn at the column before the dot. -/
theorem drawPixel_set (p : Picture) :
    p.drawPixel.frame = p.frame.set (p.dot - 1).toUInt8.toNat p.row.toNat p.shownColor := by
  cases hr : p.rendering with
  | true => rw [drawPixel_frame hr, shownColor, if_pos hr]
  | false =>
    rw [shownColor, if_neg (by rw [hr]; decide)]
    unfold drawPixel
    dsimp only
    rw [if_pos (by rw [hr]; rfl)]

theorem nextDot_onFrame (p : Picture) (f : Frame) :
    (p.onFrame f).nextDot = p.nextDot.onFrame f := by
  unfold nextDot
  rw [apply_ite (onFrame f), apply_ite (onFrame f)]
  rfl

theorem beginVblank_onFrame (p : Picture) (f : Frame) :
    (p.onFrame f).beginVblank = p.beginVblank.onFrame f := by
  unfold beginVblank
  rw [apply_ite (onFrame f)]
  rfl

theorem arrive_onFrame (p : Picture) (f : Frame) : (p.onFrame f).arrive = p.arrive.onFrame f := by
  have hfirst (q : Picture) : (q.onFrame f).beginFirstRow = q.beginFirstRow.onFrame f := by
    unfold beginFirstRow
    rw [apply_ite (onFrame f)]
    rfl
  rw [arrive, arrive, ← hfirst, apply_ite (onFrame f), ← beginVblank_onFrame]
  rfl

theorem fetchBackground_onFrame (p : Picture) (c : γ) (f : Frame) :
    (p.onFrame f).fetchBackground c = Prod.map (onFrame f) id (p.fetchBackground c) := by
  unfold fetchBackground
  rw [apply_ite (Prod.map (onFrame f) id), apply_ite (Prod.map (onFrame f) id)]
  refine ite_congr rfl (fun _ => rfl) fun _ => ite_congr rfl (fun _ => rfl) fun _ => ?_
  rw [show (p.onFrame f).dot = p.dot from rfl]
  generalize p.dot &&& 7 = phase
  split
  · rfl
  · rfl
  · rfl
  · rfl

theorem fetched_onFrame (p : Picture) (c : γ) (f : Frame) :
    (p.onFrame f).fetched c = (p.fetched c).onFrame f := by
  unfold fetched
  rw [fetchBackground_onFrame]
  unfold advance
  rw [apply_ite (onFrame f)]
  rfl

/-- The colour of a pixel does not depend on what has been drawn. -/
theorem fetched_shownColor (p : Picture) (c : γ) (f : Frame) :
    ((p.onFrame f).fetched c).shownColor = (p.fetched c).shownColor := by
  rw [fetched_onFrame]
  rfl

/-! ### What is on the picture after each part of a dot -/

theorem fetchBackground_frame (p : Picture) (c : γ) : (p.fetchBackground c).1.frame = p.frame := by
  have h := congrArg (·.1.frame) (fetchBackground_onFrame p c p.frame)
  exact h

/-- A dot of the visible part draws its pixel, unless it is on the row before the first. -/
theorem pixelDot_frame (p : Picture) (c : γ) :
    (p.pixelDot c).1.frame =
      if p.onPrerender then p.frame
      else p.frame.set (p.dot - 1).toUInt8.toNat p.row.toNat (p.fetched c).shownColor := by
  have hframe : (p.fetched c).frame = p.frame := by
    have h := congrArg frame (fetched_onFrame p c p.frame)
    exact h
  have ho := fetched_outline p c
  have hdot : (p.fetched c).dot = p.dot := congrArg Outline.dot ho
  have hrow : (p.fetched c).row = p.row := congrArg Outline.row ho
  have hpre : (p.fetched c).onPrerender = p.onPrerender := by
    rw [onPrerender, hrow, show (p.fetched c).region = p.region from congrArg (·.settings.region) ho]
    rfl
  rw [pixelDot_fst, hpre, apply_ite frame]
  refine ite_congr rfl (fun _ => ?_) fun _ => ?_
  · rw [apply_ite frame, (beginPicture_kept _).2, ite_self, hframe]
  · have hlane : ((p.fetched c).showPixel.evaluateSprites).frame = (p.fetched c).showPixel.frame :=
      congrArg Lane.frame (evaluateSprites_lane _)
    rw [hlane, ← hframe, ← hdot, ← hrow]
    exact drawPixel_set _

theorem spriteDot_frame (p : Picture) (c : γ) : (p.spriteDot c).2.1.frame = p.frame := by
  have hturn : p.turnRow.frame = p.frame := by
    unfold turnRow
    rw [apply_ite frame]
    exact ite_self _
  cases hr : p.turnRow.rendering with
  | true =>
    have hpicture (q : Picture) : q.turnPicture.frame = q.frame := by
      unfold turnPicture
      rw [apply_ite frame]
      exact ite_self _
    have hfetch := congrArg Lane.frame (spriteFetches_lane { p.turnRow with oamAddr := 0 } c)
    rw [(spriteDot_of_rendering p c hr).2, hpicture]
    exact hfetch.trans hturn
  | false =>
    rw [spriteDot_of_not_rendering p c hr]
    exact hturn

theorem prefetchDot_frame (p : Picture) (c : γ) : (p.prefetchDot c).1.frame = p.frame := by
  have hf := fetchBackground_frame p c
  unfold prefetchDot
  dsimp only
  split
  · exact hf
  · split
    · exact hf
    · split
      · exact hf
      · exact hf

theorem idleDot_frame (p : Picture) (c : γ) : (p.idleDot c).1.frame = p.frame := by
  unfold idleDot
  split
  · rfl
  · rfl

/-- No other dot of a drawn row draws. -/
theorem drawingDot_frame (p : Picture) (c : γ) :
    (p.drawingDot c).2.1.frame =
      if p.dot ≤ 256 ∧ p.onPrerender = false then
        p.frame.set (p.dot - 1).toUInt8.toNat p.row.toNat
          ({ p with rendering := p.mask.draws }.fetched c).shownColor
      else p.frame := by
  unfold drawingDot
  dsimp only
  by_cases h256 : p.dot ≤ 256
  · rw [if_pos h256]
    refine (pixelDot_frame { p with rendering := p.mask.draws } c).trans ?_
    by_cases hp : p.onPrerender = true
    · have hnot : ¬ (p.dot ≤ 256 ∧ p.onPrerender = false) := by
        rw [hp]
        exact fun h => Bool.noConfusion h.2
      rw [if_neg hnot]
      exact if_pos hp
    · have hseen : p.dot ≤ 256 ∧ p.onPrerender = false := ⟨h256, Bool.eq_false_iff.mpr hp⟩
      rw [if_pos hseen]
      exact if_neg hp
  · have hnot : ¬ (p.dot ≤ 256 ∧ p.onPrerender = false) := fun h => h256 h.1
    rw [if_neg h256, if_neg hnot]
    split
    · exact spriteDot_frame _ c
    · split
      · exact prefetchDot_frame _ c
      · split
        · exact idleDot_frame _ c
        · rfl

/-! ### Pixel by pixel -/

/-- What an act draws, whatever there is on the picture before: one pixel or none. -/
def Paints (p : Picture) (act : Act γ) : Option (Nat × Nat) → Prop
  | none => ∀ f, ((p.onFrame f).perform act).frame = f
  | some (x, y) => ∃ rgb, ∀ f, ((p.onFrame f).perform act).frame = f.set x y rgb

/-- The pixels that one act after the other draws. -/
inductive Draws : Picture → List (Act γ) → List (Nat × Nat) → Prop
  | nil (p : Picture) : Draws p [] []
  | cons {p : Picture} {act : Act γ} {acts : List (Act γ)} {pixel : Option (Nat × Nat)}
      {rest : List (Nat × Nat)} : Paints p act pixel → Draws (p.perform act) acts rest →
      Draws p (act :: acts) (pixel.toList ++ rest)

/-- The pixel that belongs to a place of the raster. -/
def pixelAt (n : Nat) : Option (Nat × Nat) :=
  if n / 341 < screenHeight ∧ 0 < n % 341 ∧ n % 341 ≤ screenWidth then
    some (n % 341 - 1, n / 341)
  else none

/-- The pixels of a picture, row by row from the top, each row from the left. -/
def rasterOrder : List (Nat × Nat) :=
  (List.range (screenWidth * screenHeight)).map fun n => (n % screenWidth, n / screenWidth)

/-- So many pixels belong to a place or to one before it. -/
def pixelsUpTo (n : Nat) : Nat :=
  if n / 341 < screenHeight then screenWidth * (n / 341) + min (n % 341) screenWidth
  else screenWidth * screenHeight

/-- A picture has 61440 pixels. -/
theorem rasterOrder_length : rasterOrder.length = 61440 := by
  rw [rasterOrder, List.length_map, List.length_range]
  rfl

/-- On the dot of a pixel the pixel is the next in order. -/
theorem pixelAt_some {n : Nat} (h : (n + 1) / 341 < 240 ∧ 0 < (n + 1) % 341 ∧ (n + 1) % 341 ≤ 256) :
    pixelsUpTo n < 61440 ∧ pixelsUpTo (n + 1) = pixelsUpTo n + 1 ∧
      pixelAt (n + 1) = some (pixelsUpTo n % 256, pixelsUpTo n / 256) := by
  have hpixel : pixelAt (n + 1) = some ((n + 1) % 341 - 1, (n + 1) / 341) := if_pos h
  have hrow : (n + 1) / 341 = n / 341 := by omega
  have hcolumn : (n + 1) % 341 = n % 341 + 1 := by omega
  have hbefore : pixelsUpTo n = 256 * (n / 341) + n % 341 := by
    unfold pixelsUpTo screenWidth screenHeight
    rw [if_pos (by omega), Nat.min_eq_left (by omega)]
  have hafter : pixelsUpTo (n + 1) = 256 * (n / 341) + (n % 341 + 1) := by
    unfold pixelsUpTo screenWidth screenHeight
    rw [hrow, hcolumn, if_pos (by omega), Nat.min_eq_left (by omega)]
  have hmod : (256 * (n / 341) + n % 341) % 256 = (n + 1) % 341 - 1 := by omega
  have hdiv : (256 * (n / 341) + n % 341) / 256 = (n + 1) / 341 := by omega
  rw [hpixel, hafter, hbefore, hmod, hdiv]
  exact ⟨by omega, rfl, rfl⟩

/-- On any other dot none is. -/
theorem pixelAt_none {n : Nat}
    (h : ¬ ((n + 1) / 341 < 240 ∧ 0 < (n + 1) % 341 ∧ (n + 1) % 341 ≤ 256)) :
    pixelsUpTo (n + 1) = pixelsUpTo n ∧ pixelAt (n + 1) = none := by
  refine ⟨?_, if_neg h⟩
  unfold pixelsUpTo screenWidth screenHeight
  split
  · split
    · omega
    · omega
  · split
    · omega
    · rfl

/-- The pixels that are left are that of the next place, if it has one, and those after it. -/
theorem drop_pixelsUpTo (n : Nat) :
    rasterOrder.drop (pixelsUpTo n) =
      (pixelAt (n + 1)).toList ++ rasterOrder.drop (pixelsUpTo (n + 1)) := by
  by_cases h : (n + 1) / 341 < 240 ∧ 0 < (n + 1) % 341 ∧ (n + 1) % 341 ≤ 256
  · obtain ⟨hlt, hnext, hpixel⟩ := pixelAt_some h
    have hbound : pixelsUpTo n < rasterOrder.length := by
      rw [rasterOrder_length]
      exact hlt
    have hget : rasterOrder[pixelsUpTo n] = (pixelsUpTo n % 256, pixelsUpTo n / 256) := by
      simp only [rasterOrder, List.getElem_map, List.getElem_range, screenWidth]
    rw [List.drop_eq_getElem_cons hbound, hget, hnext, hpixel, Option.toList_some,
      List.singleton_append]
  · obtain ⟨hsame, hpixel⟩ := pixelAt_none h
    rw [hsame, hpixel, Option.toList_none, List.nil_append]

/-- The dots at work that draw a pixel lie on the rows and in the columns of the screen. -/
theorem onScreen_iff (q : Picture) :
    q.atWork = true ∧ q.dot ≤ 256 ∧ q.onPrerender = false ↔
      q.row.toNat < screenHeight ∧ 0 < q.dot.toNat ∧ q.dot.toNat ≤ screenWidth := by
  have hpre : 240 < q.region.prerenderRow.toNat := by
    cases q.region <;> decide
  have hzero : q.dot ≠ 0 ↔ 0 < q.dot.toNat := by
    rw [Nat.pos_iff_ne_zero, ne_eq, ← UInt16.toNat_inj]
    rfl
  rw [atWork_iff, hzero, onDrawnRow]
  constructor
  · rintro ⟨⟨h0, hon⟩, h256, hseen⟩
    rw [hseen, Bool.or_false] at hon
    exact ⟨UInt16.lt_iff_toNat_lt.mp (of_decide_eq_true hon), h0, UInt16.le_iff_toNat_le.mp h256⟩
  · rintro ⟨hy, h0, h256⟩
    have hseen : q.onPrerender = false := by
      refine decide_eq_false fun he => ?_
      rw [← he] at hpre
      unfold screenHeight at hy
      omega
    have hlt : q.row < visibleRows := UInt16.lt_iff_toNat_lt.mpr hy
    rw [decide_eq_true hlt, Bool.true_or]
    exact ⟨⟨h0, rfl⟩, UInt16.le_iff_toNat_le.mpr h256, hseen⟩

/-- What a dot leaves on the screen, whatever was there. -/
theorem tick_onFrame (hw : p.warmingUp = false) (c : γ) (f : Frame) :
    ((p.onFrame f).tick c).2.1.frame =
      if p.nextDot.arrive.atWork then ((p.nextDot.arrive.onFrame f).drawingDot c).2.1.frame else f := by
  rw [tick_eq (p.onFrame f) c hw, nextDot_onFrame, arrive_onFrame,
    apply_ite fun r : Except PictureFault Unit × Picture × γ => r.2.1.frame]
  generalize p.nextDot.arrive = q
  rfl

/-- A dot of a warm unit draws the pixel that belongs to its place, if one does. -/
theorem tick_paints (hw : p.warmingUp = false) (hd : p.nextDot.dot.toNat ≤ 340) (c : γ) :
    Paints p (.tick c) (pixelAt p.nextDot.place) := by
  have harrive := arrive_outline p.nextDot
  have hdot : p.nextDot.arrive.dot = p.nextDot.dot := congrArg Outline.dot harrive
  have hrow : p.nextDot.arrive.row = p.nextDot.row := congrArg Outline.row harrive
  have hplace : p.nextDot.place / 341 = p.nextDot.arrive.row.toNat ∧
      p.nextDot.place % 341 = p.nextDot.arrive.dot.toNat := by
    rw [hdot, hrow]
    unfold place
    omega
  have hframe := tick_onFrame hw c
  have hscreen := onScreen_iff p.nextDot.arrive
  unfold pixelAt
  rw [hplace.1, hplace.2]
  generalize p.nextDot.arrive = q at hframe hscreen ⊢
  split
  · next hon =>
    obtain ⟨hwork, hdraw⟩ := hscreen.mpr hon
    obtain ⟨-, h0, h256⟩ := hon
    have hcolumn : (q.dot - 1).toUInt8.toNat = q.dot.toNat - 1 := by
      have hle : (1 : UInt16) ≤ q.dot := UInt16.le_iff_toNat_le.mpr h0
      have hlt : q.dot.toNat - 1 < 256 := by
        unfold screenWidth at h256
        omega
      rw [UInt16.toNat_toUInt8, UInt16.toNat_sub_of_le _ _ hle]
      exact Nat.mod_eq_of_lt hlt
    -- the colour does not depend on what the screen shows
    refine ⟨({ q with rendering := q.mask.draws }.fetched c).shownColor, fun f => ?_⟩
    have hcolor : ({ q with rendering := q.mask.draws, frame := f }.fetched c).shownColor =
        ({ q with rendering := q.mask.draws }.fetched c).shownColor :=
      fetched_shownColor { q with rendering := q.mask.draws } c f
    have hdraw : (q.onFrame f).dot ≤ 256 ∧ (q.onFrame f).onPrerender = false := hdraw
    refine (hframe f).trans ?_
    rw [if_pos hwork, drawingDot_frame, if_pos hdraw]
    show f.set (q.dot - 1).toUInt8.toNat q.row.toNat _ = _
    rw [hcolumn]
    exact congrArg (f.set _ _) hcolor
  · next hoff =>
    intro f
    refine (hframe f).trans ?_
    split
    · next hwork =>
      have hnot : ¬ ((q.onFrame f).dot ≤ 256 ∧ (q.onFrame f).onPrerender = false) := fun hdraw =>
        hoff (hscreen.mp ⟨hwork, hdraw⟩)
      rw [drawingDot_frame, if_neg hnot]
      rfl
    · rfl

/-- An access draws nothing. -/
theorem access_frame (h : act.movesOn = false) : (p.perform act).frame = p.frame := by
  cases act with
  | tick c => cases h
  | read c addr =>
    show (p.readRegister c addr).2.1.frame = p.frame
    unfold readRegister
    dsimp only
    split
    · rfl
    · unfold readSprites
      dsimp only
      split
      · split
        · rfl
        · rfl
      · rfl
    · rfl
    · rfl
  | write c addr data =>
    show (p.writeRegister c addr data).1.frame = p.frame
    unfold writeRegister
    dsimp only
    split
    · split
      · rfl
      · rfl
    · split
      · rfl
      · rfl
    · rfl
    · unfold writeSprites
      split
      · rfl
      · rfl
    · split
      · rfl
      · rfl
    · split
      · rfl
      · rfl
    · unfold writeData
      dsimp only
      split
      · rfl
      · rfl
    · rfl
  | takeNmi => rfl
  | requestDma page => rfl
  | takeDma => rfl
  | reset => cases h

/-- What does not move the unit on draws nothing. -/
theorem access_paints (h : act.movesOn = false) : Paints p act none := fun f =>
  access_frame (p := p.onFrame f) h

/-- Nor does a run of accesses. -/
theorem draws_still (h : ∀ act ∈ acts, act.movesOn = false) : Draws p acts [] := by
  induction acts generalizing p with
  | nil => exact .nil p
  | cons act acts ih =>
    have hrest := ih (p := p.perform act) fun a ha => h a (List.mem_cons_of_mem act ha)
    exact .cons (access_paints (h act List.mem_cons_self)) hrest

/-- What a warm unit has still to draw of a picture, it draws in order. -/
theorem ToStart.draws (ha : ToStart p acts) (h : Sweeping p) (hw : p.warmingUp = false) :
    Draws p acts (rasterOrder.drop (pixelsUpTo p.place)) := by
  induction ha with
  | @arrive p c acts hs hstill =>
    have hpaints := tick_paints hw (nextDot_dot h.placed) c
    obtain ⟨hrow, hdot, -⟩ := tick_position p c
    have hzero : p.nextDot.place = 0 := by
      have hat := (atStart_iff (h.tick c).dot).mp hs
      rwa [place, hrow, hdot] at hat
    have hrows := vblankRow_lt p.region
    have hend := (endsPicture_iff h.dot).mp (h.arrives hs).1
    have hall : pixelsUpTo p.place = 61440 := by
      have hvisible : 241 ≤ p.region.vblankRow.toNat := by cases p.region <;> decide
      unfold pixelsUpTo screenWidth screenHeight
      rw [if_neg (by omega)]
    rw [hzero, show pixelAt 0 = none from rfl] at hpaints
    rw [hall, List.drop_eq_nil_of_le (Nat.le_of_eq rasterOrder_length)]
    exact .cons hpaints (draws_still (p := (p.tick c).2.1) hstill)
  | @dot p c acts hs hrest ih =>
    obtain ⟨-, hplace, -⟩ := h.goesOn hs
    obtain ⟨hrow, hdot, -⟩ := tick_position p c
    have hpaints := tick_paints hw (nextDot_dot h.placed) c
    have hnext : p.nextDot.place = p.place + 1 := by
      rw [← hplace, place, place, hrow, hdot]
    have hih := ih (h.tick c) (tick_place hw c).1
    rw [hplace] at hih
    rw [hnext] at hpaints
    rw [drop_pixelsUpTo]
    exact .cons hpaints hih
  | @access p act acts hstill hrest ih =>
    have hih := ih (h.access hstill) ((access_warmingUp hstill).trans hw)
    rw [access_place hstill] at hih
    exact .cons (access_paints hstill) hih

/-! ## Together -/

/-- One picture, from a visit of its first dot to the next. -/
structure WholePicture (region : Region) (p : Picture) (acts : List (Act γ)) : Prop where
  /-- It has all its dots, or one less. -/
  length : (p.ticks acts).length = 341 * (region.prerenderRow.toNat + 1) ∨
    (p.ticks acts).length + 1 = 341 * (region.prerenderRow.toNat + 1)
  /-- It has one less exactly if it is an odd picture of an NTSC unit that is seen to draw near its
      end. -/
  short : (p.ticks acts).length + 1 = 341 * (region.prerenderRow.toNat + 1) ↔
    region = .ntsc ∧ p.oddFrame = true ∧ ∃ t ∈ p.ticks acts, t.drawsOnEve
  /-- The parity is the same on all its dots. -/
  parity : ∀ t ∈ p.ticks acts, t.found.oddFrame = p.oddFrame
  /-- The next picture has the other. -/
  turned : (p.run acts).oddFrame = !p.oddFrame
  /-- Vertical blank begins on one dot. -/
  vblank : (p.ticks acts).countP Tick.entersVblank = 1
  /-- A unit that is warm from its start draws each pixel once, in order. -/
  pixels : p.warmingUp = false → Draws p acts rasterOrder

/-- Whatever is done to the registers, the raster is regular: from one visit of the first dot of a picture
    to the next there are 341 dots for every row, or one less on the odd pictures of an NTSC unit that
    draws, the parity turns once, vertical blank begins once, and a warm unit draws every pixel once, row
    by row and from left to right. -/
theorem raster_geometry {region : Region} {before acts : List (Act γ)}
    (hs : ((new region).run before).atStart = true) (ha : ToStart ((new region).run before) acts) :
    WholePicture region ((new region).run before) acts := by
  have h := sweeping_run region before hs
  have hregion : ((new region).run before).region = region := run_region region before
  have hplace := (atStart_iff h.dot).mp hs
  obtain ⟨hlength, hshort⟩ := ha.length h
  obtain ⟨hparity, hturned⟩ := ha.oddFrame h
  have hvblank := ha.countP_enteredVblank h
  have hdraws := ha.draws h
  rw [hregion, hplace] at hlength hshort
  rw [hplace] at hvblank hdraws
  rw [Nat.zero_add] at hlength hshort
  constructor
  · exact hlength
  · rw [hshort]
    constructor
    · rintro ⟨hntsc, hodd, ⟨hlate, -⟩ | hex⟩
      · omega
      · exact ⟨hntsc, hodd, hex⟩
    · rintro ⟨hntsc, hodd, hex⟩
      exact ⟨hntsc, hodd, .inr hex⟩
  · exact hparity
  · exact hturned
  · exact hvblank
  · exact hdraws

/-- An NTSC unit that is left to itself draws all pixels of a picture, of all its dots. -/
theorem raster_geometry_idle : ∃ before acts : List (Act Nrom),
    ((new .ntsc).run before).atStart = true ∧ ToStart ((new .ntsc).run before) acts ∧
      (((new .ntsc).run before).ticks acts).countP Tick.entersVblank = 1 ∧
      Draws ((new .ntsc).run before) acts rasterOrder := by
  obtain ⟨k, hk⟩ := exists_after_warm (fun _ => solidBoard) .ntsc
  obtain ⟨n, hgoing, -, hplace⟩ := (going_warm .ntsc).exists_start fun _ => solidBoard
  have hbefore : (new .ntsc).run (List.replicate (k + n) (.tick solidBoard)) =
      (warm .ntsc).after (fun _ => solidBoard) n := by
    rw [run_ticks, after_add, hk]
  rw [← hbefore] at hgoing hplace
  have hs := (atStart_iff hgoing.dot).mpr hplace
  obtain ⟨m, ha⟩ := exists_toStart (sweeping_run .ntsc _ hs) solidBoard
  have h := raster_geometry hs ha
  exact ⟨_, _, hs, ha, h.vblank, h.pixels hgoing.warm⟩

end Picture

end Famicom
