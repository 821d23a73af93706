/-
  Whether vertical blank begins when the unit comes to it.

  A status read on the dot before vertical blank keeps vertical blank from beginning: it sets a latch,
  which the next beginning answers and clears.  While the unit warms up, though, its dots pass vertical
  blank by without a beginning.  A latch set then is answered by the first one after the warm-up, at
  least a picture later, on whose eve nothing was read.

  1. **Landings** (`Lands`): a dot on which a warm unit comes to vertical blank.  A landing answers the
     latch; a reset drops it; nothing else clears it (`missVblank_run`).
  2. **The latch** (`missVblank_iff`), told by the run before: the status was read on the eve and no time
     has passed since (`ReadOnEve`), or it was read on the eve of a cold unit and there was no landing
     since (`ReadWhileCold`).
  3. **The beginning** (`vblank_begins_iff`): on a landing the flag is set, and the interrupt requested if
     control asks for it, iff neither is the case.
  4. **A lost picture** (`exists_lost`): in either region there is a run to a landing that is not
     read on its eve and sets no flag.
-/
import Mathlib.Data.List.Induction
import Mathlib.Order.Nat
import Famicom.Proofs.Picture.BackgroundFrame
import Famicom.Proofs.Picture.Interrupt

namespace Famicom

namespace Picture

variable {γ : Type} [Cartridge γ] {p q : Picture} {act : Act γ} {acts : List (Act γ)} {region : Region}

/-! ## Landings, and what else an act is -/

/-- The act reads the status register. -/
def Act.readsStatus : Act γ → Bool
  | .read _ addr => addr &&& 0x0007 = 2
  | _ => false

/-- Time passes, or the unit starts anew. -/
def Act.movesOn : Act γ → Bool
  | .tick _ => true
  | .reset => true
  | _ => false

/-- The unit starts anew. -/
def Act.restarts : Act γ → Bool
  | .reset => true
  | _ => false

/-- With this act a warm unit comes to the dot on which vertical blank begins. -/
def Lands (p : Picture) (act : Act γ) : Prop :=
  (∃ c, act = .tick c) ∧ p.warmingUp = false ∧ p.nextDot.enteredVblank = true

/-- What does not move the unit on leaves the engine alone. -/
theorem perform_engine (h : act.movesOn = false) : (p.perform act).engine = p.engine := by
  cases act with
  | tick c => cases h
  | read c addr => exact readRegister_engine p c addr
  | write c addr data => exact writeRegister_engine p c addr data
  | takeNmi => rfl
  | requestDma page => rfl
  | takeDma => rfl
  | reset => cases h

theorem run_engine (h : ∀ a ∈ acts, a.movesOn = false) : (p.run acts).engine = p.engine := by
  induction acts generalizing p with
  | nil => rfl
  | cons act acts ih =>
    have hact := perform_engine (p := p) (h act List.mem_cons_self)
    exact (ih fun a ha => h a (List.mem_cons_of_mem act ha)).trans hact

theorem onEve_congr (h : q.engine = p.engine) : q.onEve = p.onEve := by
  unfold onEve
  rw [show q.row = p.row from congrArg Engine.row h, show q.dot = p.dot from congrArg Engine.dot h,
    show q.region = p.region from congrArg Engine.region h]

/-! ## The latch, act by act -/

/-- A landing answers the latch. -/
theorem missVblank_of_lands (h : Lands p act) : (p.perform act).missVblank = false := by
  obtain ⟨⟨c, rfl⟩, hw, he⟩ := h
  have hs : (p.tick c).2.1.missVblank = _ := congrArg Signals.missVblank (tick_signals hw c)
  rw [if_pos he] at hs
  refine hs.trans ?_
  unfold Signals.beginVblank
  split
  · rfl
  · next hm => exact Bool.eq_false_iff.mpr hm

/-- A dot that is no landing leaves it alone. -/
theorem missVblank_tick {c : γ} (h : ¬ Lands p (.tick c)) :
    (p.perform (.tick c)).missVblank = p.missVblank := by
  cases hw : p.warmingUp with
  | true =>
    show (p.tick c).2.1.signals.missVblank = p.signals.missVblank
    rw [tick_warmingUp p c hw, warmUp_signals, nextDot_signals]
  | false =>
    have hs : (p.tick c).2.1.missVblank = _ := congrArg Signals.missVblank (tick_signals hw c)
    refine hs.trans ?_
    rw [if_neg fun he => h ⟨⟨c, rfl⟩, hw, he⟩]
    split
    · rfl
    · rfl

/-- Of the other acts a status read on the eve sets it. -/
theorem missVblank_perform (h : ¬ Lands p act) (hr : act.restarts = false) :
    (p.perform act).missVblank = (p.missVblank || (act.readsStatus && p.onEve)) := by
  cases act with
  | tick c =>
    rw [missVblank_tick h]
    exact (Bool.or_false _).symm
  | read c addr =>
    have hs : (p.readRegister c addr).2.1.missVblank = _ :=
      congrArg Signals.missVblank (readRegister_signals p c addr)
    refine hs.trans ?_
    show _ = (p.missVblank || (decide (addr &&& 0x0007 = 2) && p.onEve))
    split
    · next h2 =>
      rw [decide_eq_true h2]
      rfl
    · next h2 =>
      rw [decide_eq_false h2]
      exact (Bool.or_false _).symm
  | write c addr data =>
    have hs : (p.writeRegister c addr data).1.missVblank = p.missVblank := by
      rcases writeRegister_signals p c addr data with hs | hs
      · exact congrArg Signals.missVblank hs
      · exact congrArg Signals.missVblank hs
    exact hs.trans (Bool.or_false _).symm
  | takeNmi => exact (Bool.or_false _).symm
  | requestDma page => exact (Bool.or_false _).symm
  | takeDma => exact (Bool.or_false _).symm
  | reset => cases hr

/-- Once set, the latch outlives acts without a landing and without a reset. -/
theorem missVblank_run (h : p.missVblank = true) (hr : ∀ a ∈ acts, a.restarts = false)
    (hl : ∀ mid a, mid ++ [a] <+: acts → ¬ Lands (p.run mid) a) : (p.run acts).missVblank = true := by
  induction acts generalizing p with
  | nil => exact h
  | cons act acts ih =>
    have hact : ¬ Lands p act := hl [] act ⟨acts, rfl⟩
    refine ih ?_ (fun a ha => hr a (List.mem_cons_of_mem act ha)) fun mid a hm => ?_
    · rw [missVblank_perform hact (hr act List.mem_cons_self), h]
      rfl
    · exact hl (act :: mid) a ((List.prefix_cons_inj act).mpr hm)

/-! ## The latch, told by the run before -/

/-- The status was read on the dot before vertical blank, and no time has passed since. -/
def ReadOnEve (region : Region) (acts : List (Act γ)) : Prop :=
  ∃ before act after, acts = before ++ act :: after ∧ act.readsStatus = true ∧
    ((new region).run before).onEve = true ∧ ∀ a ∈ after, a.movesOn = false

/-- The status was read on the dot before vertical blank by a unit that was warming up, and there was
    no landing since. -/
def ReadWhileCold (region : Region) (acts : List (Act γ)) : Prop :=
  ∃ before act after, acts = before ++ act :: after ∧ act.readsStatus = true ∧
    ((new region).run before).onEve = true ∧ ((new region).run before).warmingUp = true ∧
    (∀ a ∈ after, a.restarts = false) ∧
    ∀ mid a, mid ++ [a] <+: after → ¬ Lands ((new region).run (before ++ act :: mid)) a

omit [Cartridge γ] in
theorem Act.readsStatus_spec (h : act.readsStatus = true) :
    act.movesOn = false ∧ act.restarts = false ∧ ¬ Lands p act := by
  cases act with
  | read c addr =>
    refine ⟨rfl, rfl, ?_⟩
    rintro ⟨⟨c', hc⟩, -⟩
    cases hc
  | _ => cases h

omit [Cartridge γ] in
theorem Act.not_lands (h : act.movesOn = false) : act.restarts = false ∧ ¬ Lands p act := by
  cases act with
  | tick c => cases h
  | reset => cases h
  | _ =>
    refine ⟨rfl, ?_⟩
    rintro ⟨⟨c', hc⟩, -⟩
    cases hc

/-- A status read on the eve sets the latch, whatever is done then without a landing. -/
theorem missVblank_of_read {before after : List (Act γ)} (hread : act.readsStatus = true)
    (heve : ((new region).run before).onEve = true) (hr : ∀ a ∈ after, a.restarts = false)
    (hl : ∀ mid a, mid ++ [a] <+: after → ¬ Lands ((new region).run (before ++ act :: mid)) a) :
    ((new region).run (before ++ act :: after)).missVblank = true := by
  obtain ⟨-, hrestart, hland⟩ := Act.readsStatus_spec (p := (new region).run before) hread
  have hset : (((new region).run before).perform act).missVblank = true := by
    rw [missVblank_perform hland hrestart, hread, heve]
    exact Bool.or_true _
  rw [run_append]
  refine missVblank_run (p := ((new region).run before).perform act) hset hr fun mid a hm => ?_
  have hmid := hl mid a hm
  rw [run_append] at hmid
  exact hmid

theorem ReadOnEve.missVblank (h : ReadOnEve region acts) :
    ((new region).run acts).missVblank = true := by
  obtain ⟨before, act, after, rfl, hread, heve, hstill⟩ := h
  refine missVblank_of_read hread heve (fun a ha => ?_) fun mid a hm => ?_
  · exact (Act.not_lands (p := new region) (hstill a ha)).1
  · have ha : a ∈ after := hm.subset (List.mem_append_right mid List.mem_cons_self)
    exact (Act.not_lands (hstill a ha)).2

theorem ReadWhileCold.missVblank (h : ReadWhileCold region acts) :
    ((new region).run acts).missVblank = true := by
  obtain ⟨before, act, after, rfl, hread, heve, -, hr, hl⟩ := h
  exact missVblank_of_read hread heve hr hl

/-- An act that does not land and does not restart adds to a read of a cold unit. -/
theorem ReadWhileCold.concat (h : ReadWhileCold region acts) (hr : act.restarts = false)
    (hl : ¬ Lands ((new region).run acts) act) : ReadWhileCold region (acts ++ [act]) := by
  obtain ⟨before, read, after, rfl, hread, heve, hcold, hrs, hls⟩ := h
  refine ⟨before, read, after ++ [act], by simp, hread, heve, hcold, fun a ha => ?_, fun mid a hm => ?_⟩
  · rcases List.mem_append.mp ha with ha | ha
    · exact hrs a ha
    · rw [List.mem_singleton.mp ha]
      exact hr
  · rcases List.prefix_concat_iff.mp hm with heq | hm
    · obtain ⟨rfl, hact⟩ := List.append_inj' heq rfl
      cases hact
      exact hl
    · exact hls mid a hm

/-- On the eve only a dot moves on, and in a cold unit it is no landing. -/
theorem ReadOnEve.concat (h : ReadOnEve region acts) (hr : act.restarts = false)
    (hl : ¬ Lands ((new region).run acts) act) :
    ReadOnEve region (acts ++ [act]) ∨ ReadWhileCold region (acts ++ [act]) := by
  obtain ⟨before, read, after, rfl, hread, heve, hstill⟩ := h
  cases hm : act.movesOn with
  | false =>
    refine .inl ⟨before, read, after ++ [act], by simp, hread, heve, fun a ha => ?_⟩
    rcases List.mem_append.mp ha with ha | ha
    · exact hstill a ha
    · rw [List.mem_singleton.mp ha]
      exact hm
  | true =>
    have hmoves : ∀ a ∈ read :: after, a.movesOn = false := by
      intro a ha
      rcases List.mem_cons.mp ha with rfl | ha
      · exact (Act.readsStatus_spec (p := new region) hread).1
      · exact hstill a ha
    have hengine : ((new region).run (before ++ read :: after)).engine =
        ((new region).run before).engine := by
      rw [run_append]
      exact run_engine hmoves
    have htick : ∃ c, act = .tick c := by
      cases act with
      | tick c => exact ⟨c, rfl⟩
      | reset => cases hr
      | _ => cases hm
    -- on the eve a warm unit would land, so the unit is cold, and was when the status was read
    have hcold : ((new region).run before).warmingUp = true := by
      cases hw : ((new region).run before).warmingUp with
      | true => rfl
      | false =>
        refine absurd ⟨htick, ?_, ?_⟩ hl
        · exact (congrArg Engine.warmingUp hengine).trans hw
        · exact nextDot_of_onEve ((onEve_congr hengine).trans heve)
    have hwhile : ReadWhileCold region (before ++ read :: after) := by
      refine ⟨before, read, after, rfl, hread, heve, hcold, fun a ha => ?_, fun mid a hp => ?_⟩
      · exact (Act.not_lands (p := new region) (hstill a ha)).1
      · have ha : a ∈ after := hp.subset (List.mem_append_right mid List.mem_cons_self)
        exact (Act.not_lands (hstill a ha)).2
    exact .inr (hwhile.concat hr hl)

/-- The latch is set iff the status was read on the eve just now, or by a cold unit since whose time
    there was no landing. -/
theorem missVblank_iff :
    ((new region).run acts).missVblank = true ↔
      ReadOnEve region acts ∨ ReadWhileCold region acts := by
  constructor
  · induction acts using List.reverseRecOn with
    | nil => exact fun h => by cases h
    | append_singleton acts act ih =>
      intro h
      rw [run_concat] at h
      have hl : ¬ Lands ((new region).run acts) act := fun hl => by
        rw [missVblank_of_lands hl] at h
        cases h
      have hr : act.restarts = false := by
        cases act with
        | reset => cases h
        | _ => rfl
      rw [missVblank_perform hl hr] at h
      rcases Bool.or_eq_true_iff.mp h with hold | hnew
      · rcases ih hold with heve | hcold
        · exact heve.concat hr hl
        · exact .inr (hcold.concat hr hl)
      · obtain ⟨hread, heve⟩ := Bool.and_eq_true_iff.mp hnew
        exact .inl ⟨acts, act, [], rfl, hread, heve, by simp⟩
  · rintro (heve | hcold)
    · exact heve.missVblank
    · exact hcold.missVblank

/-! ## The beginning of vertical blank -/

/-- On a landing the flag is what the latch leaves of it. -/
theorem vblank_of_lands (h : Lands p act) (hq : Quiet p) (hp : Placed p) :
    (p.perform act).vblank = !p.missVblank ∧
      (p.perform act).nmiRequested = (p.nmiRequested || (!p.missVblank && p.control.nmi)) := by
  obtain ⟨⟨c, rfl⟩, hw, he⟩ := h
  have hclear : p.signals.vblank = false := hq.clear hp he
  have hs : (p.tick c).2.1.signals = p.signals.beginVblank :=
    (tick_signals hw c).trans (if_pos he)
  have hv : (p.perform (.tick c)).vblank = p.signals.beginVblank.vblank :=
    congrArg Signals.vblank hs
  have hn : (p.perform (.tick c)).nmiRequested = p.signals.beginVblank.nmiRequested :=
    congrArg Signals.nmiRequested hs
  rw [hv, hn]
  show _ = (!p.signals.missVblank) ∧
    _ = (p.signals.nmiRequested || (!p.signals.missVblank && p.signals.control.nmi))
  unfold Signals.beginVblank
  cases hm : p.signals.missVblank with
  | true =>
    rw [if_pos rfl]
    exact ⟨hclear, (Bool.or_false _).symm⟩
  | false =>
    rw [if_neg (by decide)]
    exact ⟨rfl, rfl⟩

/-- On a landing the flag is set, and the interrupt requested if control asks for it, unless the status
    was read on the dot before, or on the dot before the vertical blank that a cold unit passed by
    last. -/
theorem vblank_begins_iff (h : Lands ((new region).run acts) act) :
    ((((new region).run acts).perform act).vblank = true ↔
      ¬ (ReadOnEve region acts ∨ ReadWhileCold region acts)) ∧
    (((new region).run acts).perform act).nmiRequested =
      (((new region).run acts).nmiRequested ||
        ((((new region).run acts).perform act).vblank && ((new region).run acts).control.nmi)) := by
  obtain ⟨hv, hn⟩ := vblank_of_lands h (quiet_run region acts) (placed_run region acts)
  rw [hn, hv, ← missVblank_iff]
  refine ⟨?_, rfl⟩
  rw [Bool.not_eq_true', Bool.not_eq_true]

/-- A unit left to itself comes to vertical blank, for a first time. -/
theorem exists_first_lands (h : Placed p) (c : γ) :
    ∃ n, Lands (p.run (List.replicate n (.tick c))) (.tick c) ∧
      ∀ m < n, ¬ Lands (p.run (List.replicate m (.tick c))) (.tick c) := by
  classical
  have hex : ∃ n, Lands (p.run (List.replicate n (.tick c))) (.tick c) := by
    obtain ⟨n, -, hw, heve⟩ := h.exists_eve fun _ => c
    refine ⟨n, ?_⟩
    rw [run_ticks]
    exact ⟨⟨c, rfl⟩, hw, nextDot_of_onEve heve⟩
  exact ⟨Nat.find hex, Nat.find_spec hex, fun m hm => Nat.find_min hex hm⟩

/-- So it does from power-on, with nothing read. -/
theorem vblank_begins_unread : ∃ acts : List (Act Nrom),
    Lands ((new .ntsc).run acts) (.tick solidBoard) ∧
    ((((new .ntsc).run acts).perform (.tick solidBoard)).vblank = true ↔
      ¬ (ReadOnEve .ntsc acts ∨ ReadWhileCold .ntsc acts)) ∧
    (((new .ntsc).run acts).perform (.tick solidBoard)).nmiRequested =
      (((new .ntsc).run acts).nmiRequested ||
        ((((new .ntsc).run acts).perform (.tick solidBoard)).vblank &&
          ((new .ntsc).run acts).control.nmi)) := by
  obtain ⟨n, hland, -⟩ := exists_first_lands (.new .ntsc) solidBoard
  exact ⟨_, hland, vblank_begins_iff hland⟩

/-! ## A lost picture -/

/-- A unit from power-on comes to the dot before vertical blank before it is warm. -/
theorem exists_cold_eve (region : Region) (c : γ) :
    ∃ n, ((new region).run (List.replicate n (.tick c))).onEve = true ∧
      ((new region).run (List.replicate n (.tick c))).warmingUp = true := by
  have hle : 341 * region.vblankRow.toNat < region.warmUpDots := by cases region <;> decide
  have hat := after_warmUp region (fun _ => c) (341 * region.vblankRow.toNat) (Nat.le_of_lt hle)
  refine ⟨341 * region.vblankRow.toNat + 1, ?_⟩
  rw [run_ticks, hat]
  constructor
  · cases region with
    | ntsc => rfl
    | pal => rfl
  · exact decide_eq_true (Nat.ne_of_lt hle)

/-- After a dot nothing has been read since. -/
theorem not_readOnEve_tick (region : Region) (acts : List (Act γ)) (c : γ) :
    ¬ ReadOnEve region (acts ++ [.tick c]) := by
  rintro ⟨before, act, after, heq, hread, -, hstill⟩
  rcases List.eq_nil_or_concat after with rfl | ⟨rest, a, rfl⟩
  · obtain ⟨-, hact⟩ := List.append_inj' heq rfl
    cases hact
    cases hread
  · rw [List.concat_eq_append, ← List.cons_append, ← List.append_assoc] at heq
    obtain ⟨-, hact⟩ := List.append_inj' heq rfl
    cases hact
    rw [List.concat_eq_append] at hstill
    have hmoves := hstill (.tick c) (List.mem_append_right rest List.mem_cons_self)
    cases hmoves

/-- In either region there is a run to a vertical blank that is not read on its eve, and does not
    begin: the status was read on the eve of the one before, which the cold unit passed by. -/
theorem exists_lost (region : Region) : ∃ acts : List (Act Nrom),
    Lands ((new region).run acts) (.tick solidBoard) ∧ ¬ ReadOnEve region acts ∧
      (((new region).run acts).perform (.tick solidBoard)).vblank = false := by
  obtain ⟨k, heve, hcold⟩ := exists_cold_eve region solidBoard
  generalize hbefore : List.replicate k (Act.tick solidBoard) = before at heve hcold
  obtain ⟨n, hland, hfirst⟩ :=
    exists_first_lands (placed_run region (before ++ [.read solidBoard 0x2002])) solidBoard
  have hwhile : ReadWhileCold region
      (before ++ .read solidBoard 0x2002 :: List.replicate n (.tick solidBoard)) := by
    refine ⟨before, _, _, rfl, rfl, heve, hcold, fun a ha => ?_, fun mid a hm => ?_⟩
    · rw [List.eq_of_mem_replicate ha]
      rfl
    · obtain ⟨hlen, hmid⟩ := List.prefix_replicate_iff.mp hm
      rw [List.length_append, List.length_singleton] at hlen hmid
      rw [List.replicate_succ'] at hmid
      obtain ⟨hsame, hact⟩ := List.append_inj' hmid rfl
      have hnot := hfirst mid.length (by omega)
      rw [← hsame, ← run_append, List.append_assoc] at hnot
      rw [(List.cons.inj hact).1]
      exact hnot
  have hcons : before ++ .read solidBoard 0x2002 :: List.replicate n (.tick solidBoard) =
      before ++ [.read solidBoard 0x2002] ++ List.replicate n (.tick solidBoard) := by simp
  have hmissed := hwhile.missVblank
  rw [hcons] at hmissed
  rw [← run_append] at hland
  refine ⟨_, hland, ?_, ?_⟩
  · -- the unit was cold when the status was read, so the landing is some dots away
    cases n with
    | zero =>
      obtain ⟨-, hwarm, -⟩ := hland
      have hengine : ((new region).run (before ++ [.read solidBoard 0x2002])).engine =
          ((new region).run before).engine := by
        rw [run_concat]
        exact perform_engine rfl
      have hsame : ((new region).run (before ++ [.read solidBoard 0x2002])).warmingUp = true :=
        (congrArg Engine.warmingUp hengine).trans hcold
      rw [List.replicate_zero, List.append_nil, hsame] at hwarm
      cases hwarm
    | succ m =>
      rw [List.replicate_succ', ← List.append_assoc]
      exact not_readOnEve_tick region _ solidBoard
  · rw [(vblank_of_lands hland (quiet_run region _) (placed_run region _)).1, hmissed]
    rfl

/-- So a picture of an NTSC unit goes without its vertical blank. -/
theorem exists_vblank_lost_ntsc : ∃ acts : List (Act Nrom),
    Lands ((new .ntsc).run acts) (.tick solidBoard) ∧ ¬ ReadOnEve .ntsc acts ∧
      (((new .ntsc).run acts).perform (.tick solidBoard)).vblank = false :=
  exists_lost .ntsc

end Picture

end Famicom
