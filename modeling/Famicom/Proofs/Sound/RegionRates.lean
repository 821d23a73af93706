/-
  The rates of the noise and the delta modulation channel, where the region changes.

  Both channels take the period of their timer from a table of the region, one less than its entry.  The
  period is taken when the rate is written and kept from then on: a change of region changes the table
  and not the period.

  1. **What keeps the periods** (`paces`): all that is done to the unit but the two registers and a
     reset; one lemma for each operation, from that of a run of the frame counter (`paces_advance`).
  2. **The registers** (`paces_writeRegister`): `$400E` and `$4010`, and no others, take a new period, from
     the table of the region the channel is in.
  3. **The tables** (`Noise.periodOf_eq_iff`, `Dmc.periodOf_eq_iff`): the two regions share the first two
     noise periods and nothing else.
  4. **The rates in effect** (`Paced`): which value was written to either register last, and in which
     region; by induction over all that is done to the unit, the periods are those (`Paced.runsAt`).

  Main statement: each channel runs at the rate that its last value chose in the region in which it was
  written, and so at that of the present region iff it was written in it or the tables agree there; a
  change of region leaves both as they are (`Paced.rates`).
-/
import Famicom.Proofs.Sound.ChannelRanges
import Famicom.Proofs.Sound.Wiring

namespace Famicom

/-! ## The tables -/

/-- The tables of the two regions agree where the noise is highest. -/
theorem Noise.periodOf_eq_iff (region other : Region) (value : UInt8) :
    periodOf region value = periodOf other value ↔ region = other ∨ value.toNat % 16 ≤ 1 := by
  have htable : ∀ i : Fin 16, (periods region)[i] - 1 = (periods other)[i] - 1 ↔
      region = other ∨ i.val ≤ 1 := by
    cases region <;> cases other <;> decide
  exact htable ⟨value.toNat % 16, Timer.rate_lt value⟩

/-- The tables of the two regions have no entry in common. -/
theorem Dmc.periodOf_eq_iff (region other : Region) (value : UInt8) :
    periodOf region value = periodOf other value ↔ region = other := by
  have htable : ∀ i : Fin 16, (periods region)[i] - 1 = (periods other)[i] - 1 ↔ region = other := by
    cases region <;> cases other <;> decide
  exact htable ⟨value.toNat % 16, Timer.rate_lt value⟩

/-- An address, by its place among the words of four registers and the register in it. -/
theorem toNat_eq_register (addr : UInt16) :
    addr.toNat = 4 * (addr >>> (2 : UInt16)).toNat + (addr &&& 0x03).toNat := by
  have hword : (addr >>> (2 : UInt16)).toNat = addr.toNat / 4 := by
    rw [UInt16.toNat_shiftRight, Nat.shiftRight_eq_div_pow]
    rfl
  have hregister : (addr &&& 0x03).toNat = addr.toNat % 4 := by
    rw [UInt16.toNat_and]
    exact Nat.and_two_pow_sub_one_eq_mod addr.toNat 2
  omega

/-- A register of a channel is at one address. -/
theorem register_iff {addr word : UInt16} (hword : addr >>> (2 : UInt16) = word) (register place : UInt16)
    (hplace : place.toNat = 4 * word.toNat + register.toNat) : addr &&& 0x03 = register ↔ addr = place := by
  have haddr := toNat_eq_register addr
  rw [hword] at haddr
  rw [← UInt16.toNat_inj, ← UInt16.toNat_inj]
  omega

/-! ## The registers that take a period -/

theorem Noise.period_write (n : Noise) (register : UInt16) (data : UInt8) (m : Mixer) :
    (n.write register data m).1.timer.period =
      if register = 2 then periodOf n.region data else n.timer.period := by
  unfold Noise.write
  split
  · rfl
  · rfl
  · rfl
  · next h =>
    rw [if_neg h]
    rfl

theorem Dmc.period_write (d : Dmc) (register : UInt16) (data : UInt8) (m : Mixer) :
    (d.write register data m).1.timer.period =
      if register = 0 then periodOf d.region data else d.timer.period := by
  unfold Dmc.write
  split
  · rfl
  · rfl
  · rfl
  · next h _ _ =>
    rw [if_neg h]
    rfl

namespace Sound

variable {s s' : Sound}

/-! ## What keeps the periods -/

/-- The periods of the noise channel's timer and of the delta modulation channel's. -/
def paces (s : Sound) : UInt16 × UInt16 := (s.noise.timer.period, s.dmc.timer.period)

theorem paces_congr (hn : s'.noise.timer = s.noise.timer) (hd : s'.dmc.timer = s.dmc.timer) :
    s'.paces = s.paces := by
  unfold paces
  rw [hn, hd]

theorem paces_clock (event : Option FrameEvent) (s : Sound) : (s.clock event).paces = s.paces := by
  rcases event with _ | _ | _
  · rfl
  · rfl
  · rfl

theorem paces_runChannels (s : Sound) : s.runChannels.paces = s.paces :=
  Prod.ext (Timer.drive_period _ _ _ _) (Timer.drive_period _ _ _ _)

theorem paces_advance (cycles : Nat) (event : Option FrameEvent) (s : Sound) :
    (advance cycles event s).paces = s.paces :=
  (paces_runChannels _).trans (paces_clock event { s with previous := s.previous + cycles })

theorem paces_catchUp (s : Sound) : s.catchUp.paces = s.paces := by
  rw [catchUp_eq]
  refine FrameCounter.drive_inv (P := fun _ (q : Sound) => q.paces = s.paces) ?_ _ s.frameCounter rfl
  intro _ taken event q _ h
  exact (paces_advance taken event q).trans h

theorem paces_endFrame (s : Sound) : s.endFrame.2.paces = s.paces := by
  unfold endFrame
  dsimp only
  split
  · exact paces_catchUp s
  · exact paces_catchUp s

theorem paces_process (s : Sound) : s.process.2.paces = s.paces := by
  unfold process
  dsimp only
  split
  · exact paces_endFrame { s with current := s.current + 1 }
  · refine (paces_catchUp _).trans ?_
    exact paces_congr rfl s.dmc.kept_tickStartDelay.timer

theorem paces_read (s : Sound) (addr : UInt16) : (s.read addr).2.paces = s.paces := by
  unfold read
  dsimp only
  split
  · exact paces_catchUp s
  · exact paces_catchUp s

/-- A change of region changes the tables, and the periods stay. -/
theorem paces_setRegion (s : Sound) (region : Region) : (s.setRegion region).2.paces = s.paces := by
  unfold setRegion
  dsimp only
  split
  · rfl
  · exact paces_catchUp { s with
      region, mixer := _, dmc := s.dmc.setRegion region, noise := s.noise.setRegion region }

/-! ## The registers -/

/-- Two addresses take a period, and the rest keep both. -/
theorem paces_writeRegister (s : Sound) (addr : UInt16) (data : UInt8) :
    (s.writeRegister addr data).paces =
      (if addr = 0x400E then Noise.periodOf s.noise.region data else s.noise.timer.period,
        if addr = 0x4010 then Dmc.periodOf s.dmc.region data else s.dmc.timer.period) := by
  have hother {word : UInt16} (hword : addr >>> (2 : UInt16) = word) (hn : word ≠ 0x1003)
      (hd : word ≠ 0x1004) :
      s.paces =
        (if addr = 0x400E then Noise.periodOf s.noise.region data else s.noise.timer.period,
          if addr = 0x4010 then Dmc.periodOf s.dmc.region data else s.dmc.timer.period) := by
    rw [if_neg (by rintro rfl; exact hn hword.symm), if_neg (by rintro rfl; exact hd hword.symm)]
    rfl
  unfold writeRegister
  dsimp only
  split
  · next hword => exact hother hword (by decide) (by decide)
  · next hword => exact hother hword (by decide) (by decide)
  · next hword => exact hother hword (by decide) (by decide)
  · next hword =>
    have hne : addr ≠ 0x4010 := by
      rintro rfl
      cases hword
    refine Prod.ext ?_ (if_neg hne).symm
    refine (Noise.period_write _ _ _ _).trans ?_
    exact ite_congr (propext (register_iff hword 2 0x400E rfl)) (fun _ => rfl) fun _ => rfl
  · next hword =>
    have hne : addr ≠ 0x400E := by
      rintro rfl
      cases hword
    refine Prod.ext (if_neg hne).symm ?_
    refine (Dmc.period_write _ _ _ _).trans ?_
    exact ite_congr (propext (register_iff hword 0 0x4010 rfl)) (fun _ => rfl) fun _ => rfl
  · next hn hd =>
    have hkept := hother rfl hn hd
    split
    · rw [← hkept]
      exact paces_congr rfl (Dmc.kept_setEnabled _ _).timer
    · split
      · exact hkept
      · exact hkept

/-! ## The rates in effect -/

/-- A value written to a register that chooses a rate, and the region in which it was written. -/
structure Rate where
  region : Region
  value : UInt8
  deriving DecidableEq, Repr

/-- What can become of the unit, with the values that were written last to `$400E` and to `$4010`.  Before
    any is written they are zero. -/
inductive Paced : Rate → Rate → Sound → Prop where
  | new {region : Region} {settings : MixerSettings} {s : Sound} :
      Sound.new region settings = .ok s → Paced ⟨region, 0⟩ ⟨region, 0⟩ s
  | process {n d : Rate} {s : Sound} : Paced n d s → Paced n d s.process.2
  | endFrame {n d : Rate} {s : Sound} : Paced n d s → Paced n d s.endFrame.2
  | read {n d : Rate} {s : Sound} (addr : UInt16) : Paced n d s → Paced n d (s.read addr).2
  | write {n d : Rate} {s : Sound} (addr : UInt16) (data : UInt8) : Paced n d s →
      Paced (if addr = 0x400E then ⟨s.region, data⟩ else n) (if addr = 0x4010 then ⟨s.region, data⟩ else d)
        (s.write addr data)
  | takeDmcRequest {n d : Rate} {s : Sound} : Paced n d s → Paced n d s.takeDmcRequest.2
  | fillDmc {n d : Rate} {s : Sound} (value : UInt8) : Paced n d s → Paced n d (s.fillDmc value)
  | takeSamples {n d : Rate} {s : Sound} : Paced n d s → Paced n d s.takeSamples.2
  | setRegion {n d : Rate} {s : Sound} (region : Region) : Paced n d s → Paced n d (s.setRegion region).2
  | reset {n d : Rate} {s : Sound} : Paced n d s → Paced ⟨s.region, 0⟩ ⟨s.region, 0⟩ s.reset.2

/-- The unit is wired for its region by settings that a unit can have. -/
def Wired (s : Sound) : Prop :=
  ∃ settings : MixerSettings, settings.bufferSamples ≠ 0 ∧ Mixer.HasRoom settings ∧
    settings.sampleRate ≠ 0 ∧ s.wiring = .regular s.region settings

theorem Wired.congr (h : s.Wired) (hw : s'.wiring = s.wiring) : s'.Wired := by
  obtain ⟨settings, hb, hspace, hs, hwiring⟩ := h
  have hregion : s'.region = s.region := congrArg Wiring.region hw
  refine ⟨settings, hb, hspace, hs, ?_⟩
  rw [hw, hregion, hwiring]

theorem Wired.regions (h : s.Wired) : s.noise.region = s.region ∧ s.dmc.region = s.region := by
  obtain ⟨settings, -, -, -, hw⟩ := h
  exact ⟨congrArg Wiring.noise hw, congrArg Wiring.dmc hw⟩

theorem wired_new {region : Region} {settings : MixerSettings} (h : Sound.new region settings = .ok s) :
    s.Wired ∧ s.region = region := by
  obtain ⟨hw, -⟩ := new_eq_ok h
  have hregion : s.region = region := congrArg Wiring.region hw
  unfold Sound.new at h
  cases hm : Mixer.new region settings with
  | error e =>
    rw [hm] at h
    cases h
  | ok m =>
    obtain ⟨hb, hspace, hs, -⟩ := Mixer.new_eq_ok_iff.mp hm
    have hbuffer : settings.bufferSamples ≠ 0 := by
      rintro he
      rw [he] at hb
      exact hb rfl
    rw [← hregion] at hw
    exact ⟨⟨settings, hbuffer, hspace, hs, hw⟩, hregion⟩

/-- A change of region is never refused. -/
theorem Wired.setRegion (h : s.Wired) (region : Region) :
    (s.setRegion region).2.Wired ∧ (s.setRegion region).2.region = region := by
  obtain ⟨settings, hb, hspace, hs, hwiring⟩ := h
  obtain ⟨-, hw⟩ := setRegion_regular hwiring hs region
  have hregion : (s.setRegion region).2.region = region := congrArg Wiring.region hw
  refine ⟨⟨settings, hb, hspace, hs, ?_⟩, hregion⟩
  rw [hw, hregion]

/-- Neither is going back to power-on. -/
theorem Wired.reset (h : s.Wired) : s.reset.2.Wired ∧ s.reset.2.region = s.region := by
  obtain ⟨settings, hb, hspace, hs, hwiring⟩ := h
  obtain ⟨q, hq⟩ := exists_new hb hspace hs s.region
  obtain ⟨mixer, he, hr, hms⟩ := reset_regular hwiring hs hq
  obtain ⟨hw, -⟩ := new_eq_ok hq
  have hregion : s.reset.2.region = s.region := by
    rw [he]
    exact congrArg Wiring.region hw
  refine ⟨⟨settings, hb, hspace, hs, ?_⟩, hregion⟩
  rw [hregion, he, ← hw]
  exact wiring_congr rfl rfl rfl rfl rfl rfl
    ⟨hr.trans (congrArg Wiring.mixer hw).symm, hms.trans (congrArg Wiring.settings hw).symm⟩

/-- The two channels run at these rates. -/
structure RunsAt (n d : Rate) (s : Sound) : Prop where
  wired : s.Wired
  paces : s.paces = (Noise.periodOf n.region n.value, Dmc.periodOf d.region d.value)

variable {n d : Rate}

/-- What leaves the wiring and the periods alone leaves the unit running at these rates. -/
theorem RunsAt.congr (h : RunsAt n d s) (hw : s'.wiring = s.wiring) (hp : s'.paces = s.paces) :
    RunsAt n d s' :=
  ⟨h.wired.congr hw, hp.trans h.paces⟩

/-- A register that takes a period takes it in the region of the unit. -/
theorem RunsAt.writeRegister (h : RunsAt n d s) (addr : UInt16) (data : UInt8) :
    RunsAt (if addr = 0x400E then ⟨s.region, data⟩ else n) (if addr = 0x4010 then ⟨s.region, data⟩ else d)
      (s.writeRegister addr data) := by
  obtain ⟨hn, hd⟩ := h.wired.regions
  have hkept : s.noise.timer.period = Noise.periodOf n.region n.value ∧
      s.dmc.timer.period = Dmc.periodOf d.region d.value := Prod.mk.inj h.paces
  refine ⟨h.wired.congr (wiring_writeRegister s addr data), ?_⟩
  rw [paces_writeRegister, hn, hd, hkept.1, hkept.2]
  refine congrArg₂ Prod.mk ?_ ?_
  · split
    · rfl
    · rfl
  · split
    · rfl
    · rfl

/-- The channels run at the rates that were written last, in the regions in which they were written. -/
theorem Paced.runsAt (h : Paced n d s) : RunsAt n d s := by
  induction h with
  | new hs =>
    obtain ⟨-, he⟩ := new_eq_ok hs
    refine ⟨(wired_new hs).1, ?_⟩
    rw [he]
    rfl
  | process _ ih => exact ih.congr (wiring_process _) (paces_process _)
  | endFrame _ ih => exact ih.congr (wiring_endFrame _) (paces_endFrame _)
  | read addr _ ih => exact ih.congr (wiring_read _ addr) (paces_read _ addr)
  | @write n d s addr data _ ih =>
    -- the unit catches up before the register is written, which leaves its region alone
    have hw := wiring_catchUp s
    have hregion : s.catchUp.region = s.region := congrArg Wiring.region hw
    have hcatch := (ih.congr hw (paces_catchUp s)).writeRegister addr data
    rwa [hregion] at hcatch
  | @takeDmcRequest _ _ s _ ih =>
    exact ih.congr (wiring_takeDmcRequest s) (paces_congr rfl s.dmc.kept_takeRequest.timer)
  | @fillDmc _ _ s value _ ih =>
    exact ih.congr (wiring_fillDmc s value) (paces_congr rfl (s.dmc.kept_fill value).timer)
  | takeSamples _ ih => exact ih.congr (wiring_takeSamples _) rfl
  | setRegion region _ ih =>
    exact ⟨(ih.wired.setRegion region).1, (paces_setRegion _ region).trans ih.paces⟩
  | @reset _ _ s _ ih =>
    obtain ⟨hn, hd⟩ := ih.wired.regions
    refine ⟨ih.wired.reset.1, ?_⟩
    rw [← hn]
    show (Noise.periodOf s.noise.region 0, Dmc.periodOf s.dmc.region 0) = _
    rw [hn, hd]

/-- Each of the two channels runs at the rate that its last value chose in the region in which it was
    written.  So it runs at the rate of the region the unit is in iff the value was written in that region,
    or chooses one of the two noise periods that the regions share; and a change of region, which is never
    refused, leaves both periods as they are. -/
theorem Paced.rates (h : Paced n d s) :
    s.noise.timer.period = Noise.periodOf n.region n.value ∧
      s.dmc.timer.period = Dmc.periodOf d.region d.value ∧
      (s.noise.timer.period = Noise.periodOf s.region n.value ↔
        n.region = s.region ∨ n.value.toNat % 16 ≤ 1) ∧
      (s.dmc.timer.period = Dmc.periodOf s.region d.value ↔ d.region = s.region) ∧
      ∀ region : Region, (s.setRegion region).2.region = region ∧
        (s.setRegion region).2.noise.timer.period = s.noise.timer.period ∧
        (s.setRegion region).2.dmc.timer.period = s.dmc.timer.period := by
  have hruns := h.runsAt
  obtain ⟨hn, hd⟩ : s.noise.timer.period = Noise.periodOf n.region n.value ∧
      s.dmc.timer.period = Dmc.periodOf d.region d.value := Prod.mk.inj hruns.paces
  refine ⟨hn, hd, ?_, ?_, fun region => ⟨(hruns.wired.setRegion region).2, ?_⟩⟩
  · rw [hn]
    exact Noise.periodOf_eq_iff _ _ _
  · rw [hd]
    exact Dmc.periodOf_eq_iff _ _ _
  · exact Prod.mk.inj (paces_setRegion s region)

/-! ## A rate of one region in the other -/

/-- A unit in which the fastest rate of its region is chosen, and which then changes to the other. -/
def outpaced : Sound := (((shortRun 0).write 0x4010 0x4F).setRegion .pal).2

theorem paced_outpaced : Paced ⟨.ntsc, 0⟩ ⟨.ntsc, 0x4F⟩ outpaced :=
  .setRegion .pal (.write 0x4010 0x4F (.new new_shortFrames))

/-- It runs at the rate of the region before. -/
theorem paced_rates_outpaced : Paced ⟨.ntsc, 0⟩ ⟨.ntsc, 0x4F⟩ outpaced ∧
    outpaced.dmc.timer.period = Dmc.periodOf .ntsc 0x4F :=
  ⟨paced_outpaced, paced_outpaced.rates.2.1⟩

/-- After a change of region a channel may run at a rate of the region before. -/
theorem exists_outpaced : ∃ (n d : Rate) (s : Sound), Paced n d s ∧ s.region = .pal ∧
    s.dmc.timer.period ≠ Dmc.periodOf s.region d.value := by
  have hpaced := paced_outpaced
  obtain ⟨-, hregion⟩ :=
    (Paced.write 0x4010 0x4F (.new new_shortFrames)).runsAt.wired.setRegion .pal
  replace hregion : outpaced.region = .pal := hregion
  refine ⟨_, _, outpaced, hpaced, hregion, ?_⟩
  have hd : outpaced.dmc.timer.period = Dmc.periodOf .ntsc 0x4F := (Prod.mk.inj hpaced.runsAt.paces).2
  rw [hd, hregion]
  decide

end Sound

end Famicom
