/-
  A reset console is a console at power-on.

  A reset makes everything new but what the parts are built as: the regions of the circuits and the
  identity of the pulse channels, which a circuit keeps when it is reset.  So the reset gives the
  console at power-on exactly if the parts are all built for the region in effect.

  1. **The board** (`Mainboard.wiring`): what its parts are built as.  Reads, writes and dots leave it
     alone, and with them whatever the processor and a sprite transfer do to the board.
  2. **The machine** (`Machine.wiring_cpuCycle`, `Machine.wiring_dot`): neither of its turns rewires the
     board, whether it fails or not, and by induction over the master cycles no run of the clock does
     (`Clock.run_inv`).
  3. **The console** (`Reachable.aligned`): all parts are built for the region of the clock.  A change of
     region changes all of them; where it fails, it does so before it has changed any.

  Main statement: a reset is never refused, and gives the console at power-on in the region in effect,
  but for the mixer (`reset_powerOn`).
-/
import Famicom.Console.Basic
import Famicom.Proofs.Picture.Acts
import Famicom.Proofs.Picture.BackgroundFrame
import Famicom.Proofs.Sound.Wiring

namespace Famicom

/-! ## What is kept by every access, turn and cycle

  A run of the clock is cycles and dots in some order.  What both keep, whether they fail or not, is
  kept by every run. -/

/-- Of a bus, a cycle of the processor keeps what a read and a write keep. -/
theorem Processor.tick_inv {β : Type} [Bus β] {P : β → Prop}
    (hread : ∀ bus addr, P bus → P (Bus.read bus addr).2)
    (hwrite : ∀ bus addr data, P bus → P (Bus.write bus addr data)) (p : Processor) {bus : β}
    (h : P bus) : P (p.tick bus).2.2 := by
  unfold Processor.tick
  split
  · exact hread bus _ h
  · exact hwrite bus _ _ h
  · exact h

namespace Clock

variable {σ ε : Type} [Clocked σ ε] {P : σ → Prop}

theorem advanceCpu_region (c : Clock) : c.advanceCpu.2.region = c.region := by
  unfold advanceCpu
  split
  · rfl
  · rfl

theorem advanceDot_region (c : Clock) : c.advanceDot.2.region = c.region := by
  unfold advanceDot
  split
  · rfl
  · rfl

/-- What processor cycles keep, the processor's turn keeps. -/
theorem cpuTurn_inv (hcpu : ∀ s, P s → P (Clocked.cpuCycle s).2) (c : Clock) {s : σ} (h : P s) :
    (c.cpuTurn s).2.1.region = c.region ∧ P (c.cpuTurn s).2.2 := by
  have hr := c.advanceCpu_region
  unfold cpuTurn
  split
  · next c' hc =>
    rw [hc] at hr
    exact ⟨hr, hcpu s h⟩
  · next c' hc =>
    rw [hc] at hr
    exact ⟨hr, h⟩

/-- What dots keep, their turn keeps. -/
theorem dotTurn_inv (hdot : ∀ s, P s → P (Clocked.dot s).2) (c : Clock) {s : σ} (h : P s) :
    (c.dotTurn s).2.1.region = c.region ∧ P (c.dotTurn s).2.2 := by
  have hr := c.advanceDot_region
  unfold dotTurn
  split
  · next c' hc =>
    rw [hc] at hr
    exact ⟨hr, hdot s h⟩
  · next c' hc =>
    rw [hc] at hr
    exact ⟨hr, h⟩

variable (hcpu : ∀ s, P s → P (Clocked.cpuCycle s).2) (hdot : ∀ s, P s → P (Clocked.dot s).2)
include hcpu hdot

/-- What both keep, a master cycle keeps. -/
theorem masterCycle_inv (p : Pace) (c : Clock) {s : σ} (h : P s) :
    (c.masterCycle p s).2.1.region = c.region ∧ P (c.masterCycle p s).2.2 := by
  have hc := cpuTurn_inv hcpu c h
  have hd := dotTurn_inv hdot c h
  unfold masterCycle
  split
  · split
    · next c' s' hs =>
      rw [hs] at hd
      obtain ⟨hr, hP⟩ := cpuTurn_inv hcpu c' hd.2
      exact ⟨hr.trans hd.1, hP⟩
    · exact hd
  · split
    · next c' s' hs =>
      rw [hs] at hc
      obtain ⟨hr, hP⟩ := dotTurn_inv hdot c' hc.2
      exact ⟨hr.trans hc.1, hP⟩
    · exact hc

/-- And so does a run of any length. -/
theorem runCycles_inv (p : Pace) (n : Nat) (c : Clock) {s : σ} (h : P s) :
    (runCycles p n c s).2.1.region = c.region ∧ P (runCycles p n c s).2.2 := by
  induction n generalizing c s with
  | zero => exact ⟨rfl, h⟩
  | succ n ih =>
    have hm := masterCycle_inv hcpu hdot p c h
    unfold runCycles
    split
    · next c' s' hs =>
      rw [hs] at hm
      obtain ⟨hr, hP⟩ := ih c' hm.2
      exact ⟨hr.trans hm.1, hP⟩
    · exact hm

/-- What both turns of a system keep, whether they fail or not, a run of the clock keeps. -/
theorem run_inv (p : Pace) (c : Clock) {s : σ} (h : P s) :
    (c.run p s).2.1.region = c.region ∧ P (c.run p s).2.2 :=
  runCycles_inv hcpu hdot p _ c h

end Clock

/-! ## The board -/

namespace Mainboard

variable {γ : Type} [Cartridge γ]

omit [Cartridge γ] in
/-- What the parts of a board are built as. -/
def wiring (b : Mainboard γ) : Region × Sound.Wiring := (b.picture.region, b.sound.wiring)

omit [Cartridge γ] in
/-- What keeps the wiring of the sound unit keeps that of the board. -/
theorem wiring_onSound {α : Type} (b : Mainboard γ) {f : Sound → α × Sound}
    (h : (f b.sound).2.wiring = b.sound.wiring) : (b.onSound f).2.wiring = b.wiring :=
  congrArg (b.picture.region, ·) h

theorem wiring_read (b : Mainboard γ) (addr : UInt16) : (b.read addr).2.wiring = b.wiring := by
  unfold read
  dsimp only
  split
  · rfl
  · split
    · exact congrArg (·, b.sound.wiring) (Picture.readRegister_region b.picture b.cartridge addr)
    · split
      · exact b.wiring_onSound (b.sound.wiring_read addr)
      · split
        · rfl
        · rfl

theorem wiring_write (b : Mainboard γ) (addr : UInt16) (data : UInt8) :
    (b.write addr data).wiring = b.wiring := by
  unfold write
  split
  · rfl
  · split
    · exact congrArg (·, b.sound.wiring)
        (Picture.writeRegister_region b.picture b.cartridge addr data)
    · split
      · rfl
      · split
        · rfl
        · split
          · exact congrArg (b.picture.region, ·) (b.sound.wiring_write addr data)
          · split
            · rfl
            · rfl

/-- A dot leaves all units wired as they are. -/
theorem wiring_dot (b : Mainboard γ) : b.dot.2.wiring = b.wiring :=
  congrArg (·, b.sound.wiring) (Picture.tick_region b.picture b.cartridge)

end Mainboard

/-! ## The machine -/

namespace Machine

variable {γ : Type}

/-- What the parts of a machine's board are built as. -/
def wiring (m : Machine γ) : Region × Sound.Wiring := m.board.wiring

theorem wiring_beginTransfer (m : Machine γ) : m.beginTransfer.wiring = m.wiring := by
  unfold beginTransfer
  dsimp only
  split
  · rfl
  · rfl

theorem wiring_raiseSoundIrq (m : Machine γ) : m.raiseSoundIrq.wiring = m.wiring := by
  unfold raiseSoundIrq
  split
  · rfl
  · rfl

variable [Cartridge γ]

theorem wiring_afterDot (m : Machine γ) : m.afterDot.wiring = m.wiring := rfl

/-- So does a byte that is read for the sound unit. -/
theorem wiring_serveSound (m : Machine γ) : m.serveSound.2.wiring = m.wiring := by
  have hb := m.board.wiring_onSound m.board.sound.wiring_takeDmcRequest
  unfold serveSound
  dsimp only
  split
  · next board h =>
    rw [h] at hb
    exact hb
  · next addr board h =>
    rw [h] at hb
    have hfill := (board.read addr).2.sound.wiring_fillDmc (board.read addr).1
    have hread : (board.read addr).2.wiring = m.wiring := (board.wiring_read addr).trans hb
    exact (congrArg ((board.read addr).2.picture.region, ·) hfill).trans hread

theorem wiring_transferCycle (m : Machine γ) (t : SpriteTransfer) :
    (m.transferCycle t).wiring = m.wiring := by
  unfold transferCycle
  dsimp only
  split
  · exact m.board.wiring_read t.source
  · exact m.board.wiring_write 0x2004 t.data

theorem wiring_processorCycle (m : Machine γ) : m.processorCycle.wiring = m.wiring := by
  refine Processor.tick_inv (P := fun b : Mainboard γ => b.wiring = m.wiring) ?_ ?_ m.cpu rfl
  · intro b addr h
    exact (b.wiring_read addr).trans h
  · intro b addr data h
    exact (b.wiring_write addr data).trans h

/-- So does a cycle of whoever has the bus. -/
theorem wiring_busCycle (m : Machine γ) : m.busCycle.wiring = m.wiring := by
  unfold busCycle
  split
  · split
    · exact m.wiring_transferCycle _
    · exact m.wiring_processorCycle
  · exact m.wiring_processorCycle

/-- A processor cycle rewires nothing, whoever has the bus in it and whether it fails or not. -/
theorem wiring_cpuCycle (m : Machine γ) : m.cpuCycle.2.wiring = m.wiring := by
  have hserve := m.wiring_serveSound
  have hsound := m.serveSound.2.board.wiring_onSound m.serveSound.2.board.sound.wiring_process
  unfold cpuCycle
  dsimp only
  split
  · next e board h =>
    rw [h] at hsound
    exact hsound.trans hserve
  · next board h =>
    rw [h] at hsound
    have hraise : (raiseSoundIrq { m.serveSound.2 with board }).wiring = m.wiring :=
      (wiring_raiseSoundIrq _).trans (hsound.trans hserve)
    dsimp only
    split
    · exact hraise
    · exact (wiring_busCycle _).trans ((wiring_beginTransfer _).trans hraise)

/-- Nor does a dot. -/
theorem wiring_dot (m : Machine γ) : m.dot.2.wiring = m.wiring := by
  have hdot := m.board.wiring_dot
  unfold dot
  dsimp only
  split
  · next e board h =>
    rw [h] at hdot
    exact hdot
  · next board h =>
    rw [h] at hdot
    exact (wiring_afterDot _).trans hdot

end Machine

/-! ## The console -/

namespace Console

variable {γ : Type} [Cartridge γ] {settings : Settings} {c d : Console γ}

/-- What can become of a console that was built with these settings: it is stepped, paused, switched
    and reset, its controllers are held and its samples taken, and its bus and its processor are
    reached from outside.  An operation that fails leaves the console somewhere as well. -/
inductive Reachable (settings : Settings) : Console γ → Prop where
  | new {c : Console γ} (cartridge : γ) :
      Console.new settings cartridge = .ok c → Reachable settings c
  | runFrame {c : Console γ} : Reachable settings c → Reachable settings c.runFrame.2
  | stepCpu {c : Console γ} : Reachable settings c → Reachable settings c.stepCpu.2
  | stepDot {c : Console γ} : Reachable settings c → Reachable settings c.stepDot.2
  | stepInstruction {c : Console γ} : Reachable settings c → Reachable settings c.stepInstruction.2
  | pause {c : Console γ} : Reachable settings c → Reachable settings c.pause.2
  | resume {c : Console γ} : Reachable settings c → Reachable settings c.resume
  | setRegion {c : Console γ} (region : Region) :
      Reachable settings c → Reachable settings (c.setRegion region).2
  | reset {c : Console γ} : Reachable settings c → Reachable settings c.reset.2
  | takeSamples {c : Console γ} : Reachable settings c → Reachable settings c.takeSamples.2
  | hold {c : Console γ} (controllers : Controllers) :
      Reachable settings c → Reachable settings (c.onBoard fun b => ((), { b with controllers })).2
  | read {c : Console γ} (addr : UInt16) :
      Reachable settings c → Reachable settings (c.onBoard (·.read addr)).2
  | write {c : Console γ} (addr : UInt16) (data : UInt8) :
      Reachable settings c → Reachable settings (c.onBoard fun b => ((), b.write addr data)).2
  | mapCpu {c : Console γ} (f : Processor → Processor) :
      Reachable settings c → Reachable settings (c.mapCpu f)

omit [Cartridge γ] in
/-- All parts are built for the region of the clock, and nothing else has become of the settings. -/
structure Aligned (settings : Settings) (c : Console γ) : Prop where
  purpose : c.settings = { settings with region := c.region }
  wiring : c.machine.wiring = (c.region, .regular c.region settings.audio)

namespace Aligned

omit [Cartridge γ] in
/-- Alignment depends on the settings, the region and the wiring only. -/
theorem congr (h : Aligned settings c) (hs : d.settings = c.settings) (hr : d.region = c.region)
    (hw : d.machine.wiring = c.machine.wiring) : Aligned settings d := by
  constructor
  · rw [hs, hr]
    exact h.purpose
  · rw [hw, hr]
    exact h.wiring

/-- A run of the clock keeps a console aligned, failed or not. -/
theorem run (h : Aligned settings c) (pace : Pace) : Aligned settings (c.run pace).2 := by
  obtain ⟨hr, hw⟩ := Clock.run_inv (P := fun m : Machine γ => m.wiring = c.machine.wiring)
    (fun m hm => m.wiring_cpuCycle.trans hm) (fun m hm => m.wiring_dot.trans hm) pace c.clock rfl
  exact h.congr rfl hr hw

omit [Cartridge γ] in
/-- What keeps the wiring of its sound unit keeps a console aligned. -/
theorem onSound (h : Aligned settings c) {α : Type} {f : Sound → α × Sound}
    (hf : ∀ s, (f s).2.wiring = s.wiring) : Aligned settings (c.onBoard (·.onSound f)).2 :=
  h.congr rfl rfl (c.machine.board.wiring_onSound (hf _))

omit [Cartridge γ] in
theorem resume (h : Aligned settings c) : Aligned settings c.resume := h.congr rfl rfl rfl

theorem runFrame (h : Aligned settings c) : Aligned settings c.runFrame.2 := by
  have hrun : Aligned settings (c.resume.run .frame).2 := h.resume.run .frame
  unfold Console.runFrame
  split
  · next c' hc =>
    rw [hc] at hrun
    exact hrun.onSound Sound.wiring_endFrame
  · exact hrun

/-- The search for a settled state keeps it aligned. -/
theorem settleWithin (h : Aligned settings c) (n : Nat) : Aligned settings (settleWithin n c).2 := by
  induction n generalizing c with
  | zero => exact h
  | succ n ih =>
    have hstep : Aligned settings c.stepCpu.2 := h.run .cpuCycle
    unfold Console.settleWithin
    split
    · exact h
    · split
      · next c' hc =>
        rw [hc] at hstep
        exact ih hstep
      · exact hstep

theorem stepInstruction (h : Aligned settings c) : Aligned settings c.stepInstruction.2 := by
  have hstep : Aligned settings c.stepCpu.2 := h.run .cpuCycle
  unfold Console.stepInstruction
  split
  · next c' hc =>
    rw [hc] at hstep
    exact hstep.settleWithin settleBound
  · exact hstep

theorem pause (h : Aligned settings c) : Aligned settings c.pause.2 := by
  have hsettle : Aligned settings c.settle.2 := h.settleWithin settleBound
  unfold Console.pause
  split
  · next c' hc =>
    rw [hc] at hsettle
    exact hsettle.congr rfl rfl rfl
  · exact hsettle

/-- A change of region fails before it has changed anything, or changes all parts. -/
theorem setRegion (h : Aligned settings c) (hs : settings.audio.sampleRate ≠ 0) (region : Region) :
    Aligned settings (c.setRegion region).2 := by
  have hpause := h.pause
  unfold Console.setRegion
  split
  · next clock machine set paused hc =>
    rw [hc] at hpause
    obtain ⟨hok, hsound⟩ := Sound.setRegion_regular (congrArg Prod.snd hpause.wiring) hs region
    have hset : set = { settings with region := clock.region } := hpause.purpose
    dsimp only
    split
    · constructor
      · show { set with region } = { settings with region }
        rw [hset]
      · exact congrArg (region, ·) hsound
    · next e he => cases hok.symm.trans he
  · exact hpause

end Aligned

/-- A settled console pauses where it is. -/
theorem pause_eq_ok (h : c.machine.isSettled = true) : c.pause = (.ok (), { c with paused := true }) := by
  have hsettle (n : Nat) : settleWithin n c = (.ok (), c) := by
    cases n with
    | zero =>
      unfold settleWithin
      rw [if_pos h]
    | succ n =>
      unfold settleWithin
      rw [if_pos h]
  unfold pause settle
  rw [hsettle]

/-- Where the pause comes about, the clock is that of the new region. -/
theorem setRegion_region (h : c.pause = (.ok (), d)) (region : Region) :
    (c.setRegion region).2.region = region := by
  unfold setRegion
  rw [h]
  dsimp only
  split
  · rfl
  · rfl

omit [Cartridge γ] in
/-- A console is built where its settings make sense and there is a sound unit for them. -/
theorem new_eq_ok_iff {cartridge : γ} :
    Console.new settings cartridge = .ok c ↔
      settings.check = .ok () ∧ ∃ sound, Sound.new settings.region settings.audio = .ok sound ∧
        c = { clock := .new settings.region
              machine := .new (.new (.new settings.region) sound cartridge)
              settings, paused := false } := by
  unfold Console.new
  cases hc : settings.check with
  | error e =>
    constructor
    · intro h
      cases h
    · rintro ⟨h, -⟩
      cases h
  | ok _ =>
    cases hs : Sound.new settings.region settings.audio with
    | error e =>
      constructor
      · intro h
        cases h
      · rintro ⟨-, _, h, -⟩
        cases h
    | ok sound =>
      constructor
      · intro h
        cases h
        exact ⟨rfl, sound, rfl, rfl⟩
      · rintro ⟨-, _, h, rfl⟩
        cases h
        rfl

omit [Cartridge γ] in
/-- Settings that make sense, and for which there can be the slots, do so in either region. -/
theorem exists_new (h : settings.check = .ok ()) (hspace : Mixer.HasRoom settings.audio)
    (region : Region) (cartridge : γ) :
    ∃ c, Console.new { settings with region } cartridge = .ok c := by
  obtain ⟨hrate, hroom, -⟩ := (Settings.check_eq_ok_iff settings).mp h
  obtain ⟨sound, hs⟩ := Sound.exists_new hroom hspace hrate region
  exact ⟨_, new_eq_ok_iff.mpr ⟨h, sound, hs, rfl⟩⟩

/-- The console with another mixer in it. -/
def withMixer (c : Console γ) (mixer : Mixer) : Console γ :=
  { c with
    machine := { c.machine with
      board := { c.machine.board with sound := { c.machine.board.sound with mixer } } } }

omit [Cartridge γ] in
/-- A new console is aligned, whatever mixer for its region and its settings is put in. -/
theorem aligned_new (region : Region) {cartridge : γ} {mixer : Mixer}
    (h : Console.new { settings with region } cartridge = .ok c) (hr : mixer.region = region)
    (hs : mixer.settings = settings.audio) : Aligned settings (c.withMixer mixer) := by
  obtain ⟨-, sound, hsound, rfl⟩ := new_eq_ok_iff.mp h
  obtain ⟨hw, -⟩ := Sound.new_eq_ok hsound
  constructor
  · rfl
  · have hmixer : ({ sound with mixer } : Sound).wiring =
        { sound.wiring with mixer := mixer.region, settings := mixer.settings } := rfl
    rw [hw, hr, hs] at hmixer
    exact congrArg (region, ·) hmixer

omit [Cartridge γ] in
/-- An aligned console is reset to the new one of its region, but for the mixer. -/
theorem Aligned.reset_eq (h : Aligned settings c) (hc : settings.check = .ok ())
    (hd : Console.new { settings with region := c.region } c.machine.board.cartridge = .ok d) :
    ∃ mixer, c.reset = (.ok (), d.withMixer mixer) ∧ mixer.region = c.region ∧
      mixer.settings = settings.audio := by
  obtain ⟨-, sound, hsound, rfl⟩ := new_eq_ok_iff.mp hd
  obtain ⟨hrate, -⟩ := (Settings.check_eq_ok_iff settings).mp hc
  have hpicture : c.machine.board.picture.reset = .new c.region :=
    congrArg Picture.new (congrArg Prod.fst h.wiring)
  obtain ⟨mixer, hreset, hr, hs⟩ := Sound.reset_regular (congrArg Prod.snd h.wiring) hrate hsound
  refine ⟨mixer, ?_, hr, hs⟩
  have hmachine : c.machine.reset =
      (.ok (), .new (.new (.new c.region) { sound with mixer } c.machine.board.cartridge)) := by
    unfold Machine.reset Mainboard.reset Mainboard.onSound
    dsimp only
    rw [hreset, hpicture]
    rfl
  unfold Console.reset
  dsimp only
  rw [hmachine, h.purpose]
  rfl

/-- Whatever becomes of a console, there were the slots that its settings ask for. -/
theorem Reachable.hasRoom (h : Reachable settings c) : Mixer.HasRoom settings.audio := by
  induction h with
  | new cartridge hc =>
    obtain ⟨-, sound, hsound, -⟩ := new_eq_ok_iff.mp hc
    exact Sound.hasRoom_of_new hsound
  | _ => assumption

/-- Whatever becomes of a console, its parts are built for one region. -/
theorem Reachable.aligned (h : Reachable settings c) :
    settings.check = .ok () ∧ Aligned settings c := by
  induction h with
  | @new c cartridge hc =>
    have hnew := hc
    obtain ⟨hcheck, sound, hsound, rfl⟩ := new_eq_ok_iff.mp hnew
    obtain ⟨hw, -⟩ := Sound.new_eq_ok hsound
    exact ⟨hcheck, aligned_new settings.region hc (congrArg Sound.Wiring.mixer hw)
      (congrArg Sound.Wiring.settings hw)⟩
  | runFrame _ ih => exact ⟨ih.1, ih.2.runFrame⟩
  | stepCpu _ ih => exact ⟨ih.1, ih.2.run .cpuCycle⟩
  | stepDot _ ih => exact ⟨ih.1, ih.2.run .dot⟩
  | stepInstruction _ ih => exact ⟨ih.1, ih.2.stepInstruction⟩
  | pause _ ih => exact ⟨ih.1, ih.2.pause⟩
  | resume _ ih => exact ⟨ih.1, ih.2.resume⟩
  | setRegion region _ ih =>
    exact ⟨ih.1, ih.2.setRegion ((Settings.check_eq_ok_iff settings).mp ih.1).1 region⟩
  | @reset c h ih =>
    obtain ⟨hc, ha⟩ := ih
    obtain ⟨d, hd⟩ := exists_new hc h.hasRoom c.region c.machine.board.cartridge
    obtain ⟨mixer, hreset, hr, hs⟩ := ha.reset_eq hc hd
    rw [hreset]
    exact ⟨hc, aligned_new c.region hd hr hs⟩
  | takeSamples _ ih => exact ⟨ih.1, ih.2.onSound Sound.wiring_takeSamples⟩
  | hold controllers _ ih => exact ⟨ih.1, ih.2.congr rfl rfl rfl⟩
  | @read c addr _ ih => exact ⟨ih.1, ih.2.congr rfl rfl (c.machine.board.wiring_read addr)⟩
  | @write c addr data _ ih =>
    exact ⟨ih.1, ih.2.congr rfl rfl (c.machine.board.wiring_write addr data)⟩
  | mapCpu f _ ih => exact ⟨ih.1, ih.2.congr rfl rfl rfl⟩

/-- Reset is never refused.  It gives the console at power-on, in the region in effect and with the
    cartridge as it is: clock, processor, memory, picture, controllers, sprite transfer, pictures
    counted and pause, and of the sound unit all but the mixer. -/
theorem reset_powerOn (h : Reachable settings c) :
    ∃ d, Console.new { settings with region := c.region } c.machine.board.cartridge = .ok d ∧
      d.machine.cpu.resetLatch = true ∧ d.machine.board.cartridge = c.machine.board.cartridge ∧
      ∃ mixer, c.reset = (.ok (), d.withMixer mixer) := by
  obtain ⟨hc, ha⟩ := h.aligned
  obtain ⟨d, hd⟩ := exists_new hc h.hasRoom c.region c.machine.board.cartridge
  obtain ⟨mixer, hreset, -, -⟩ := ha.reset_eq hc hd
  obtain ⟨-, sound, -, hnew⟩ := new_eq_ok_iff.mp hd
  refine ⟨d, hd, ?_, ?_, mixer, hreset⟩
  · rw [hnew]
    rfl
  · rw [hnew]
    rfl

/-- A console that is switched to PAL before its first cycle is reset to the PAL one at power-on. -/
theorem reset_powerOn_switched : ∃ c : Console Nrom, Reachable {} c ∧ c.region = .pal ∧
    ∃ d, Console.new { region := .pal } c.machine.board.cartridge = .ok d ∧
      d.machine.cpu.resetLatch = true ∧ d.machine.board.cartridge = c.machine.board.cartridge ∧
      ∃ mixer, c.reset = (.ok (), d.withMixer mixer) := by
  obtain ⟨c, hc⟩ := exists_new (show ({} : Settings).check = .ok () from rfl) (by decide) .ntsc Picture.solidBoard
  have hsettled : c.machine.isSettled = true := by
    obtain ⟨-, sound, -, rfl⟩ := new_eq_ok_iff.mp hc
    rfl
  have hregion : (c.setRegion .pal).2.region = .pal := setRegion_region (pause_eq_ok hsettled) .pal
  have hreach : Reachable {} (c.setRegion .pal).2 := (Reachable.new _ hc).setRegion .pal
  refine ⟨(c.setRegion .pal).2, hreach, hregion, ?_⟩
  have h := reset_powerOn hreach
  rw [hregion] at h
  exact h

end Console

end Famicom
