/-
  Who answers the delta modulation channel.

  The channel only asks for a byte.  The machine answers at the beginning of the next processor cycle,
  with one byte for each request, and that is all it ever hands to the channel.

  1. **The unit** (`Sound.Served`): it was begun, and what has been done to it since are acts, one of
     which is to take a request and answer it.  So the order of fetching holds in it (`Served.fetching`).
  2. **The machine** (`Machine.Driven`): cycles and dots in any order, its bus reached from outside, its
     audio frame ended, its region switched and so on.  All that its sound unit sees of this are acts
     (`Driven.served`): a byte that is asked for is in the upper half of memory, where only the cartridge
     is, so the answer is a read of the cartridge and an act of the unit (`serveSound_eq`).
  3. **The console** (`Reachable.driven`): every run of the clock is a course of such cycles and dots.

  Main statement: no fetch is forgotten, no byte is overwritten, no request is for memory or a register
  of the board, in any unit that is served and so in any machine and any console (`fetch_protocol`).
-/
import Famicom.Cartridge.Nrom
import Famicom.Proofs.Console.PowerOn
import Famicom.Proofs.Sound.DmcFetch

namespace Famicom

/-! ## The unit -/

namespace Sound

/-- A unit that was begun and used since, each request answered at once and nothing handed to it else. -/
inductive Served : Sound → Prop where
  | begun {s : Sound} : Begun s → Served s
  | perform {s : Sound} : Served s → (act : Act) → Served (s.perform act)

variable {s : Sound}

/-- Neither pace nor voice has a part in the fetching. -/
theorem fetching_bare {d : Dmc} : d.bare.Fetching ↔ d.Fetching := by
  constructor
  · intro h
    exact { h with }
  · intro h
    exact { h with }

/-- A unit that is served fetches in order. -/
theorem Served.fetching (h : s.Served) : s.dmc.Fetching := by
  induction h with
  | begun hs =>
    rw [← fetching_bare, hs.bare_eq]
    exact Dmc.fetching_powerOn
  | perform _ act ih =>
    rw [← fetching_bare, bare_perform]
    exact (fetching_bare.mpr ih).after _

theorem takeDmcRequest_of_not (h : s.dmc.requested = false) : s.takeDmcRequest = (none, s) := by
  unfold takeDmcRequest Dmc.takeRequest
  rw [h]
  rfl

/-- A request is for the byte the channel has come to. -/
theorem takeDmcRequest_of (h : s.dmc.requested = true) : s.takeDmcRequest =
    (some s.dmc.address, { s with dmc := { s.dmc with requested := false } }) := by
  unfold takeDmcRequest Dmc.takeRequest
  rw [h]
  rfl

end Sound

open Sound (Served)

/-! ## The board -/

namespace Mainboard

variable {γ : Type} [Cartridge γ] {b : Mainboard γ}

/-- A read of the processor takes no request of the sound unit. -/
theorem served_read (h : b.sound.Served) (addr : UInt16) : (b.read addr).2.sound.Served := by
  unfold read
  split
  · exact h
  · split
    · exact h
    · split
      · exact h.perform (.read addr)
      · split
        · exact h
        · exact h

/-- Nor does a write. -/
theorem served_write (h : b.sound.Served) (addr : UInt16) (data : UInt8) :
    (b.write addr data).sound.Served := by
  unfold write
  split
  · exact h
  · split
    · exact h
    · split
      · exact h
      · split
        · exact h
        · split
          · exact h.perform (.write addr data)
          · split
            · exact h
            · exact h

/-- In the upper half of memory there is only the cartridge. -/
theorem read_upper (b : Mainboard γ) {addr : UInt16} (h : 0x8000 ≤ addr) :
    b.read addr = ((Cartridge.cpuRead b.cartridge addr).1,
      { b with cartridge := (Cartridge.cpuRead b.cartridge addr).2 }) := by
  have hn : 0x8000 ≤ addr.toNat := h
  have hnot (n : UInt16) (hlow : n.toNat < 0x8000) : ¬ addr < n := by
    intro hlt
    have : addr.toNat < n.toNat := hlt
    omega
  have hne (n : UInt16) (hlow : n.toNat < 0x8000) : addr ≠ n := by
    rintro rfl
    omega
  unfold read
  rw [if_neg (hnot 0x2000 (by decide)), if_neg (hnot 0x4000 (by decide)),
    if_neg (hne 0x4015 (by decide)), if_neg]
  · rfl
  · rw [Bool.or_eq_true, decide_eq_true_iff, decide_eq_true_iff]
    rintro (h₆ | h₇)
    · exact hne 0x4016 (by decide) h₆
    · exact hne 0x4017 (by decide) h₇

end Mainboard

/-! ## The machine -/

namespace Machine

variable {γ : Type} [Cartridge γ] {m : Machine γ}

/-- What can become of a machine whose sound unit was begun: cycles and dots in any order, whether they
    fail or not, and all that its owner does to it in between. -/
inductive Driven : Machine γ → Prop where
  | new (board : Mainboard γ) : board.sound.Begun → Driven (new board)
  | cpuCycle {m : Machine γ} : Driven m → Driven m.cpuCycle.2
  | dot {m : Machine γ} : Driven m → Driven m.dot.2
  | read {m : Machine γ} (addr : UInt16) :
      Driven m → Driven { m with board := (m.board.read addr).2 }
  | write {m : Machine γ} (addr : UInt16) (data : UInt8) :
      Driven m → Driven { m with board := m.board.write addr data }
  | hold {m : Machine γ} (controllers : Controllers) :
      Driven m → Driven { m with board := { m.board with controllers } }
  | mapCpu {m : Machine γ} (f : Processor → Processor) : Driven m → Driven { m with cpu := f m.cpu }
  | endFrame {m : Machine γ} :
      Driven m → Driven { m with board := (m.board.onSound Sound.endFrame).2 }
  | takeSamples {m : Machine γ} :
      Driven m → Driven { m with board := (m.board.onSound Sound.takeSamples).2 }
  | setRegion {m : Machine γ} (region : Region) : Driven m →
      Driven { m with
        board := ({ m.board with picture := m.board.picture.setRegion region }.onSound
          (·.setRegion region)).2 }

/-- A request for the upper half of memory is answered by the cartridge; the board, the processor and a
    transfer have no part in it. -/
theorem serveSound_eq (m : Machine γ)
    (h : m.board.sound.dmc.requested = true → 0x8000 ≤ m.board.sound.dmc.address) :
    m.serveSound =
      if m.board.sound.dmc.requested then
        let (value, cartridge) := Cartridge.cpuRead m.board.cartridge m.board.sound.dmc.address
        (true, { m with board := { m.board with sound := m.board.sound.serve value, cartridge } })
      else (false, m) := by
  cases hreq : m.board.sound.dmc.requested with
  | false =>
    have htake : m.board.onSound Sound.takeDmcRequest = (none, m.board) := by
      unfold Mainboard.onSound
      dsimp only
      rw [Sound.takeDmcRequest_of_not hreq]
    unfold serveSound
    dsimp only
    rw [htake]
    rfl
  | true =>
    have htake := Sound.takeDmcRequest_of hreq
    unfold serveSound Sound.serve Mainboard.onSound
    dsimp only
    rw [htake]
    dsimp only
    rw [Mainboard.read_upper _ (h hreq)]
    rfl

/-- Before every cycle the request there is is taken and answered. -/
theorem served_serveSound (h : m.board.sound.Served) : m.serveSound.2.board.sound.Served := by
  rw [m.serveSound_eq fun hreq => h.fetching.upper (.inr hreq)]
  split
  · exact h.perform (.serve _)
  · exact h

theorem served_processorCycle (h : m.board.sound.Served) : m.processorCycle.board.sound.Served := by
  refine Processor.tick_inv (P := fun b : Mainboard γ => b.sound.Served) ?_ ?_ m.cpu h
  · intro b addr hb
    exact Mainboard.served_read hb addr
  · intro b addr data hb
    exact Mainboard.served_write hb addr data

/-- Whoever has the bus leaves the unit served. -/
theorem served_busCycle (h : m.board.sound.Served) : m.busCycle.board.sound.Served := by
  unfold busCycle
  split
  · next t ht =>
    split
    · unfold transferCycle
      dsimp only
      split
      · exact Mainboard.served_read h t.source
      · exact Mainboard.served_write h 0x2004 t.data
    · exact served_processorCycle h
  · exact served_processorCycle h

omit [Cartridge γ] in
theorem served_beginTransfer (h : m.board.sound.Served) : m.beginTransfer.board.sound.Served := by
  unfold beginTransfer
  dsimp only
  split
  · exact h
  · exact h

omit [Cartridge γ] in
theorem served_raiseSoundIrq (h : m.board.sound.Served) : m.raiseSoundIrq.board.sound.Served := by
  unfold raiseSoundIrq
  split
  · exact h
  · exact h

/-- So does a processor cycle as a whole. -/
theorem served_cpuCycle (h : m.board.sound.Served) : m.cpuCycle.2.board.sound.Served := by
  have hprocess := (served_serveSound h).perform .process
  unfold cpuCycle
  dsimp only
  split
  · next e board hb =>
    have hboard : board = (m.serveSound.2.board.onSound Sound.process).2 := (congrArg Prod.snd hb).symm
    rw [hboard]
    exact hprocess
  · next board hb =>
    have hboard : board = (m.serveSound.2.board.onSound Sound.process).2 := (congrArg Prod.snd hb).symm
    have hraise : (raiseSoundIrq { m.serveSound.2 with board }).board.sound.Served := by
      refine served_raiseSoundIrq ?_
      rw [hboard]
      exact hprocess
    dsimp only
    split
    · exact hraise
    · exact served_busCycle (served_beginTransfer hraise)

theorem served_dot (h : m.board.sound.Served) : m.dot.2.board.sound.Served := by
  have hdot : m.board.dot.2.sound.Served := h
  unfold dot
  dsimp only
  split
  · next e board hb =>
    rw [hb] at hdot
    exact hdot
  · next board hb =>
    rw [hb] at hdot
    exact hdot

/-- All that the sound unit of a machine sees are acts. -/
theorem Driven.served (h : m.Driven) : m.board.sound.Served := by
  induction h with
  | new board hb => exact .begun hb
  | cpuCycle _ ih => exact served_cpuCycle ih
  | dot _ ih => exact served_dot ih
  | read addr _ ih => exact Mainboard.served_read ih addr
  | write addr data _ ih => exact Mainboard.served_write ih addr data
  | hold controllers _ ih => exact ih
  | mapCpu f _ ih => exact ih
  | endFrame _ ih => exact ih.perform .endFrame
  | takeSamples _ ih => exact ih.perform .takeSamples
  | setRegion region _ ih => exact ih.perform (.setRegion region)

end Machine

/-! ## The console -/

namespace Console

variable {γ : Type} [Cartridge γ] {settings : Settings} {c : Console γ}

/-- A run of the clock drives the machine by cycles and dots. -/
theorem driven_run (h : c.machine.Driven) (pace : Pace) : (c.run pace).2.machine.Driven :=
  (Clock.run_inv (P := Machine.Driven) (fun _ hm => hm.cpuCycle) (fun _ hm => hm.dot) pace c.clock h).2

theorem driven_runFrame (h : c.machine.Driven) : c.runFrame.2.machine.Driven := by
  have hrun : (c.resume.run .frame).2.machine.Driven := driven_run (c := c.resume) h .frame
  unfold runFrame
  split
  · next c' hc =>
    rw [hc] at hrun
    exact hrun.endFrame
  · exact hrun

/-- The search for a settled state drives it too. -/
theorem driven_settleWithin (h : c.machine.Driven) (n : Nat) : (settleWithin n c).2.machine.Driven := by
  induction n generalizing c with
  | zero => exact h
  | succ n ih =>
    have hstep := driven_run h .cpuCycle
    unfold settleWithin
    split
    · exact h
    · split
      · next c' hc =>
        rw [show c.run .cpuCycle = _ from hc] at hstep
        exact ih hstep
      · exact hstep

theorem driven_stepInstruction (h : c.machine.Driven) : c.stepInstruction.2.machine.Driven := by
  have hstep := driven_run h .cpuCycle
  unfold stepInstruction
  split
  · next c' hc =>
    rw [show c.run .cpuCycle = _ from hc] at hstep
    exact driven_settleWithin hstep settleBound
  · exact hstep

theorem driven_pause (h : c.machine.Driven) : c.pause.2.machine.Driven := by
  have hsettle := driven_settleWithin h settleBound
  unfold pause
  split
  · next c' hc =>
    rw [show settleWithin settleBound c = _ from hc] at hsettle
    exact hsettle
  · exact hsettle

theorem driven_setRegion (h : c.machine.Driven) (region : Region) :
    (c.setRegion region).2.machine.Driven := by
  have hpause := driven_pause h
  unfold setRegion
  split
  · next clock machine set paused hc =>
    rw [hc] at hpause
    dsimp only
    split
    · exact hpause.setRegion region
    · exact hpause.setRegion region
  · exact hpause

/-- A reset machine is one that has been driven. -/
theorem driven_reset (c : Console γ) : c.reset.2.machine.Driven := by
  have hnew : c.machine.reset.2.Driven := .new _ (.reset c.machine.board.sound)
  unfold reset
  dsimp only
  split
  · next e machine hm =>
    rw [hm] at hnew
    exact hnew
  · next machine hm =>
    rw [hm] at hnew
    exact hnew

/-- Whatever becomes of a console, its machine has only been driven. -/
theorem Reachable.driven (h : Reachable settings c) : c.machine.Driven := by
  induction h with
  | new cartridge hc =>
    obtain ⟨-, sound, hsound, rfl⟩ := new_eq_ok_iff.mp hc
    exact .new _ (.new hsound)
  | runFrame _ ih => exact driven_runFrame ih
  | stepCpu _ ih => exact driven_run ih .cpuCycle
  | stepDot _ ih => exact driven_run ih .dot
  | stepInstruction _ ih => exact driven_stepInstruction ih
  | pause _ ih => exact driven_pause ih
  | resume _ ih => exact ih
  | setRegion region _ ih => exact driven_setRegion ih region
  | reset _ _ => exact driven_reset _
  | takeSamples _ ih => exact ih.takeSamples
  | hold controllers _ ih => exact ih.hold controllers
  | read addr _ ih => exact ih.read addr
  | write addr data _ ih => exact ih.write addr data
  | mapCpu f _ ih => exact ih.mapCpu f

end Console

namespace Machine

variable {γ : Type} [Cartridge γ] {settings : Settings}

/-- Where every request is answered with one byte: as long as bytes are left and the buffer is empty, a
    request is there or the wait is running; a request finds the buffer empty, so no answer replaces a
    byte that was not played yet; requests are for the upper half of memory; between one and eight bits
    are left; and a byte that is handed in where none is left is dropped.  A driven machine is such an
    owner: its answer is read from the cartridge, and nothing else of it has a part in that.  The machine
    of a console is driven. -/
theorem fetch_protocol :
    (∀ s : Sound, s.Served →
      (0 < s.dmc.bytesLeft → s.dmc.buffer = none → s.dmc.requested = true ∨ 0 < s.dmc.startDelay) ∧
      (s.dmc.requested = true → s.dmc.buffer = none) ∧
      (∀ byte value, s.dmc.buffer = some byte → s.serve value = s) ∧
      (∀ addr q, s.takeDmcRequest = (some addr, q) → 0x8000 ≤ addr) ∧
      (1 ≤ s.dmc.bitsLeft ∧ s.dmc.bitsLeft ≤ 8) ∧
      (s.dmc.bytesLeft = 0 → ∀ value, s.fillDmc value = s)) ∧
    (∀ m : Machine γ, m.Driven → m.board.sound.Served ∧ m.serveSound =
      if m.board.sound.dmc.requested then
        let (value, cartridge) := Cartridge.cpuRead m.board.cartridge m.board.sound.dmc.address
        (true, { m with board := { m.board with sound := m.board.sound.serve value, cartridge } })
      else (false, m)) ∧
    ∀ c : Console γ, c.Reachable settings → c.machine.Driven := by
  refine ⟨?_, ?_, fun c hc => hc.driven⟩
  · intro s hs
    have hd := hs.fetching
    refine ⟨hd.awaited, hd.room, ?_, ?_, ⟨hd.bits_pos, hd.bits_le⟩, ?_⟩
    · intro byte value hbyte
      have hreq : s.dmc.requested = false := by
        rw [← Bool.not_eq_true]
        intro hreq
        exact Option.some_ne_none byte (hbyte.symm.trans (hd.room hreq))
      unfold Sound.serve
      rw [Sound.takeDmcRequest_of_not hreq]
    · intro addr q htake
      cases hreq : s.dmc.requested with
      | false => cases htake.symm.trans (Sound.takeDmcRequest_of_not hreq)
      | true =>
        cases htake.symm.trans (Sound.takeDmcRequest_of hreq)
        exact hd.upper (.inr hreq)
    · intro hleft value
      have hfill : s.dmc.fill value = s.dmc := if_pos hleft
      exact congrArg (fun dmc => { s with dmc }) hfill
  · intro m hm
    exact ⟨hm.served, m.serveSound_eq fun hreq => hm.served.fetching.upper (.inr hreq)⟩

/-- A sample that was just started: nothing is fetched yet, and the wait is what it is fetched after. -/
theorem fetch_protocol_started : ∃ s, Sound.new .ntsc {} = .ok s ∧
    0 < (s.write 0x4015 0x10).dmc.bytesLeft ∧ (s.write 0x4015 0x10).dmc.buffer = none ∧
      ((s.write 0x4015 0x10).dmc.requested = true ∨ 0 < (s.write 0x4015 0x10).dmc.startDelay) := by
  have hexists : ∃ s, Sound.new .ntsc {} = .ok s := Sound.exists_new (by decide) (by decide) (by decide) .ntsc
  obtain ⟨s, hs⟩ := hexists
  obtain ⟨-, hnew⟩ := Sound.new_eq_ok hs
  have hserved : (s.write 0x4015 0x10).Served := (Served.begun (.new hs)).perform (.write 0x4015 0x10)
  have hdmc : (s.write 0x4015 0x10).dmc = (Dmc.new .ntsc).setEnabled true := by
    unfold Sound.write
    rw [Sound.catchUp_self (by rw [hnew]), hnew]
    rfl
  have hleft : 0 < (s.write 0x4015 0x10).dmc.bytesLeft := by
    rw [hdmc]
    decide
  have hbuffer : (s.write 0x4015 0x10).dmc.buffer = none := by
    rw [hdmc]
    rfl
  obtain ⟨hfetch, -⟩ := (@fetch_protocol Nrom _ {}).1 (s.write 0x4015 0x10) hserved
  exact ⟨s, hs, hleft, hbuffer, hfetch hleft hbuffer⟩

end Machine

end Famicom
