/-
  The search for a settled state ends.

  A machine is settled when its processor stands at a boundary and no transfer is under way.  What is
  under way can start more of it: an instruction asks for a transfer, a transfer waits for the processor
  to read, an interrupt begins at the boundary that was to be the last, and the sound unit takes cycles
  from all of them.

  1. **What is under way** (`Underway`): the phase of the processor with its opcode and operand, the
     transfer, and the page of the next one.  Dots and the sound unit leave it alone (`underway_dot`,
     `underway_prepared`).
  2. **Work** (`Underway.work`): a bound on the cycles that it takes.  A transfer that has the bus is over
     after 512 of its own.  One that waits gets the bus with the next read; where that is not certain to
     come at once, the processor may ask for another transfer before, but only as the last thing it does
     at its boundary, and what it begins there begins with a read.
  3. **A cycle** of whoever has the bus leaves less work (`busCycle_work`): the transfer counts, and the
     processor comes nearer to its boundary (`Turns`).
  4. **Pace** (`Machine.pace`): a cycle that the sound unit takes leaves the work as it was, but fewer such
     cycles in a row; three at most.  So four times the work and those together go down with every step
     (`pace_stepCpu`), a step being some dots and one cycle (`Clock.run_cpuCycle`).
  5. **The search** (`Settling`): by induction over its steps, no more of them than the pace at its
     beginning (`Settling.pace`).

  Main statement: a pause of a reachable console comes about within 6239 processor cycles, as long as no
  cycle fails and no instruction writes a byte back to the register that asks for transfers
  (`Reachable.pause_settles`).
-/
import Famicom.Proofs.Console.OneRegion
import Famicom.Proofs.Console.SpriteCopy
import Famicom.Proofs.Processor.Remaining
import Famicom.Proofs.Sound.Stalls

namespace Famicom

/-! ## What is under way -/

/-- What is under way on a machine. -/
structure Underway where
  phase : Phase
  opcode : Opcode
  operand : Operand
  transfer : Option SpriteTransfer
  /-- The page of the transfer that is to begin next. -/
  dmaPage : Option UInt8

namespace Underway

variable {u v : Underway} {t : SpriteTransfer} {page : UInt8}

/-- Nothing is under way. -/
def IsSettled (u : Underway) : Prop := u.phase.left = 0 ∧ u.transfer = none

/-- It is certain that the processor reads next. -/
def readsNext (u : Underway) : Bool := u.phase.readsNext u.opcode

/-! ## Work

  A transfer that has the bus takes what is left of its page.  One that waits for the bus has it with
  the processor's next read, so the cycles up to a read count as well; and as long as the instruction
  is not over, it may ask for another transfer.  The numbers below are bounds, not the exact counts. -/

/-- The work where a transfer waits and no other was asked for. -/
def waiting (u : Underway) : Nat :=
  if u.readsNext then 512 + u.phase.ahead
  -- until the boundary another may be asked for: that is two, and up to 12 cycles of what begins there
  else 1036 + u.phase.left

/-- The work where no transfer is under way: one that was asked for begins to wait, unless the processor
    stands at a boundary. -/
def alone (u : Underway) : Nat :=
  if u.dmaPage.isSome ∧ u.phase.left ≠ 0 then u.waiting else u.phase.left

/-- The work where a transfer waits and another was asked for. -/
def queued (u : Underway) : Nat :=
  -- at a boundary nothing more can be asked for before the first has the bus, elsewhere a third one
  if u.phase.left = 0 then 1036 else 1548 + u.phase.left

/-- A bound on the cycles it takes until nothing is under way. -/
def work (u : Underway) : Nat :=
  match u.transfer with
  | none => u.alone
  | some t =>
    if t.started then 512 - min t.cycles 511 + u.alone
    else if u.dmaPage.isSome then u.queued
    else u.waiting

/-- With no transfer asked for the processor comes to its boundary. -/
theorem alone_of_none (hd : u.dmaPage = none) : u.alone = u.phase.left := by
  unfold alone
  rw [hd]
  exact if_neg fun h => Bool.false_ne_true h.1

/-- With one asked for, the work goes on after the boundary. -/
theorem alone_of_some (hd : u.dmaPage = some page) (hleft : u.phase.left ≠ 0) : u.alone = u.waiting := by
  unfold alone
  rw [hd]
  exact if_pos ⟨rfl, hleft⟩

/-- A processor on its boundary has nothing left to do. -/
theorem alone_of_boundary (hleft : u.phase.left = 0) : u.alone = 0 := by
  unfold alone
  rw [hleft]
  exact if_neg fun h => h.2 rfl

/-- Without a transfer all work is the processor's. -/
theorem work_of_none (ht : u.transfer = none) : u.work = u.alone := by
  unfold work
  rw [ht]

/-- A transfer that has the bus first copies the rest of its page. -/
theorem work_of_started (ht : u.transfer = some t) (hs : t.started = true) :
    u.work = 512 - min t.cycles 511 + u.alone := by
  unfold work
  rw [ht]
  exact if_pos hs

/-- A transfer that waits for the bus gets it with one of the processor's reads. -/
theorem work_of_waiting (ht : u.transfer = some t) (hs : t.started = false) (hd : u.dmaPage = none) :
    u.work = u.waiting := by
  unfold work
  rw [ht, hd]
  dsimp only
  rw [hs]
  rfl

/-- While a transfer waits another may have been asked for. -/
theorem work_of_queued (ht : u.transfer = some t) (hs : t.started = false) (hd : u.dmaPage = some page) :
    u.work = u.queued := by
  unfold work
  rw [ht, hd]
  dsimp only
  rw [hs]
  rfl

/-- From its boundary the processor has twelve cycles before it at most. -/
theorem ahead_le (phase : Phase) : phase.ahead ≤ 12 := by
  have := phase.left_le
  unfold Phase.ahead
  split <;> omega

/-- A waiting transfer takes its 512 cycles and those of the instruction it waits for, twice. -/
theorem waiting_le (u : Underway) : u.waiting ≤ 1036 + u.phase.left := by
  have := ahead_le u.phase
  unfold waiting
  split <;> omega

theorem alone_le (u : Underway) : u.alone ≤ 1036 + u.phase.left := by
  have := u.waiting_le
  unfold alone
  split <;> omega

theorem queued_le (u : Underway) : u.queued ≤ 1548 + u.phase.left := by
  unfold queued
  split <;> omega

/-- No machine has more than 1559 cycles of work before it. -/
theorem work_le (u : Underway) : u.work ≤ 1559 := by
  have := u.phase.left_le
  have := u.waiting_le
  have := u.alone_le
  have := u.queued_le
  unfold work
  split
  · omega
  · split
    · omega
    · split <;> omega

/-- A machine without work is settled. -/
theorem isSettled_of_work (h : u.work = 0) : u.IsSettled := by
  cases ht : u.transfer with
  | none =>
    rw [work_of_none ht, alone, waiting] at h
    refine ⟨?_, ht⟩
    split at h
    · split at h <;> omega
    · exact h
  | some t =>
    unfold work queued waiting at h
    rw [ht] at h
    dsimp only at h
    split at h
    · omega
    · split at h <;> split at h <;> omega

/-! ## A cycle of the transfer -/

/-- A transfer that was asked for begins to wait, unless another is under way. -/
def begun (u : Underway) : Underway :=
  match u.transfer with
  | none => { u with transfer := u.dmaPage.map fun page => { page }, dmaPage := none }
  | some _ => u

theorem begun_self (ht : u.transfer = none) (hd : u.dmaPage = none) : u.begun = u := by
  obtain ⟨phase, opcode, operand, transfer, dmaPage⟩ := u
  cases ht
  cases hd
  rfl

/-- None begins only where none is under way and none was asked for. -/
theorem begun_of_none (h : u.begun.transfer = none) : u.transfer = none ∧ u.dmaPage = none := by
  unfold begun at h
  split at h
  · next ht => exact ⟨ht, Option.map_eq_none_iff.mp h⟩
  · next t ht => cases ht.symm.trans h

/-- That it waits was counted. -/
theorem work_begun (h : ¬ u.IsSettled) : u.begun.work = u.work := by
  cases ht : u.transfer with
  | some t =>
    unfold begun
    rw [ht]
  | none =>
    have hleft : u.phase.left ≠ 0 := fun hzero => h ⟨hzero, ht⟩
    rw [work_of_none ht]
    cases hd : u.dmaPage with
    | none => rw [begun_self ht hd, work_of_none ht]
    | some page =>
      have hwaits : u.begun = { u with transfer := some { page }, dmaPage := none } := by
        unfold begun
        rw [ht, hd]
        rfl
      rw [alone_of_some hd hleft, hwaits]
      rfl

/-- Of a transfer that has the bus less is left with every cycle. -/
theorem work_copied (ht : u.transfer = some t) (hs : t.started = true) (next : SpriteTransfer)
    (hnext : next.cycles = t.cycles + 1) (hs' : next.started = true) :
    work { u with transfer := if next.cycles < SpriteTransfer.length then some next else none } <
      u.work := by
  rw [work_of_started ht hs]
  split
  · next hlt =>
    replace hlt : next.cycles < 512 := hlt
    rw [work_of_started rfl hs']
    show 512 - min next.cycles 511 + u.alone < _
    omega
  · rw [work_of_none rfl]
    show u.alone < _
    omega

/-! ## A cycle of the processor

  The processor comes nearer to its boundary.  Only where it stands on one does it begin something new,
  and there the work it begins is less than what was counted ahead. -/

/-- What a cycle of the processor does to what is under way.  With a read it lets a transfer have the bus.
    It asks for the next one with a write that is its last. -/
structure Turns (u v : Underway) : Prop where
  left : v.phase.left < u.phase.ahead
  opens : u.phase.left = 0 → v.readsNext = true
  access :
    (v.transfer = u.transfer.map (fun t => { t with started := true }) ∧ v.dmaPage = u.dmaPage) ∨
      (u.readsNext = false ∧ v.transfer = u.transfer ∧ (v.dmaPage = u.dmaPage ∨ v.phase.left = 0))

/-- A processor that is not sure to read next stands inside an instruction. -/
theorem left_pos_of_readsNext (h : u.readsNext = false) : 0 < u.phase.left := by
  rw [Nat.pos_iff_ne_zero, Ne, Phase.left_eq_zero_iff]
  unfold readsNext at h
  rintro (hp | hp)
  · rw [hp] at h
    cases h
  · rw [hp] at h
    cases h

/-- With no transfer under way and none asked for, the processor comes nearer to its boundary. -/
theorem Turns.work_lt_of_none (h : Turns u v) (hleft : u.phase.left ≠ 0) (ht : u.transfer = none)
    (hd : u.dmaPage = none) : v.work < u.work := by
  have hnear := h.left
  rw [Phase.ahead_of_pos (by omega)] at hnear
  rw [work_of_none ht, alone_of_none hd]
  rcases h.access with ⟨htransfer, hpage⟩ | ⟨-, htransfer, hpage | hlast⟩
  · rw [ht] at htransfer
    rw [work_of_none htransfer, alone_of_none (hpage.trans hd)]
    exact hnear
  · rw [work_of_none (htransfer.trans ht), alone_of_none (hpage.trans hd)]
    exact hnear
  · rw [work_of_none (htransfer.trans ht), alone_of_boundary hlast]
    omega

/-- A transfer that waits, with none to follow. -/
theorem Turns.work_lt_of_waiting (h : Turns u v) (ht : u.transfer = some t) (hs : t.started = false)
    (hd : u.dmaPage = none) : v.work < u.work := by
  have hnear := h.left
  rw [work_of_waiting ht hs hd, waiting]
  rcases h.access with ⟨htransfer, hpage⟩ | ⟨hreads, htransfer, hpage⟩
  · rw [ht] at htransfer
    rw [work_of_started htransfer rfl, alone_of_none (hpage.trans hd)]
    split
    · omega
    · next hreads =>
      rw [Phase.ahead_of_pos (left_pos_of_readsNext (Bool.eq_false_iff.mpr hreads))] at hnear
      omega
  · have hpos := left_pos_of_readsNext hreads
    have hwaiting := v.waiting_le
    rw [Phase.ahead_of_pos hpos] at hnear
    rw [if_neg (by rw [hreads]; decide)]
    cases hd' : v.dmaPage with
    | none =>
      rw [work_of_waiting (htransfer.trans ht) hs hd']
      omega
    | some page =>
      -- another was asked for, with the last thing done before the boundary
      have hlast : v.phase.left = 0 := by
        refine hpage.resolve_left fun hpage => ?_
        rw [hpage, hd] at hd'
        cases hd'
      rw [work_of_queued (htransfer.trans ht) hs hd', queued, if_pos hlast]
      omega

/-- A transfer that waits, with another to follow. -/
theorem Turns.work_lt_of_queued (h : Turns u v) (ht : u.transfer = some t) (hs : t.started = false)
    (hd : u.dmaPage = some page) : v.work < u.work := by
  have hnear := h.left
  have halone := v.alone_le
  have hwaiting := v.waiting_le
  have hqueued := v.queued_le
  rw [work_of_queued ht hs hd, queued]
  rcases h.access with ⟨htransfer, hpage⟩ | ⟨hreads, htransfer, hpage⟩
  · rw [ht] at htransfer
    rw [work_of_started htransfer rfl]
    split
    · next hleft =>
      -- what begins at the boundary reads once more, which is when the next transfer gets the bus
      have hopens := h.opens hleft
      have hle := v.phase.left_le
      have halone : v.alone ≤ 523 := by
        unfold alone waiting
        rw [hopens, if_pos rfl]
        split
        · next hnext =>
          rw [Phase.ahead_of_pos (by omega)]
          omega
        · omega
      omega
    · next hleft =>
      rw [Phase.ahead_of_pos (by omega)] at hnear
      omega
  · have hpos := left_pos_of_readsNext hreads
    rw [Phase.ahead_of_pos hpos] at hnear
    rw [if_neg (by omega)]
    cases hd' : v.dmaPage with
    | none =>
      rw [work_of_waiting (htransfer.trans ht) hs hd']
      omega
    | some page =>
      rw [work_of_queued (htransfer.trans ht) hs hd']
      omega

end Underway

/-! ## The machine -/

/-- A unit that is served is up to date. -/
theorem Sound.Served.settled {s : Sound} (h : s.Served) : s.Settled := by
  induction h with
  | begun hs =>
    cases hs with
    | new hs => exact (Reachable.new hs).settled
    | reset s => exact ⟨rfl, fun _ => channelsAt_iff.mpr ⟨rfl, rfl, rfl, rfl, rfl⟩⟩
  | perform _ act ih =>
    cases act with
    | process => exact ih.process
    | endFrame => exact settled_endFrame (Nat.le_of_eq ih.previous)
    | read addr => exact ih.read addr
    | write addr data => exact ih.write addr data
    | takeSamples => exact ih.congr rfl rfl id
    | setRegion region => exact ih.setRegion region
    | serve value => exact ih.serve value

/-- No dot asks for a transfer. -/
theorem Picture.dmaPage_tick {γ : Type} [Cartridge γ] (p : Picture) (c : γ) :
    (p.tick c).2.1.dmaPage = p.dmaPage := by
  cases hw : p.warmingUp with
  | true =>
    rw [tick_warmingUp p c hw]
    exact (congrArg Signals.dmaPage (warmUp_signals _)).trans (congrArg Signals.dmaPage (nextDot_signals p))
  | false =>
    refine (congrArg Signals.dmaPage (tick_signals hw c)).trans ?_
    unfold Signals.beginVblank
    split
    · split
      · rfl
      · rfl
    · split
      · rfl
      · rfl

/-- A unit that is not to draw lets a dot pass. -/
theorem Picture.tick_undrawn {γ : Type} [Cartridge γ] {p : Picture} (h : p.mask.draws = false) (c : γ) :
    (p.tick c).1 = .ok () ∧ (p.tick c).2.1.mask.draws = false := by
  cases hw : p.warmingUp with
  | true =>
    rw [tick_warmingUp p c hw, warmUp_mask, nextDot_mask]
    exact ⟨rfl, h⟩
  | false =>
    have houtline := tick_outline p c hw
    rw [h, Bool.and_false] at houtline
    refine ⟨(tick_rests (congrArg Outline.rendering houtline)).1, ?_⟩
    rw [show (p.tick c).2.1.mask = p.nextDot.mask from congrArg (·.settings.mask) houtline, nextDot_mask]
    exact h

namespace Mainboard

variable {γ : Type} [Cartridge γ]

/-- No read asks for a transfer. -/
theorem dmaPage_read (b : Mainboard γ) (addr : UInt16) :
    (b.read addr).2.picture.dmaPage = b.picture.dmaPage := by
  unfold read
  split
  · rfl
  · split
    · refine (congrArg Signals.dmaPage (b.picture.readRegister_signals b.cartridge addr)).trans ?_
      split
      · rfl
      · rfl
    · split
      · rfl
      · split
        · rfl
        · rfl

/-- Only one register does. -/
theorem dmaPage_write (b : Mainboard γ) {addr : UInt16} (h : addr ≠ 0x4014) (data : UInt8) :
    (b.write addr data).picture.dmaPage = b.picture.dmaPage := by
  unfold write
  split
  · rfl
  · split
    · rcases b.picture.writeRegister_signals b.cartridge addr data with hs | hs
      · exact congrArg Signals.dmaPage hs
      · exact congrArg Signals.dmaPage hs
    · split
      · rfl
      · split
        · rfl
        · split
          · rfl
          · rfl

end Mainboard

namespace Machine

variable {γ : Type} [Cartridge γ] {m n : Machine γ}

omit [Cartridge γ] in
/-- What is under way on the machine. -/
def underway (m : Machine γ) : Underway where
  phase := m.cpu.phase
  opcode := m.cpu.opcode
  operand := m.cpu.operand
  transfer := m.transfer
  dmaPage := m.board.picture.dmaPage

omit [Cartridge γ] in
/-- Whether a machine is settled is read off what is under way. -/
theorem isSettled_iff : m.isSettled = true ↔ m.underway.IsSettled := by
  unfold isSettled
  rw [Bool.and_eq_true, Processor.atBoundary_iff, Option.isNone_iff_eq_none]
  rfl

omit [Cartridge γ] in
/-- Which bytes are written back depends on what is under way only. -/
theorem writesBack_congr (h : n.underway = m.underway) {addr : UInt16} :
    n.cpu.WritesBack addr ↔ m.cpu.WritesBack addr := by
  have hphase : n.cpu.phase = m.cpu.phase := congrArg Underway.phase h
  have hopcode : n.cpu.opcode = m.cpu.opcode := congrArg Underway.opcode h
  have hoperand : n.cpu.operand = m.cpu.operand := congrArg Underway.operand h
  unfold Processor.WritesBack
  rw [hphase, hopcode, hoperand]

omit [Cartridge γ] in
/-- A settled machine writes nothing back. -/
theorem not_writesBack_of_isSettled (h : m.isSettled = true) (addr : UInt16) : ¬ m.cpu.WritesBack addr := by
  have hleft : m.cpu.phase.left = 0 := (isSettled_iff.mp h).1
  unfold Processor.WritesBack
  rintro ⟨hphase, -⟩
  rw [hphase] at hleft
  cases hleft

omit [Cartridge γ] in
theorem underway_raiseSoundIrq (m : Machine γ) : m.raiseSoundIrq.underway = m.underway := by
  unfold raiseSoundIrq
  split
  · rfl
  · rfl

omit [Cartridge γ] in
/-- At a boundary the transfer asked for is begun. -/
theorem underway_beginTransfer (m : Machine γ) : m.beginTransfer.underway = m.underway.begun := by
  obtain ⟨cpu, board, transfer, pictures⟩ := m
  cases transfer with
  | none => rfl
  | some t => rfl

/-- The sound unit's reads are not under way in this sense. -/
theorem underway_serveSound (m : Machine γ) : m.serveSound.2.underway = m.underway := by
  unfold serveSound Mainboard.onSound
  dsimp only
  cases m.board.sound.takeDmcRequest.1 with
  | none => rfl
  | some addr =>
    have hread := Mainboard.dmaPage_read { m.board with sound := m.board.sound.takeDmcRequest.2 } addr
    exact congrArg (fun dmaPage => { m.underway with dmaPage }) hread

/-- What comes before the turn of whoever has the bus leaves it alone. -/
theorem underway_prepared (m : Machine γ) : m.prepared.underway = m.underway :=
  (underway_raiseSoundIrq _).trans m.underway_serveSound

/-- A dot leaves alone what is under way. -/
theorem underway_dot (h : m.dot.1 = .ok ()) :
    m.dot.2.underway = m.underway ∧ m.dot.2.board.sound = m.board.sound := by
  have hcpu : ({ m with board := m.board.dot.2 } : Machine γ).afterDot.underway =
      ({ m with board := m.board.dot.2 } : Machine γ).underway := by
    unfold afterDot
    dsimp only
    split
    · split
      · rfl
      · rfl
    · split
      · rfl
      · rfl
  have hpage := m.board.picture.dmaPage_tick m.board.cartridge
  rw [dot_of_ok h]
  exact ⟨hcpu.trans (congrArg (fun dmaPage => { m.underway with dmaPage }) hpage), rfl⟩

/-! ## A cycle of whoever has the bus -/

/-- A cycle of a transfer that has the bus leaves less work. -/
theorem transferCycle_work {t : SpriteTransfer} (ht : m.transfer = some t) (hs : t.started = true) :
    (m.transferCycle t).underway.work < m.underway.work := by
  unfold transferCycle
  dsimp only
  split
  · have hread := m.board.dmaPage_read t.source
    have hwork := Underway.work_copied (u := m.underway) ht hs
      { t with data := (m.board.read t.source).1, cycles := t.cycles + 1 } rfl hs
    refine Nat.lt_of_le_of_lt (Nat.le_of_eq (congrArg Underway.work ?_)) hwork
    exact congrArg (fun dmaPage => Underway.mk _ _ _ _ dmaPage) hread
  · have hwrite := m.board.dmaPage_write (show (0x2004 : UInt16) ≠ 0x4014 by decide) t.data
    have hwork := Underway.work_copied (u := m.underway) ht hs { t with cycles := t.cycles + 1 } rfl hs
    refine Nat.lt_of_le_of_lt (Nat.le_of_eq (congrArg Underway.work ?_)) hwork
    exact congrArg (fun dmaPage => Underway.mk _ _ _ _ dmaPage) hwrite

/-- What is under way after a cycle of the processor: its new phase, the transfer that a read has
    started, and the page that was asked for. -/
theorem underway_processorCycle {kind : CycleKind} {cpu : Processor} {board : Mainboard γ}
    (h : m.cpu.tick m.board = (kind, cpu, board)) : m.processorCycle.underway =
      { phase := cpu.phase, opcode := cpu.opcode, operand := cpu.operand
        transfer := if kind = .read then m.transfer.map fun t => { t with started := true } else m.transfer
        dmaPage := board.picture.dmaPage } := by
  unfold processorCycle
  dsimp only
  rw [h]
  cases kind with
  | read => rfl
  | write => rfl

/-- What a cycle of the processor does, unless it writes back a byte to the register that asks for
    transfers. -/
theorem processorCycle_turns (h : ¬ m.cpu.WritesBack 0x4014) :
    m.underway.Turns m.processorCycle.underway := by
  refine ⟨m.cpu.tick_left m.board, fun hleft => Processor.tick_opens hleft m.board, ?_⟩
  have hwrites := m.cpu.counted.cycle_writes
  cases hc : m.cpu.counted.cycle with
  | read addr next =>
    rw [underway_processorCycle (Processor.tick_of_read hc)]
    exact .inl ⟨rfl, m.board.dmaPage_read addr⟩
  | idle next =>
    rw [underway_processorCycle (Processor.tick_of_idle hc m.board)]
    exact .inl ⟨rfl, rfl⟩
  | write addr data next =>
    rw [hc] at hwrites
    obtain ⟨hreads, hlast⟩ := hwrites
    rw [underway_processorCycle (Processor.tick_of_write hc)]
    refine .inr ⟨hreads, rfl, ?_⟩
    by_cases haddr : addr = 0x4014
    · subst haddr
      refine .inr ?_
      rcases hlast with hstack | hfetch | hback
      · have htop := m.cpu.counted.stackTop_toNat
        have hsp := m.cpu.counted.registers.sp.toNat_lt
        rw [← hstack] at htop
        replace htop : 0x4014 = 0x0100 + m.cpu.counted.registers.sp.toNat := htop
        omega
      · exact congrArg Phase.left hfetch
      · exact absurd hback h
    · exact .inl (m.board.dmaPage_write haddr data)

/-- The cycle leaves less work. -/
theorem busCycle_work (hun : ¬ m.underway.IsSettled) (h : ¬ m.cpu.WritesBack 0x4014) :
    m.beginTransfer.busCycle.underway.work < m.underway.work := by
  have hbegun := m.underway_beginTransfer
  have hback : ¬ m.beginTransfer.cpu.WritesBack 0x4014 := by
    obtain ⟨cpu, board, transfer, pictures⟩ := m
    cases transfer with
    | none => exact h
    | some t => exact h
  have hturns := processorCycle_turns hback
  rw [← Underway.work_begun hun, ← hbegun]
  unfold busCycle
  cases ht : m.beginTransfer.transfer with
  | none =>
    obtain ⟨ht', hd⟩ := Underway.begun_of_none (u := m.underway) (hbegun ▸ ht)
    rw [hbegun, Underway.begun_self ht' hd] at hturns ⊢
    exact hturns.work_lt_of_none (fun hleft => hun ⟨hleft, ht'⟩) ht' hd
  | some t =>
    dsimp only
    split
    · next hs => exact transferCycle_work ht hs
    · next hs =>
      replace hs := Bool.eq_false_iff.mpr hs
      cases hd : m.beginTransfer.board.picture.dmaPage with
      | none => exact hturns.work_lt_of_waiting ht hs hd
      | some page => exact hturns.work_lt_of_queued ht hs hd

/-! ## Pace -/

theorem sound_prepared (m : Machine γ) :
    m.prepared.board.sound = m.serveSound.2.board.sound.process.2 := by
  unfold prepared raiseSoundIrq
  dsimp only
  split
  · rfl
  · rfl

omit [Cartridge γ] in
/-- A bound on the cycles until the machine is settled, those that the sound unit takes included. -/
def pace (m : Machine γ) : Nat := 4 * m.underway.work + m.board.sound.stalls

omit [Cartridge γ] in
/-- The pace is never more than 6239. -/
theorem pace_le (m : Machine γ) : m.pace ≤ 6239 := by
  have hwork := m.underway.work_le
  have hstalls := m.board.sound.stalls_le
  unfold pace
  omega

/-- A cycle lowers it, whoever has the cycle. -/
theorem pace_cpuCycle (hs : m.board.sound.Served) (hun : ¬ m.underway.IsSettled)
    (h : ¬ m.cpu.WritesBack 0x4014) (hok : m.cpuCycle.1 = .ok ()) : m.cpuCycle.2.pace < m.pace := by
  have hprepared := m.underway_prepared
  obtain ⟨hprocess, -⟩ := cpuCycle_of_ok hok
  have hserve := m.serveSound_eq fun hreq => hs.fetching.upper (.inr hreq)
  rw [cpuCycle_prepared hok]
  unfold pace
  cases hreq : m.board.sound.dmc.requested with
  | true =>
    -- the sound unit has the cycle: the work stays, the stalls go down
    rw [hreq, if_pos rfl] at hserve
    have hanswered : (m.board.sound.serve
        (Cartridge.cpuRead m.board.cartridge m.board.sound.dmc.address).1).process.1 = .ok () := by
      rw [hserve] at hprocess
      exact hprocess
    have hstalls := hs.settled.stalls_lt hreq hanswered
    rw [hserve, if_pos rfl, hprepared, sound_prepared, hserve]
    exact Nat.add_lt_add_left hstalls _
  | false =>
    -- the work goes down by one, for which there may be three stalls more
    rw [hreq, if_neg Bool.false_ne_true] at hserve
    have hwork := busCycle_work (m := m.prepared) (by rw [hprepared]; exact hun)
      (by rw [writesBack_congr hprepared]; exact h)
    rw [hprepared] at hwork
    have hstalls := m.prepared.beginTransfer.busCycle.board.sound.stalls_le
    rw [hserve, if_neg Bool.false_ne_true]
    omega

end Machine

/-! ## A step of the search -/

/-- What either of two actions keeps, both together keep. -/
theorem andThen_inv {ε α : Type} {P : α → Prop} {x : Except ε Unit × α} {f : α → Except ε Unit × α}
    (h : P x.2) (hf : ∀ a, P a → P (f a).2) : P (andThen x f).2 := by
  obtain ⟨_ | _, a⟩ := x
  · exact h
  · exact hf a h

/-- An action that fails decides how the two of them end. -/
theorem andThen_of_error {ε α : Type} {x : Except ε Unit × α} {e : ε} (h : x.1 = .error e)
    (f : α → Except ε Unit × α) : (andThen x f).1 = .error e := by
  obtain ⟨_ | _, a⟩ := x
  · exact h
  · cases h

namespace Clock

variable {σ ε : Type} [Clocked σ ε]

/-- A processor cycle is still to come before the divider wraps. -/
def InPhase (c : Clock) : Prop := c.cpuPhase < c.region.cpuDivider

theorem inPhase_new (region : Region) : (new region).InPhase := by
  cases region with
  | ntsc => exact (by decide : 0 < Region.ntsc.cpuDivider)
  | pal => exact (by decide : 0 < Region.pal.cpuDivider)

/-- The processor's turn keeps its count below its divider. -/
theorem InPhase.cpuTurn {c : Clock} (h : c.InPhase) (s : σ) : (c.cpuTurn s).2.1.InPhase := by
  have hadvanced : c.advanceCpu.2.InPhase := by
    unfold advanceCpu InPhase at *
    split
    · show 0 < c.region.cpuDivider
      omega
    · show c.cpuPhase + 1 < c.region.cpuDivider
      omega
  unfold Clock.cpuTurn
  split
  · next c' hc =>
    rw [hc] at hadvanced
    exact hadvanced
  · next c' hc =>
    rw [hc] at hadvanced
    exact hadvanced

theorem dotTurn_cpuPhase (c : Clock) (s : σ) :
    (c.dotTurn s).2.1.cpuPhase = c.cpuPhase ∧ (c.dotTurn s).2.1.region = c.region := by
  unfold Clock.dotTurn advanceDot
  split
  · next c' hc =>
    split at hc
    · cases hc
      exact ⟨rfl, rfl⟩
    · cases hc
  · next c' hc =>
    split at hc
    · cases hc
    · cases hc
      exact ⟨rfl, rfl⟩

theorem InPhase.dotTurn {c : Clock} (h : c.InPhase) (s : σ) : (c.dotTurn s).2.1.InPhase := by
  obtain ⟨hphase, hregion⟩ := c.dotTurn_cpuPhase s
  unfold InPhase
  rw [hphase, hregion]
  exact h

/-- A run of the clock, however long, keeps the counts below their dividers. -/
theorem InPhase.runCycles {c : Clock} (h : c.InPhase) (p : Pace) (n : Nat) (s : σ) :
    (Clock.runCycles p n c s).2.1.InPhase := by
  induction n generalizing c s with
  | zero => exact h
  | succ n ih =>
    rw [runCycles_succ]
    refine andThen_inv (P := fun q : Clock × σ => q.1.InPhase) ?_ fun q hq => ih hq q.2
    by_cases hp : p = .cpuCycle
    · subst hp
      rw [masterCycle_cpuCycle]
      exact andThen_inv (P := fun q : Clock × σ => q.1.InPhase) (h.dotTurn s) fun q hq => hq.cpuTurn q.2
    · rw [masterCycle_of_ne hp]
      exact andThen_inv (P := fun q : Clock × σ => q.1.InPhase) (h.cpuTurn s) fun q hq => hq.dotTurn q.2

variable {c : Clock} {s : σ} {P : σ → Prop}

/-- On the last count the processor has its cycle. -/
theorem cpuTurn_last (h : c.cpuPhase + 1 = c.region.cpuDivider) (s : σ) :
    c.cpuTurn s = ((Clocked.cpuCycle s).1, { c with cpuPhase := 0 }, (Clocked.cpuCycle s).2) := by
  unfold Clock.cpuTurn advanceCpu
  rw [if_pos h]

/-- Before the last count it is only counted. -/
theorem cpuTurn_before (h : c.cpuPhase + 1 ≠ c.region.cpuDivider) (s : σ) :
    c.cpuTurn s = (.ok (), { c with cpuPhase := c.cpuPhase + 1 }, s) := by
  unfold Clock.cpuTurn advanceCpu
  rw [if_neg h]

section Dots

variable (hdot : ∀ s, P s → (Clocked.dot s).1 = .ok () → P (Clocked.dot s).2)

include hdot

/-- A master cycle on the way to a processor cycle fails with a dot, or comes down to the processor's
    turn. -/
theorem masterCycle_fails_or_turns (c : Clock) (h : P s) :
    (∃ t e, P t ∧ (Clocked.dot t).1 = .error e ∧ (c.masterCycle .cpuCycle s).1 = .error e) ∨
      ∃ c' : Clock, ∃ t, P t ∧ c'.cpuPhase = c.cpuPhase ∧ c'.region = c.region ∧
        c.masterCycle .cpuCycle s = c'.cpuTurn t := by
  obtain ⟨hphase, hregion⟩ := c.dotTurn_cpuPhase s
  have hturn : (∃ e, (Clocked.dot s).1 = .error e ∧ (c.dotTurn s).1 = .error e) ∨
      ((c.dotTurn s).1 = .ok () ∧ P (c.dotTurn s).2.2) := by
    unfold Clock.dotTurn
    split
    · cases hd : (Clocked.dot s).1 with
      | error e => exact .inl ⟨e, rfl, rfl⟩
      | ok _ => exact .inr ⟨rfl, hdot s h hd⟩
    · exact .inr ⟨rfl, h⟩
  rw [masterCycle_cpuCycle]
  rcases hturn with ⟨e, hfails, hturn⟩ | ⟨hturn, hkept⟩
  · exact .inl ⟨s, e, h, hfails, andThen_of_error hturn _⟩
  · exact .inr ⟨_, _, hkept, hphase, hregion, andThen_of_ok hturn _⟩

/-- Up to a processor cycle that is so many master cycles ahead there are only dots.  One of them fails, or
    what they keep holds when that cycle is made, and it is the last thing that is made. -/
theorem runCycles_cpuCycle (n : Nat) (hn : c.cpuPhase + (n + 1) = c.region.cpuDivider) (h : P s) :
    ∃ t, P t ∧
      ((∃ e, (Clocked.dot t).1 = .error e ∧ (Clock.runCycles .cpuCycle (n + 1) c s).1 = .error e) ∨
        ((Clock.runCycles .cpuCycle (n + 1) c s).1 = (Clocked.cpuCycle t).1 ∧
          (Clock.runCycles .cpuCycle (n + 1) c s).2.2 = (Clocked.cpuCycle t).2)) := by
  induction n generalizing c s with
  | zero =>
    have hone : Clock.runCycles .cpuCycle 1 c s = c.masterCycle .cpuCycle s := by
      rw [runCycles_succ]
      rcases c.masterCycle .cpuCycle s with ⟨_ | _, _⟩
      · rfl
      · rfl
    rw [hone]
    rcases c.masterCycle_fails_or_turns hdot h with ⟨t, e, ht, hfails, hmaster⟩ |
      ⟨c', t, ht, hphase, hregion, hcycle⟩
    · exact ⟨t, ht, .inl ⟨e, hfails, hmaster⟩⟩
    · rw [hcycle, cpuTurn_last (by rw [hphase, hregion]; exact hn)]
      exact ⟨t, ht, .inr ⟨rfl, rfl⟩⟩
  | succ n ih =>
    rw [runCycles_succ]
    rcases c.masterCycle_fails_or_turns hdot h with ⟨t, e, ht, hfails, hmaster⟩ |
      ⟨c', t, ht, hphase, hregion, hcycle⟩
    · exact ⟨t, ht, .inl ⟨e, hfails, andThen_of_error hmaster _⟩⟩
    · rw [hcycle, cpuTurn_before (by rw [hphase, hregion]; omega)]
      refine ih ?_ ht
      show c'.cpuPhase + 1 + (n + 1) = c'.region.cpuDivider
      rw [hphase, hregion]
      omega

/-- A run up to the next processor cycle comes to just one such cycle, after dots that went well, or
    fails with a dot. -/
theorem run_cpuCycle (hc : c.InPhase) (h : P s) : ∃ t, P t ∧
    ((∃ e, (Clocked.dot t).1 = .error e ∧ (c.run .cpuCycle s).1 = .error e) ∨
      ((c.run .cpuCycle s).1 = (Clocked.cpuCycle t).1 ∧
        (c.run .cpuCycle s).2.2 = (Clocked.cpuCycle t).2)) := by
  unfold InPhase at hc
  have hahead : c.cyclesFor .cpuCycle = c.region.cpuDivider - c.cpuPhase - 1 + 1 := by
    show c.region.cpuDivider - c.cpuPhase = _
    omega
  unfold Clock.run
  rw [hahead]
  exact runCycles_cpuCycle hdot _ (by omega) h

end Dots

end Clock

namespace Console

variable {γ : Type} [Cartridge γ] {settings : Settings} {c d : Console γ}

theorem inPhase_run (h : c.clock.InPhase) (pace : Pace) : (c.run pace).2.clock.InPhase :=
  h.runCycles pace _ c.machine

/-- The search for a settled state keeps the clock in phase. -/
theorem inPhase_settleWithin (h : c.clock.InPhase) (n : Nat) : (settleWithin n c).2.clock.InPhase := by
  induction n generalizing c with
  | zero => exact h
  | succ n ih =>
    rw [settleWithin_succ]
    split
    · exact h
    · exact andThen_inv (P := fun d : Console γ => d.clock.InPhase) (inPhase_run h .cpuCycle) fun _ => ih

/-- So does a pause. -/
theorem inPhase_pause (h : c.clock.InPhase) : c.pause.2.clock.InPhase := by
  rw [pause_eq]
  exact andThen_inv (P := fun d : Console γ => d.clock.InPhase) (inPhase_settleWithin h settleBound)
    fun _ hd => hd

/-- The clock of a console has its next processor cycle ahead of it, whatever has been done to the
    console. -/
theorem Reachable.inPhase (h : Reachable settings c) : c.clock.InPhase := by
  induction h with
  | new cartridge hc =>
    obtain ⟨-, sound, -, rfl⟩ := new_eq_ok_iff.mp hc
    exact Clock.inPhase_new _
  | @runFrame c _ ih =>
    rw [runFrame_eq]
    exact andThen_inv (P := fun d : Console γ => d.clock.InPhase) (inPhase_run (c := c.resume) ih .frame)
      fun _ hd => hd
  | stepCpu _ ih => exact inPhase_run ih .cpuCycle
  | stepDot _ ih => exact inPhase_run ih .dot
  | stepInstruction _ ih =>
    rw [stepInstruction_eq]
    exact andThen_inv (P := fun d : Console γ => d.clock.InPhase) (inPhase_run ih .cpuCycle)
      fun _ hd => inPhase_settleWithin hd settleBound
  | pause _ ih => exact inPhase_pause ih
  | resume _ ih => exact ih
  | setRegion region hc ih =>
    rcases hc.setRegion_cases region with ⟨-, hok, -⟩ | ⟨e, -, hkept⟩
    · obtain ⟨-, -, hset⟩ := setRegion_of_ok hok
      rw [hset]
      exact Clock.inPhase_new region
    · rw [hkept]
      exact inPhase_pause ih
  | @reset c _ ih =>
    unfold Console.reset
    dsimp only
    split
    · exact ih
    · exact Clock.inPhase_new _
  | takeSamples _ ih => exact ih
  | hold controllers _ ih => exact ih
  | read addr _ ih => exact ih
  | write addr data _ ih => exact ih
  | mapCpu f _ ih => exact ih

/-- A step makes one processor cycle, before which what is under way and the sound unit are left alone. -/
theorem Reachable.stepCpu_eq (h : Reachable settings c) (hok : c.stepCpu.1 = .ok ()) :
    ∃ m : Machine γ, m.underway = c.machine.underway ∧ m.board.sound = c.machine.board.sound ∧
      m.cpuCycle.1 = .ok () ∧ c.stepCpu.2.machine = m.cpuCycle.2 := by
  have hdots : ∀ m : Machine γ,
      m.underway = c.machine.underway ∧ m.board.sound = c.machine.board.sound → m.dot.1 = .ok () →
        m.dot.2.underway = c.machine.underway ∧ m.dot.2.board.sound = c.machine.board.sound := by
    rintro m ⟨hm, hs⟩ hdot
    obtain ⟨hm', hs'⟩ := Machine.underway_dot hdot
    exact ⟨hm'.trans hm, hs'.trans hs⟩
  have hrun := mapError_eq_ok hok
  obtain ⟨m, ⟨hm, hs⟩, ⟨e, -, hfails⟩ | ⟨hcycle, hlast⟩⟩ := Clock.run_cpuCycle hdots h.inPhase ⟨rfl, rfl⟩
  · cases hrun.symm.trans hfails
  · exact ⟨m, hm, hs, hcycle.symm.trans hrun, hlast⟩

/-- A step towards a settled state lowers the pace. -/
theorem Reachable.pace_stepCpu (h : Reachable settings c) (hun : c.machine.isSettled = false)
    (hback : ¬ c.machine.cpu.WritesBack 0x4014) (hok : c.stepCpu.1 = .ok ()) :
    c.stepCpu.2.machine.pace < c.machine.pace := by
  obtain ⟨m, hm, hs, hcycle, hlast⟩ := h.stepCpu_eq hok
  have hunsettled : ¬ m.underway.IsSettled := by
    rw [hm, ← Machine.isSettled_iff, hun]
    exact Bool.false_ne_true
  have hlowered := Machine.pace_cpuCycle (by rw [hs]; exact h.driven.served) hunsettled
    (by rw [Machine.writesBack_congr hm]; exact hback) hcycle
  have hpace : m.pace = c.machine.pace := by
    unfold Machine.pace
    rw [hm, hs]
  rw [hlast, ← hpace]
  exact hlowered

/-- With nothing to draw and no sample under way a step goes well. -/
theorem Reachable.stepCpu_quiet (h : Reachable settings c) {k : Nat}
    (hdraws : c.machine.board.picture.mask.draws = false) (hs : c.machine.board.sound.Counting k)
    (hk : k < 9998) : c.stepCpu.1 = .ok () := by
  let quiet (m : Machine γ) : Prop :=
    m.board.sound = c.machine.board.sound ∧ m.board.picture.mask.draws = false
  have hdots : ∀ m, quiet m → m.dot.1 = .ok () ∧ quiet m.dot.2 := by
    rintro m ⟨hsound, hm⟩
    obtain ⟨hpasses, hm'⟩ := Picture.tick_undrawn hm m.board.cartridge
    have hok := Machine.dot_ok hpasses
    refine ⟨hok, (Machine.underway_dot hok).2.trans hsound, ?_⟩
    rw [Machine.dot_of_ok hok]
    exact hm'
  obtain ⟨m, hm, ⟨e, hfails, -⟩ | ⟨hcycle, -⟩⟩ :=
    Clock.run_cpuCycle (P := quiet) (fun m hm _ => (hdots m hm).2) h.inPhase ⟨rfl, hdraws⟩
  · cases hfails.symm.trans (hdots m hm).1
  · have hcount : m.board.sound.Counting k := hm.1 ▸ hs
    have hok := Machine.cpuCycle_quiet hcount.requested (hcount.process hk).1
    show (c.clock.run .cpuCycle c.machine).1.mapError _ = .ok ()
    rw [hcycle.trans hok]
    rfl

/-! ## The search

  The steps are told as an inductive with their number, since the search itself is a loop with a limit
  that the proof is to show is never met. -/

/-- So many steps of the search for a settled state, none of which fails, lead from the first console to
    the second. -/
inductive Settling (c : Console γ) : Nat → Console γ → Prop where
  | start : Settling c 0 c
  | step {n : Nat} {d : Console γ} : Settling c n d → d.machine.isSettled = false → d.stepCpu.1 = .ok () →
      Settling c (n + 1) d.stepCpu.2

variable {n : Nat}

/-- The search only passes through reachable consoles. -/
theorem Settling.reachable (h : Settling c n d) (hc : Reachable settings c) : Reachable settings d := by
  induction h with
  | start => exact hc
  | step _ _ _ ih => exact ih.stepCpu

/-- The search from the first console goes on as that from the second. -/
theorem Settling.settleWithin_add (h : Settling c n d) (k : Nat) :
    settleWithin (n + k) c = settleWithin k d := by
  induction h generalizing k with
  | start => rw [Nat.zero_add]
  | @step n d _ hun hok ih =>
    rw [Nat.add_assoc, Nat.add_comm 1 k, ih, settleWithin_succ, hun, if_neg Bool.false_ne_true,
      andThen_of_ok hok]

/-- From a settled state there is nothing to search. -/
theorem settleWithin_of_isSettled (h : d.machine.isSettled = true) (k : Nat) :
    settleWithin k d = (.ok (), d) := by
  cases k with
  | zero =>
    unfold settleWithin
    rw [if_pos h]
  | succ k => rw [settleWithin_succ, if_pos h]

/-- A search that ends in time is all there is to a pause. -/
theorem Settling.pause_eq (h : Settling c n d) (hsettled : d.machine.isSettled = true)
    (hn : n ≤ settleBound) : c.pause = (.ok (), { d with paused := true }) := by
  have hsettle : c.settle = (.ok (), d) := by
    unfold settle
    rw [show settleBound = n + (settleBound - n) by omega, h.settleWithin_add,
      settleWithin_of_isSettled hsettled]
  unfold Console.pause
  rw [hsettle]

/-- The pace has gone down with every step. -/
theorem Settling.pace (h : Settling c n d) (hc : Reachable settings c)
    (hback : ∀ n d, Settling c n d → ¬ d.machine.cpu.WritesBack 0x4014) :
    n + d.machine.pace ≤ c.machine.pace := by
  induction h with
  | start => omega
  | @step n d hd hun hok ih =>
    have hlowered := (hd.reachable hc).pace_stepCpu hun (hback n d hd) hok
    omega

/-- A search in which nothing fails goes on, unless it is over. -/
theorem exists_settling
    (hok : ∀ n d, Settling c n d → d.machine.isSettled = false → d.stepCpu.1 = .ok ()) (n : Nat) :
    (∃ d, Settling c n d) ∨ ∃ k < n, ∃ d, Settling c k d ∧ d.machine.isSettled = true := by
  induction n with
  | zero => exact .inl ⟨c, .start⟩
  | succ n ih =>
    rcases ih with ⟨d, hd⟩ | ⟨k, hk, hover⟩
    · cases hs : d.machine.isSettled with
      | true => exact .inr ⟨n, Nat.lt_succ_self n, d, hd, hs⟩
      | false => exact .inl ⟨_, hd.step hs (hok n d hd hs)⟩
    · exact .inr ⟨k, Nat.lt_succ_of_lt hk, hover⟩

/-- A pause comes about, whatever is under way: an instruction, an interrupt sequence, a halted processor,
    a byte for the sound unit, a transfer that waits or has the bus.  Where no cycle of the search fails
    and none writes a byte back to the register that asks for transfers, the search is over after at most
    6239 processor cycles, with the processor at a boundary and no transfer under way.  So a change of
    region comes about as well. -/
theorem Reachable.pause_settles (h : Reachable settings c)
    (hback : ∀ n d, Settling c n d → ¬ d.machine.cpu.WritesBack 0x4014)
    (hok : ∀ n d, Settling c n d → d.machine.isSettled = false → d.stepCpu.1 = .ok ()) :
    ∃ n ≤ 6239, ∃ d, Settling c n d ∧ d.machine.cpu.atBoundary = true ∧ d.machine.transfer = none ∧
      c.pause = (.ok (), { d with paused := true }) ∧
      ∀ region, (c.setRegion region).1 = .ok () ∧ (c.setRegion region).2.region = region := by
  have hbound := c.machine.pace_le
  obtain ⟨n, hn, d, hd, hsettled⟩ : ∃ n ≤ 6239, ∃ d, Settling c n d ∧ d.machine.isSettled = true := by
    rcases exists_settling hok 6240 with ⟨d, hd⟩ | ⟨n, hn, hover⟩
    · have hpace := hd.pace h hback
      omega
    · exact ⟨n, by omega, hover⟩
  obtain ⟨hboundary, htransfer⟩ := Bool.and_eq_true_iff.mp hsettled
  have hpause := hd.pause_eq hsettled (Nat.le_trans hn (by decide))
  refine ⟨n, hn, d, hd, hboundary, Option.isNone_iff_eq_none.mp htransfer, hpause, fun region => ?_⟩
  rcases h.setRegion_cases region with ⟨-, hdone, hregion⟩ | ⟨e, hfails, -⟩
  · exact ⟨hdone, hregion⟩
  · rw [hpause] at hfails
    cases hfails

/-- A pause in the last cycle of the reset of a new console. -/
theorem pause_settles_reset : ∃ c : Console Nrom, Reachable {} c ∧ c.machine.isSettled = false ∧
    ∃ n ≤ 6239, ∃ d, Settling c n d ∧ d.machine.isSettled = true ∧
      c.pause = (.ok (), { d with paused := true }) := by
  obtain ⟨c, hnew⟩ := exists_new (show Settings.check {} = .ok () by decide) (by decide) .ntsc Picture.solidBoard
  obtain ⟨-, sound, hsound, hc⟩ := new_eq_ok_iff.mp hnew
  let b := c.mapCpu fun p => { p with phase := .interrupt .reset 6 }
  have hreach : Reachable {} b := .mapCpu _ (.new _ hnew)
  have hun : b.machine.isSettled = false := rfl
  have hboard : b.machine.board = .new (.new .ntsc) sound Picture.solidBoard := by
    show c.machine.board = _
    rw [hc]
    rfl
  have htransfer : b.machine.transfer = none := by
    show c.machine.transfer = _
    rw [hc]
    rfl
  have hcount : b.machine.board.sound.Counting 0 := by
    rw [hboard]
    exact .new hsound
  have hok : b.stepCpu.1 = .ok () := by
    refine hreach.stepCpu_quiet ?_ hcount (by omega)
    rw [hboard]
    exact (by decide : Mask.draws {} = false)
  have hover : b.stepCpu.2.machine.isSettled = true := by
    -- there is one cycle of work, and the sound unit asks for none
    have hpace : b.machine.pace = 4 := by
      unfold Machine.pace
      rw [Underway.work_of_none htransfer, Underway.alone_of_none (by rw [Machine.underway, hboard]; rfl),
        Sound.stalls, if_pos hcount.requested]
      rfl
    have hlowered := hreach.pace_stepCpu hun nofun hok
    rw [hpace, Machine.pace] at hlowered
    exact Machine.isSettled_iff.mpr (Underway.isSettled_of_work (by omega))
  have honly : ∀ n d, Settling b n d → d = b ∨ d.machine.isSettled = true := by
    intro n d hd
    induction hd with
    | start => exact .inl rfl
    | step _ hunsettled _ ih =>
      rcases ih with rfl | hsettled
      · exact .inr hover
      · rw [hunsettled] at hsettled
        cases hsettled
  obtain ⟨n, hn, d, hd, hboundary, hnone, hpause, -⟩ := hreach.pause_settles
    (fun n d hd => by
      rcases honly n d hd with rfl | hsettled
      · exact nofun
      · exact Machine.not_writesBack_of_isSettled hsettled _)
    (fun n d hd hunsettled => by
      rcases honly n d hd with rfl | hsettled
      · exact hok
      · rw [hunsettled] at hsettled
        cases hsettled)
  refine ⟨b, hreach, hun, n, hn, d, hd, ?_, hpause⟩
  unfold Machine.isSettled
  rw [hboundary, hnone]
  rfl

end Console

end Famicom
