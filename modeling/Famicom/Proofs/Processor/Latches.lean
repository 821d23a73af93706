/-
  The latches of a processor from tick to tick, and the invariant of its states.

  1. **A boundary** (`poll_polled`): where the latches are looked at, `due` names the interrupt that is
     taken and `Latches.polled` the one latch that is cleared.
  2. **Every cycle** (`cycleOf`, `workOf`): what it is, by where the processor stands.  Each invariant goes
     by these cases.
  3. **Any tick** (`tick_ticked`): the latches and the polling after a tick are functions of the state
     before it.  Only three places touch a latch: a boundary that looks at them, a halted processor, and
     the status push of a software break.
  4. **Coherence** (`Reachable.coherent`): in the course of an instruction the opcode is one of the table
     and none that halts, an instruction that reads has its operand in memory, the unused bit of the
     status is set, and the latches are passed over only at a boundary.
  5. **Accounts** (`nmisTaken_add_latched`): over every run, each raised non-maskable interrupt has been
     taken once or is still latched.
-/
import Famicom.Proofs.Processor.Acts

namespace Famicom

/-- The modes in which an instruction executes at once. -/
def AddressingMode.IsBare (mode : AddressingMode) : Prop :=
  mode = .implied ∨ mode = .accumulator ∨ mode = .indirect

/-- The modes that take cycles of their own to find the operand. -/
def AddressingMode.takesCycles : AddressingMode → Bool
  | implied | accumulator | indirect | immediate => false
  | _ => true

namespace Processor

variable {β : Type} [Bus β] {p q : Processor}

/-! ## A boundary -/

/-- The latches after they are looked at: one is cleared, the first in the order reset, non-maskable,
    maskable.  The last is cleared whether it is set or not, and whether it is masked or not. -/
def Latches.polled (l : Latches) : Latches :=
  if l.reset then { l with reset := false }
  else if l.nmi then { l with nmi := false }
  else { l with irq := false }

/-- The interrupt that is taken where the latches are looked at. -/
def due (p : Processor) : Option Interrupt :=
  if p.resetLatch then some .reset
  else if p.nmiLatch then some .nmi
  else if p.irqLatch && !p.registers.status.get .interruptDisable then some .irq
  else none

/-- The same processor with other latches. -/
def latch (p : Processor) (l : Latches) : Processor :=
  { p with resetLatch := l.reset, nmiLatch := l.nmi, irqLatch := l.irq }

/-- The latch of an interrupt is raised. -/
def Latches.raised (l : Latches) : Interrupt → Bool
  | .reset => l.reset
  | .nmi => l.nmi
  | .irq => l.irq

/-- The latches with that of an interrupt cleared. -/
def Latches.clear (l : Latches) : Interrupt → Latches
  | .reset => { l with reset := false }
  | .nmi => { l with nmi := false }
  | .irq => { l with irq := false }

/-- The latches with that of an interrupt raised. -/
def Latches.raise (l : Latches) : Interrupt → Latches
  | .reset => { l with reset := true }
  | .nmi => { l with nmi := true }
  | .irq => { l with irq := true }

/-- A request raises a latch and does nothing else. -/
theorem request_eq (p : Processor) (kind : Interrupt) :
    p.request kind = p.latch (p.latches.raise kind) := by
  cases kind <;> rfl

/-- An interrupt that is taken was latched, and no other latch is cleared for it. -/
theorem polled_of_due {kind : Interrupt} (h : p.due = some kind) :
    p.latches.raised kind = true ∧ p.latches.polled = p.latches.clear kind := by
  obtain ⟨registers, _, _, _, _, _, _, _, _, r, n, i⟩ := p
  unfold due at h
  dsimp only at h
  cases r with
  | true =>
    obtain rfl : Interrupt.reset = kind := Option.some.inj h
    exact ⟨rfl, rfl⟩
  | false =>
    cases n with
    | true =>
      obtain rfl : Interrupt.nmi = kind := Option.some.inj h
      exact ⟨rfl, rfl⟩
    | false =>
      cases i with
      | true =>
        cases hd : registers.status.get .interruptDisable with
        | true => rw [hd] at h; cases h
        | false =>
          rw [hd] at h
          obtain rfl : Interrupt.irq = kind := Option.some.inj h
          exact ⟨rfl, rfl⟩
      | false => cases h

/-- With nothing due, only a masked interrupt request may still be latched. -/
theorem latches_of_not_due (h : p.due = none) : p.latches = ⟨false, false, p.irqLatch⟩ := by
  obtain ⟨registers, _, _, _, _, _, _, _, _, r, n, i⟩ := p
  unfold due at h
  dsimp only at h
  cases r with
  | true => cases h
  | false =>
    cases n with
    | true => cases h
    | false => rfl

/-- Where no interrupt is taken no latch is left raised: a masked one is cleared as well. -/
theorem polled_of_not_due (h : p.due = none) : p.latches.polled = ⟨false, false, false⟩ := by
  rw [latches_of_not_due h]
  rfl

/-- A boundary that looks at the latches names the interrupt that is due and clears its latch. -/
theorem poll_polled (h : p.polls = true) : p.poll = (p.due, p.latch p.latches.polled) := by
  obtain ⟨registers, cycles, phase, polls, opcode, operand, pointer, data, vector, r, n, i⟩ := p
  subst h
  unfold poll due
  dsimp only
  cases r with
  | true => rfl
  | false =>
    cases n with
    | true => rfl
    | false =>
      cases i with
      | true => cases registers.status.get .interruptDisable <;> rfl
      | false => rfl

/-- A boundary that passes over the latches has the next one look at them. -/
theorem poll_unpolled (h : p.polls = false) : p.poll = (none, { p with polls := true }) := by
  unfold poll
  rw [h]
  rfl

/-- With an interrupt due, the boundary begins its sequence in place of a fetch. -/
theorem cycle_due (hf : p.phase = .fetch) (hp : p.polls = true) {kind : Interrupt}
    (hd : p.due = some kind) : p.cycle = (p.latch p.latches.polled).interruptCycle kind 0 := by
  simp only [cycle, hf, poll_polled hp, hd]

/-- With none due, the next instruction is fetched. -/
theorem cycle_not_due (hf : p.phase = .fetch) (hp : p.polls = true) (hd : p.due = none) :
    p.cycle = (p.latch p.latches.polled).fetchCycle := by
  simp only [cycle, hf, poll_polled hp, hd]

/-- Where the latches are passed over, the next instruction is fetched whatever is latched. -/
theorem cycle_unpolled (hf : p.phase = .fetch) (hp : p.polls = false) :
    p.cycle = { p with polls := true }.fetchCycle := by
  simp only [cycle, hf, poll_unpolled hp]

/-- A reset brings a halted processor back. -/
theorem cycle_halted (hh : p.phase = .halted) (hr : p.resetLatch = true) :
    p.cycle = { p with resetLatch := false }.interruptCycle .reset 0 := by
  unfold cycle
  rw [hh]
  dsimp only
  rw [hr, if_pos rfl]

/-- Without one it does nothing. -/
theorem cycle_waiting (hh : p.phase = .halted) (hr : p.resetLatch = false) : p.cycle = .idle p := by
  unfold cycle
  rw [hh]
  dsimp only
  rw [hr, if_neg Bool.false_ne_true]

/-- A processor that waits for a reset counts its cycles and does nothing else. -/
theorem tick_waiting (hh : p.phase = .halted) (hr : p.resetLatch = false) (bus : β) :
    p.tick bus = (.read, p.counted, bus) :=
  tick_of_idle (cycle_waiting (p := p.counted) hh hr) bus

theorem cycle_interrupt {kind : Interrupt} {step : Nat} (h : p.phase = .interrupt kind step) :
    p.cycle = p.interruptCycle kind step := by
  unfold cycle
  rw [h]

/-- What a processor does in a cycle, by where it stands. -/
inductive CycleOf (p : Processor) : Cycle → Prop where
  | passes : p.phase = .fetch → p.polls = false → CycleOf p { p with polls := true }.fetchCycle
  | begins (kind : Interrupt) : p.phase = .fetch → p.polls = true → p.due = some kind →
      CycleOf p ((p.latch p.latches.polled).interruptCycle kind 0)
  | fetches : p.phase = .fetch → p.polls = true → p.due = none →
      CycleOf p (p.latch p.latches.polled).fetchCycle
  | resets : p.phase = .halted → p.resetLatch = true →
      CycleOf p ({ p with resetLatch := false }.interruptCycle .reset 0)
  | waits : p.phase = .halted → p.resetLatch = false → CycleOf p (.idle p)
  | interrupt (kind : Interrupt) (step : Nat) : p.phase = .interrupt kind step →
      CycleOf p (p.interruptCycle kind step)
  | inside : p.phase.inside = true → CycleOf p p.cycle

/-- Every cycle is one of those listed. -/
theorem cycleOf (p : Processor) : CycleOf p p.cycle := by
  cases hp : p.phase with
  | fetch =>
    cases hs : p.polls with
    | false => rw [cycle_unpolled hp hs]; exact .passes hp hs
    | true =>
      cases hd : p.due with
      | some kind => rw [cycle_due hp hs hd]; exact .begins kind hp hs hd
      | none => rw [cycle_not_due hp hs hd]; exact .fetches hp hs hd
  | halted =>
    cases hr : p.resetLatch with
    | true => rw [cycle_halted hp hr]; exact .resets hp hr
    | false => rw [cycle_waiting hp hr]; exact .waits hp hr
  | interrupt kind step => rw [cycle_interrupt hp]; exact .interrupt kind step hp
  | operand step | dummyRead | execute step => exact .inside (by rw [hp]; rfl)

/-- An instruction without an operand executes in the cycle after its fetch. -/
theorem cycle_bare {step : Nat} (hp : p.phase = .operand step) (hm : p.opcode.mode.IsBare) :
    p.cycle = p.executeCycle 0 := by
  rcases hm with hm | hm | hm <;> simp only [cycle, hp, hm]

/-- One whose operand stands in the program has it and executes in the same cycle. -/
theorem cycle_immediate {step : Nat} (hp : p.phase = .operand step)
    (hm : p.opcode.mode = .immediate) : p.cycle = p.immediateCycle := by
  simp only [cycle, hp, hm]

/-- The other modes take cycles of their own to find the operand. -/
theorem cycle_operand {step : Nat} (hp : p.phase = .operand step)
    (hm : p.opcode.mode.takesCycles = true) : p.cycle = p.operandCycle step := by
  cases h : p.opcode.mode with
  | implied | accumulator | indirect | immediate => rw [h] at hm; cases hm
  | _ => simp only [cycle, hp, h]

/-- The read at the wrong page comes before the execution. -/
theorem cycle_dummyRead (hp : p.phase = .dummyRead) :
    p.cycle = .read p.operand.address fun _ => p.executeNext 0 := by
  simp only [cycle, hp]

theorem cycle_execute {step : Nat} (hp : p.phase = .execute step) :
    p.cycle = p.executeCycle step := by
  simp only [cycle, hp]

/-- What a processor does in a cycle of an instruction. -/
inductive WorkOf (p : Processor) : Cycle → Prop where
  | bare (step : Nat) : p.phase = .operand step → p.opcode.mode.IsBare → WorkOf p (p.executeCycle 0)
  | immediate (step : Nat) : p.phase = .operand step → p.opcode.mode = .immediate →
      WorkOf p p.immediateCycle
  | operand (step : Nat) : p.phase = .operand step → p.opcode.mode.takesCycles = true →
      WorkOf p (p.operandCycle step)
  | dummyRead : p.phase = .dummyRead →
      WorkOf p (.read p.operand.address fun _ => p.executeNext 0)
  | execute (step : Nat) : p.phase = .execute step → WorkOf p (p.executeCycle step)

/-- Inside an instruction every cycle is one of those listed. -/
theorem workOf (h : p.phase.inside = true) : WorkOf p p.cycle := by
  cases hp : p.phase with
  | fetch | halted | interrupt kind step => rw [hp] at h; cases h
  | operand step =>
    cases hm : p.opcode.mode with
    | implied | accumulator | indirect =>
      have hb : p.opcode.mode.IsBare := by simp [AddressingMode.IsBare, hm]
      rw [cycle_bare hp hb]
      exact .bare step hp hb
    | immediate => rw [cycle_immediate hp hm]; exact .immediate step hp hm
    | _ =>
      have ht : p.opcode.mode.takesCycles = true := by rw [hm]; rfl
      rw [cycle_operand hp ht]
      exact .operand step hp ht
  | dummyRead => rw [cycle_dummyRead hp]; exact .dummyRead hp
  | execute step => rw [cycle_execute hp]; exact .execute step hp

/-- A processor that has read an opcode. -/
structure Opens (p q : Processor) : Prop where
  frame : q.frame = { p.frame with opcode := q.opcode }
  opcode : ∃ v, q.opcode = decode v
  phase : q.phase = phaseAfter q.opcode.instruction
  operand : q.operand = {}
  registers : q.registers = { p.registers with pc := q.registers.pc }

/-- A fetch opens the instruction whose opcode it reads. -/
theorem fetchCycle_leads (p : Processor) : p.fetchCycle.Leads (Opens p) :=
  fun v => ⟨rfl, ⟨v, rfl⟩, rfl, rfl, rfl⟩

/-- The processor after it has read an opcode. -/
def opened (p : Processor) (opcode : UInt8) : Processor :=
  { p.counted.advancePc with
    opcode := decode opcode, operand := {}, phase := phaseAfter (decode opcode).instruction,
    polls := true }

/-- Where no interrupt is due the tick reads an opcode, and no latch is left raised. -/
theorem tick_not_due (hf : p.phase = .fetch) (hp : p.polls = true) (hd : p.due = none) (bus : β) :
    p.tick bus = (.read, (p.latch ⟨false, false, false⟩).opened (Bus.read bus p.registers.pc).1,
      (Bus.read bus p.registers.pc).2) := by
  have hc : p.counted.cycle = (p.counted.latch p.latches.polled).fetchCycle :=
    cycle_not_due (p := p.counted) hf hp hd
  rw [polled_of_not_due hd] at hc
  obtain ⟨_, _, _, _, _, _, _, _, _, _, _, _⟩ := p
  subst hp
  exact tick_of_read hc

/-- Where the latches are passed over the tick reads an opcode and leaves them as they are. -/
theorem tick_unpolled (hf : p.phase = .fetch) (hp : p.polls = false) (bus : β) :
    p.tick bus = (.read, p.opened (Bus.read bus p.registers.pc).1,
      (Bus.read bus p.registers.pc).2) :=
  tick_of_read (cycle_unpolled (p := p.counted) hf hp)

/-! ## The course of an instruction

  Every cycle is one of a list, by where the processor stands, and each invariant goes by the cases of
  this list.  So a new invariant costs one case to a kind of cycle and no new look at the functions. -/

/-- The processor stands at the status push of a software break. -/
def atStatusPush (p : Processor) : Bool :=
  match p.phase with
  | .execute step => p.opcode.instruction.statusPush step
  | _ => false

/-- The processor is about to push or to pull. -/
def usesStack (p : Processor) : Bool :=
  match p.phase with
  | .execute step => p.opcode.instruction.stackStep step
  | .interrupt _ step => 2 ≤ step && step ≤ 4
  | _ => false

/-- A processor after a cycle in the course of an instruction. -/
structure Continues (p q : Processor) : Prop where
  frame : q.frame =
    { p.frame with latches := { p.latches with nmi := !p.atStatusPush && p.nmiLatch } }
  phase : q.phase = .fetch ∨ q.phase.inside = true ∨
    (q.phase = .halted ∧ p.opcode.instruction = .hlt)
  /-- An instruction that reads has its operand in memory for as long as it goes on. -/
  value : q.phase.inside = true → ∀ o, p.opcode.instruction = .read o → p.opcode.mode ≠ .relative →
    p.operand.value = none → q.operand.value = none
  marked : p.registers.Marked → q.registers.Marked
  stack : q.registers.sp = p.registers.sp ∨ p.usesStack = true ∨ p.opcode.instruction = .implied .txs

/-- A step of the execution continues the instruction. -/
theorem Continues.of_executes {step : Nat} (h : Executes p step q)
    (hstep : p.phase = .execute step ∨ (step = 0 ∧ ∃ n, p.phase = .operand n)) : Continues p q := by
  have hpush : p.atStatusPush = p.opcode.instruction.statusPush step := by
    unfold atStatusPush
    rcases hstep with he | ⟨rfl, n, ho⟩
    · rw [he]
    · rw [ho, Instruction.statusPush_zero]
  refine ⟨hpush ▸ h.frame, ?_, ?_, h.marked, ?_⟩
  · rcases h.phase with hp | hp | ⟨⟨n, hn⟩, -⟩
    · exact .inl hp
    · exact .inr (.inr hp)
    · exact .inr (.inl (by rw [hn]; rfl))
  · intro hi o ho
    rcases h.phase with hp | ⟨hp, -⟩ | ⟨-, hread⟩
    · rw [hp] at hi; cases hi
    · rw [hp] at hi; cases hi
    · exact absurd ho (hread o)
  · rcases h.stack with hs | ⟨hpos, hs⟩ | hs
    · exact .inl hs
    · rcases hstep with he | ⟨rfl, -⟩
      · exact .inr (.inl (by unfold usesStack; rw [he]; exact hs))
      · exact absurd hpos (Nat.lt_irrefl 0)
    · exact .inr (.inr hs)

/-- So does a step towards the operand. -/
theorem Continues.of_seeks (h : Seeks p q) (hp : p.atStatusPush = false) : Continues p q := by
  refine ⟨?_, ?_, fun _ _ _ hm hv => h.value hm hv, ?_, .inl (by rw [h.registers])⟩
  · rw [h.frame, hp]; rfl
  · rcases h.phase with hf | hi
    · exact .inl hf
    · exact .inr (.inl hi)
  · intro hm
    rw [h.registers]
    exact hm

theorem immediateCycle_leads (hp : p.atStatusPush = false) : p.immediateCycle.Leads (Continues p) := by
  intro v
  dsimp only
  split
  · next o _ =>
    refine ⟨?_, .inl rfl, nofun, fun h => ?_, .inl (o.apply_sp v _)⟩
    · rw [hp]; rfl
    · exact o.apply_marked v (r := p.advancePc.registers) h
  · refine ⟨?_, .inl rfl, nofun, id, .inl rfl⟩
    rw [hp]; rfl

/-- Every cycle in the course of an instruction. -/
theorem cycle_inside_leads (h : p.phase.inside = true) : p.cycle.Leads (Continues p) := by
  have push : ∀ {step}, p.phase = .operand step → p.atStatusPush = false := by
    intro step hp
    simp only [atStatusPush, hp]
  have hw := workOf h
  generalize p.cycle = c at hw
  cases hw with
  | bare step hp hb =>
    exact (p.executeCycle_leads 0).mono fun q hq => .of_executes hq (.inr ⟨rfl, step, hp⟩)
  | immediate step hp hi => exact immediateCycle_leads (push hp)
  | operand step hp hm => exact (p.operandCycle_leads step).mono fun q hq => .of_seeks hq (push hp)
  | dummyRead hp =>
    have hpush : p.atStatusPush = false := by simp only [atStatusPush, hp]
    refine fun v => ⟨?_, .inr (.inl rfl), fun _ _ _ _ hv => hv, id, .inl rfl⟩
    rw [hpush]
    rfl
  | execute step hp =>
    exact (p.executeCycle_leads step).mono fun q hq => .of_executes hq (.inl hp)

/-! ## Any tick -/

/-- The latches after a tick. -/
def latchesAfter (p : Processor) : Latches :=
  match p.phase with
  | .fetch => if p.polls then p.latches.polled else p.latches
  | .halted => { p.latches with reset := false }
  | _ => { p.latches with nmi := !p.atStatusPush && p.nmiLatch }

/-- Whether the next boundary looks at the latches, after a tick. -/
def pollsAfter (p : Processor) : Bool :=
  match p.phase with
  | .fetch => true
  | .interrupt _ step => step < 6 && p.polls
  | _ => p.polls

/-- What a tick leaves of the frame, in every state. -/
structure Ticked (p q : Processor) : Prop where
  latches : q.latches = p.latchesAfter
  polls : q.polls = p.pollsAfter
  cycles : q.cycles = p.cycles

/-- A state with the latches, the polling and the count that a tick ends with. -/
theorem Ticked.of_frame {f : Frame} (h : q.frame = f) (hl : f.latches = p.latchesAfter)
    (hp : f.polls = p.pollsAfter) (hc : f.cycles = p.cycles) : Ticked p q :=
  ⟨(congrArg Frame.latches h).trans hl, (congrArg Frame.polls h).trans hp,
    (congrArg Frame.cycles h).trans hc⟩

/-- Every cycle, whatever the bus answers. -/
theorem cycle_leads (p : Processor) : p.cycle.Leads (Ticked p) := by
  have h := p.cycleOf
  generalize p.cycle = c at h
  cases h with
  | passes hp hs =>
    refine (fetchCycle_leads _).mono fun q hq => .of_frame hq.frame ?_ ?_ rfl
    · simp only [latchesAfter, hp, hs]; rfl
    · simp only [pollsAfter, hp]; rfl
  | begins kind hp hs hd =>
    refine (interruptCycle_leads _ kind 0).mono fun q hq => .of_frame hq.frame ?_ ?_ rfl
    · simp only [latchesAfter, hp, hs, if_pos]; rfl
    · simp only [pollsAfter, hp]; exact hs
  | fetches hp hs hd =>
    refine (fetchCycle_leads _).mono fun q hq => .of_frame hq.frame ?_ ?_ rfl
    · simp only [latchesAfter, hp, hs, if_pos]; rfl
    · simp only [pollsAfter, hp]; exact hs
  | resets hp hr =>
    refine (interruptCycle_leads _ .reset 0).mono fun q hq => .of_frame hq.frame ?_ ?_ rfl
    · simp only [latchesAfter, hp]; rfl
    · simp only [pollsAfter, hp]; rfl
  | waits hp hr =>
    refine .of_frame rfl ?_ ?_ rfl
    · simp only [latchesAfter, hp, ← hr]; rfl
    · simp only [pollsAfter, hp]; rfl
  | interrupt kind step hp =>
    refine (p.interruptCycle_leads kind step).mono fun q hq => .of_frame hq.frame ?_ ?_ rfl
    · simp only [latchesAfter, atStatusPush, hp]; rfl
    · simp only [pollsAfter, hp]
  | inside hi =>
    have hafter : p.latchesAfter = { p.latches with nmi := !p.atStatusPush && p.nmiLatch } ∧
        p.pollsAfter = p.polls := by
      cases hp : p.phase with
      | fetch | halted | interrupt kind step => rw [hp] at hi; cases hi
      | operand step | dummyRead | execute step =>
        simp only [latchesAfter, pollsAfter, hp, and_self]
    exact (cycle_inside_leads hi).mono fun q hq =>
      .of_frame hq.frame hafter.1.symm hafter.2.symm rfl

theorem counted_latchesAfter (p : Processor) : p.counted.latchesAfter = p.latchesAfter := rfl

/-- A tick on any bus: the latches and the polling go by the state before it, and the cycle is
    counted. -/
theorem tick_ticked (p : Processor) (bus : β) : Ticked p.counted (p.tick bus).2.1 :=
  tick_of_leads p.counted.cycle_leads bus

/-! ## Coherence

  What an instruction relies on while it is under way: its opcode is in the table, its operand has been
  found where it needs one, and the latches are looked at. -/

/-- What holds of every processor that has come about by ticks, requests and snapshots. -/
structure Coherent (p : Processor) : Prop where
  marked : p.registers.Marked
  regular : p.phase.inside = true → p.opcode.Regular = true
  runs : p.phase.inside = true → p.opcode.instruction ≠ .hlt
  /-- An instruction that reads has no operand of its own left when its next tick comes. -/
  value : p.phase.inside = true → ∀ o, p.opcode.instruction = .read o → p.operand.value = none
  /-- The latches are passed over only at a boundary. -/
  polls : p.polls = false → p.phase = .fetch

/-- A processor that has just fetched is coherent. -/
theorem Opens.coherent (h : Opens p q) (hm : p.registers.Marked) (hp : p.polls = true) :
    Coherent q := by
  obtain ⟨v, hv⟩ := h.opcode
  refine ⟨?_, ?_, ?_, ?_, ?_⟩
  · rw [h.registers]
    exact hm
  · intro _
    rw [hv]
    exact decode_regular v
  · intro hi he
    rw [h.phase, he] at hi
    cases hi
  · intro _ _ _
    rw [h.operand]
  · intro hq
    have : q.polls = p.polls := congrArg Frame.polls h.frame
    rw [this, hp] at hq
    cases hq

/-- So is one in an interrupt's sequence. -/
theorem Interrupts.coherent {kind : Interrupt} {step : Nat} (h : Interrupts p kind step q)
    (hm : p.registers.Marked) (hp : p.polls = true) : Coherent q := by
  have hi : q.phase.inside = false := by
    rw [h.phase]
    split <;> rfl
  have hpolls : q.polls = (decide (step < 6) && p.polls) := congrArg Frame.polls h.frame
  refine ⟨h.marked hm, fun he => ?_, fun he => ?_, fun he => ?_, fun hq => ?_⟩
  · rw [hi] at he; cases he
  · rw [hi] at he; cases he
  · rw [hi] at he; cases he
  · rw [hpolls, hp, Bool.and_true, decide_eq_false_iff_not] at hq
    rw [h.phase, if_neg hq]

/-- What continues an instruction stays coherent. -/
theorem Coherent.of_inside (hc : Coherent p) (hi : p.phase.inside = true) (h : Continues p q) :
    Coherent q := by
  have hop : q.opcode = p.opcode := congrArg Frame.opcode h.frame
  have hpolls : q.polls = p.polls := congrArg Frame.polls h.frame
  refine ⟨h.marked hc.marked, fun _ => ?_, fun _ => ?_, fun hq o ho => ?_, fun hq => ?_⟩
  · rw [hop]
    exact hc.regular hi
  · rw [hop]
    exact hc.runs hi
  · rw [hop] at ho
    refine h.value hq o ho (fun hm => ?_) (hc.value hi o ho)
    -- no instruction that reads is found with the mode of a branch
    have hr := hc.regular hi
    simp [Opcode.Regular, ho, hm, AddressingMode.inMemory] at hr
  · rw [hpolls] at hq
    rw [hc.polls hq] at hi
    cases hi

/-- Whatever the bus answers, a cycle leads from a coherent state to another. -/
theorem Coherent.cycle_leads (h : Coherent p) : p.cycle.Leads Coherent := by
  have polls : p.phase ≠ .fetch → p.polls = true := fun hn => by
    cases hs : p.polls with
    | true => rfl
    | false => exact absurd (h.polls hs) hn
  have hc := p.cycleOf
  generalize p.cycle = c at hc
  cases hc with
  | passes hp hs => exact (fetchCycle_leads _).mono fun q hq => hq.coherent h.marked rfl
  | begins kind hp hs hd =>
    exact (interruptCycle_leads _ kind 0).mono fun q hq => hq.coherent h.marked hs
  | fetches hp hs hd => exact (fetchCycle_leads _).mono fun q hq => hq.coherent h.marked hs
  | resets hp hr =>
    have hs := polls (by simp [hp])
    exact (interruptCycle_leads _ .reset 0).mono fun q hq => hq.coherent h.marked hs
  | waits hp hr => exact h
  | interrupt kind step hp =>
    have hs := polls (by simp [hp])
    exact (p.interruptCycle_leads kind step).mono fun q hq => hq.coherent h.marked hs
  | inside hi => exact (cycle_inside_leads hi).mono fun q hq => h.of_inside hi hq

theorem Coherent.counted (h : Coherent p) : Coherent p.counted := ⟨h.1, h.2, h.3, h.4, h.5⟩

/-- A tick keeps the processor coherent. -/
theorem Coherent.tick (h : Coherent p) (bus : β) : Coherent (p.tick bus).2.1 :=
  tick_of_leads h.counted.cycle_leads bus

theorem Coherent.request (h : Coherent p) (kind : Interrupt) : Coherent (p.request kind) := by
  cases kind <;> exact ⟨h.1, h.2, h.3, h.4, h.5⟩

/-- Every processor that can come about is coherent. -/
theorem Reachable.coherent (h : Reachable p) : Coherent p := by
  induction h with
  | new => exact ⟨rfl, nofun, nofun, nofun, nofun⟩
  | tick bus _ ih => exact ih.tick bus
  | request kind _ ih => exact ih.request kind
  | restore s _ _ => exact ⟨Status.get_set_self _ _ _, nofun, nofun, nofun, nofun⟩

/-! ## Non-maskable interrupts taken -/

/-- A tick that begins the sequence of a non-maskable interrupt. -/
def beginsNmi (p q : Processor) : Bool := p.phase == .fetch && q.phase == .interrupt .nmi 1

/-- A tick in which a software break that pushes the status goes over to the vector of a non-maskable
    interrupt. -/
def divertsBreak (p q : Processor) : Bool :=
  p.atStatusPush && q.vector == Interrupt.nmi.vector

/-- A tick that takes a non-maskable interrupt. -/
def takesNmi (p q : Processor) : Bool := beginsNmi p q || divertsBreak p q

/-- A tick takes a non-maskable interrupt off its latch, or leaves that latch as it is. -/
structure Spends (p q : Processor) : Prop where
  taken : takesNmi p q = true → p.nmiLatch = true ∧ q.latches = p.latches.clear .nmi
  kept : takesNmi p q = false → q.nmiLatch = p.nmiLatch

/-- A tick that takes no such interrupt and leaves its latch alone spends nothing. -/
theorem Spends.of_kept (h : takesNmi p q = false) (hl : q.nmiLatch = p.nmiLatch) : Spends p q :=
  ⟨fun ht => absurd (h.symm.trans ht) Bool.false_ne_true, fun _ => hl⟩

/-- A fetch takes no non-maskable interrupt. -/
theorem takesNmi_of_opens {p' : Processor} (hp : p.phase = .fetch) (h : Opens p' q) :
    takesNmi p q = false := by
  have hq : (q.phase == .interrupt .nmi 1) = false := by
    rw [h.phase]
    cases q.opcode.instruction <;> rfl
  simp only [takesNmi, beginsNmi, divertsBreak, atStatusPush, hp, hq, Bool.and_false,
    Bool.false_and, Bool.or_false]

/-- Only a boundary and the status push of a software break can take one. -/
theorem takesNmi_of_phase (hp : p.phase ≠ .fetch) (hs : p.atStatusPush = false) :
    takesNmi p q = false := by
  rw [takesNmi, beginsNmi, divertsBreak, hs, beq_eq_false_iff_ne.mpr hp]
  rfl

/-- The status push is the fourth step of a software break. -/
theorem break_of_statusPush (h : p.atStatusPush = true) :
    p.phase = .execute 3 ∧ p.opcode.instruction = .brk := by
  unfold atStatusPush at h
  split at h
  · next step hp =>
    unfold Instruction.statusPush at h
    split at h
    · next hi => exact ⟨hp, hi⟩
    · cases h
  · cases h

theorem cycle_statusPush (h : p.atStatusPush = true) : p.cycle = p.brkCycle 3 := by
  obtain ⟨hp, hi⟩ := break_of_statusPush h
  simp only [cycle, hp, executeCycle, hi]

/-- A software break that is diverted takes the interrupt and clears its latch. -/
theorem brkCycle_spends (hs : p.atStatusPush = true) : (p.brkCycle 3).Leads (Spends p) := by
  have hp : (p.phase == .fetch) = false := by
    rw [(break_of_statusPush hs).1]
    rfl
  cases hn : p.nmiLatch with
  | true =>
    refine ⟨fun _ => ⟨hn, rfl⟩, fun hk => absurd hk ?_⟩
    simp only [takesNmi, beginsNmi, divertsBreak, hs, hn, hp]
    exact (nofun : ¬ true = false)
  | false =>
    refine .of_kept ?_ hn.symm
    simp only [takesNmi, beginsNmi, divertsBreak, hs, hn, hp]
    rfl

/-- Every cycle, whatever the bus answers. -/
theorem cycle_spends (p : Processor) : p.cycle.Leads (Spends p) := by
  cases hs : p.atStatusPush with
  | true => exact cycle_statusPush hs ▸ brkCycle_spends hs
  | false =>
    -- away from a boundary a latch is only touched at a status push
    have keeps : p.phase ≠ .fetch → p.cycle.Leads (Spends p) := by
      intro hp
      refine p.cycle_leads.mono fun q hq => .of_kept (takesNmi_of_phase hp hs) ?_
      refine (congrArg Latches.nmi hq.latches).trans ?_
      unfold latchesAfter
      split
      · next hf => exact absurd hf hp
      · rfl
      · simp only [hs, Bool.not_false, Bool.true_and]
    have h := p.cycleOf
    generalize p.cycle = c at h keeps
    cases h with
    | passes hp hpolls =>
      exact (fetchCycle_leads _).mono fun q hq =>
        .of_kept (takesNmi_of_opens hp hq) (congrArg (fun f => f.latches.nmi) hq.frame)
    | begins kind hp hpolls hd =>
      obtain ⟨hr, hc⟩ := polled_of_due hd
      refine (interruptCycle_leads _ kind 0).mono fun q hq => ?_
      have hq' : q.latches = p.latches.clear kind := (congrArg Frame.latches hq.frame).trans hc
      have hk : takesNmi p q = decide (kind = .nmi) := by
        rw [takesNmi, beginsNmi, divertsBreak, hs, hp, hq.phase]
        cases kind <;> rfl
      cases kind with
      | nmi => exact ⟨fun _ => ⟨hr, hq'⟩, fun h => absurd (hk.symm.trans h) nofun⟩
      | reset | irq => exact .of_kept hk (congrArg Latches.nmi hq')
    | fetches hp hpolls hd =>
      refine (fetchCycle_leads _).mono fun q hq => .of_kept (takesNmi_of_opens hp hq) ?_
      have hn : p.nmiLatch = false := congrArg Latches.nmi (latches_of_not_due hd)
      have hq' := (congrArg Frame.latches hq.frame).trans (polled_of_not_due hd)
      exact (congrArg Latches.nmi hq').trans hn.symm
    | resets hp | waits hp | interrupt kind step hp => exact keeps (by simp [hp])
    | inside hi =>
      refine keeps fun hp => ?_
      rw [hp] at hi
      cases hi

/-- A tick that takes a non-maskable interrupt clears its latch, and no other tick does. -/
theorem tick_spends (p : Processor) (bus : β) : Spends p.counted (p.tick bus).2.1 :=
  tick_of_leads p.counted.cycle_spends bus

/-- The ticks of a run that take a non-maskable interrupt. -/
def nmisTaken (s : Processor × β) : List Act → Nat
  | [] => 0
  | .tick :: acts => (takesNmi s.1 (perform s .tick).1).toNat + nmisTaken (perform s .tick) acts
  | act :: acts => nmisTaken (perform s act) acts

/-- The requests of a run that raise the latch of the non-maskable interrupt. -/
def nmisRaised (s : Processor × β) : List Act → Nat
  | [] => 0
  | .request .nmi :: acts => (!s.1.nmiLatch).toNat + nmisRaised (perform s (.request .nmi)) acts
  | act :: acts => nmisRaised (perform s act) acts

/-- No non-maskable interrupt is lost or taken twice: over a run, those that are taken and the one that is
    left latched are those that were raised and the one that was latched before. -/
theorem nmisTaken_add_latched (s : Processor × β) (acts : List Act) :
    nmisTaken s acts + (run s acts).1.nmiLatch.toNat =
      nmisRaised s acts + s.1.nmiLatch.toNat := by
  induction acts generalizing s with
  | nil => rfl
  | cons act acts ih =>
    have hrun : run s (act :: acts) = run (perform s act) acts := rfl
    rw [hrun]
    cases act with
    | tick =>
      have h := ih (perform s .tick)
      show (takesNmi s.1 (perform s .tick).1).toNat + nmisTaken (perform s .tick) acts + _ =
        nmisRaised (perform s .tick) acts + _
      have hs : Spends s.1.counted (perform s .tick).1 := s.1.tick_spends s.2
      cases ht : takesNmi s.1 (perform s .tick).1 with
      | true =>
        obtain ⟨hn, hl⟩ := hs.taken ht
        have hn : s.1.nmiLatch = true := hn
        have hl : (perform s .tick).1.nmiLatch = false := congrArg Latches.nmi hl
        rw [hl] at h
        rw [hn]
        simp only [Bool.toNat_true, Bool.toNat_false] at h ⊢
        omega
      | false =>
        have hl : (perform s .tick).1.nmiLatch = s.1.nmiLatch := hs.kept ht
        rw [hl] at h
        simp only [Bool.toNat_false]
        omega
    | request kind =>
      have h := ih (perform s (.request kind))
      cases kind with
      | nmi =>
        show nmisTaken (perform s (.request .nmi)) acts + _ =
          (!s.1.nmiLatch).toNat + nmisRaised (perform s (.request .nmi)) acts + _
        have hl : (perform s (.request .nmi)).1.nmiLatch = true := rfl
        rw [hl] at h
        cases hn : s.1.nmiLatch <;> simp only [Bool.toNat_true, Bool.toNat_false, Bool.not_true,
          Bool.not_false] at h ⊢ <;> omega
      | reset | irq => exact h

end Processor

end Famicom
