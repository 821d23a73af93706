/-
  A tick as a loop over the phases.

  A cycle may pass through several phases: a boundary goes over to an interrupt sequence, a mode that
  takes no cycle of its own to the execution.  `turn` is one phase on its own, which makes at most one
  access and either ends the tick or hands on to the next phase; `turns` lets one turn follow another
  for as long as they hand on.

  1. **Turns and cycles** (`Coherent.turns_eq`): in every state that can be reached two turns end the
     tick, with exactly what the cycle does.
  2. **Accesses** (`Coherent.cycle_makes`): which kind of access a cycle makes, and that a processor that
     pushes or pulls does so in page 1.
  3. **One access to a tick** (`OneAccess`), its kind the one that the tick answers with; a processor that
     waits for a reset makes none.
-/
import Famicom.Proofs.Processor.Latches

namespace Famicom

open Script

/-! ## Turns -/

/-- How a turn ends: the tick is over, or the next phase has its turn. -/
inductive Handover where
  | ended (kind : CycleKind) (p : Processor)
  | onward (p : Processor)

/-- A cycle as a turn that ends the tick. -/
def Cycle.turn : Cycle → Script Handover
  | .read addr next => (fetch addr).bind fun v => .done (.ended .read (next v))
  | .write addr data next => (store addr data).bind fun _ => .done (.ended .write next)
  | .idle next => .done (.ended .read next)

theorem Cycle.turn_ended {β : Type} [Bus β] (c : Cycle) (bus : β) (q : Processor) :
    (c.turn.run bus).1 ≠ .onward q := by
  cases c <;> nofun

/-- What a cycle does, with the processor that comes after it. -/
def Cycle.script : Cycle → Script (Option (CycleKind × Processor))
  | .read addr next => (fetch addr).bind fun v => .done (some (.read, next v))
  | .write addr data next => (store addr data).bind fun _ => .done (some (.write, next))
  | .idle next => .done (some (.read, next))

/-- What holds of the access that a cycle makes; a cycle that makes none has nothing that could hold. -/
def Cycle.Makes (P : CycleKind → UInt16 → Prop) : Cycle → Prop
  | .read addr _ => P .read addr
  | .write addr _ _ => P .write addr
  | .idle _ => False

/-- The instruction writes to its operand. -/
def Instruction.writesOperand : Instruction → Bool
  | .modify _ | .store _ => true
  | _ => false

namespace Processor

variable {β : Type} [Bus β] {p q : Processor}

/-- The phase of the processor has its turn. -/
def turn (p : Processor) : Script Handover :=
  match p.phase with
  | .fetch =>
    match p.poll with
    | (some kind, p) => .done (.onward (p.interruptNext kind 0))
    | (none, p) => p.fetchCycle.turn
  | .halted =>
    if p.resetLatch then .done (.onward ({ p with resetLatch := false }.interruptNext .reset 0))
    else .done (.ended .read p)
  | .interrupt kind step => (p.interruptCycle kind step).turn
  | .operand step =>
    match p.opcode.mode with
    | .implied | .accumulator | .indirect => .done (.onward p.operandFound)
    -- the operand is read, and the instruction has the rest of the cycle
    | .immediate => (fetch p.registers.pc).bind fun v =>
      .done (.onward { p.advancePc with operand := .immediate v }.operandFound)
    | _ => (p.operandCycle step).turn
  | .dummyRead => (Cycle.read p.operand.address fun _ => p.executeNext 0).turn
  | .execute step =>
    match p.opcode.instruction with
    | .read op =>
      match p.operand.value with
      | some v => .done (.ended .read (p.mapRegisters (op.apply v)).finish)
      | none => (p.readCycle op).turn
    -- a halting opcode would end its execution with no access made
    | .hlt => .done (.onward p.finish)
    | _ => (p.executeCycle step).turn

/-- At most `n` turns, until one ends the tick. -/
def turns : Nat → Processor → Script (Option (CycleKind × Processor))
  | 0, _ => .done none
  | n + 1, p => p.turn.bind fun
    | .ended kind q => .done (some (kind, q))
    | .onward q => turns n q

theorem turns_ended {c : Cycle} (h : p.turn = c.turn) (n : Nat) : turns (n + 1) p = c.script := by
  unfold turns
  rw [h]
  cases c <;> rfl

theorem turns_onward (h : p.turn = .done (.onward q)) (n : Nat) : turns (n + 1) p = turns n q := by
  rw [turns, h]
  rfl

/-! ## Turns and cycles -/

/-- Executing an instruction leaves nothing of the phase before it. -/
theorem executeCycle_phase (p : Processor) (phase : Phase) (step : Nat) :
    { p with phase }.executeCycle step = p.executeCycle step := by
  obtain ⟨registers, cycles, _, polls, ⟨i, mode⟩, operand, pointer, data, vector, _, _, _⟩ := p
  cases i <;> rfl

theorem operandFound_execute (hb : p.opcode.instruction.isBranch = false)
    (hm : p.opcode.mode.isIndexed = false) : p.operandFound = { p with phase := .execute 0 } := by
  unfold operandFound
  split
  · next c hc =>
    rw [hc] at hb
    cases hb
  · rw [hm, Bool.and_false, Bool.false_and]
    rfl

theorem turn_execute {step : Nat} (hp : p.phase = .execute step) (hi : p.opcode.instruction ≠ .hlt)
    (hv : ∀ o, p.opcode.instruction = .read o → p.operand.value = none) :
    p.turn = (p.executeCycle step).turn := by
  cases h : p.opcode.instruction with
  | read o => simp only [turn, executeCycle, hp, h, hv o h]
  | hlt => exact absurd h hi
  | modify | implied | store | branch | jmp | jsr | rts | rti | pha | php | pla | plp | brk =>
    simp only [turn, hp, h]

theorem turn_interrupt {kind : Interrupt} {step : Nat} (hp : p.phase = .interrupt kind step) :
    p.turn = (p.interruptCycle kind step).turn := by
  simp only [turn, hp]

theorem turn_operand {step : Nat} (hp : p.phase = .operand step)
    (hm : p.opcode.mode.takesCycles = true) : p.turn = (p.operandCycle step).turn := by
  cases h : p.opcode.mode with
  | implied | accumulator | indirect | immediate => rw [h] at hm; cases hm
  | _ => simp only [turn, hp, h]

/-- An instruction that needs no cycle for its operand executes in the turn after. -/
theorem Coherent.turns_execute (h : Coherent p) {step : Nat} (hp : p.phase = .operand step)
    (hm : p.opcode.mode.IsBare) (n : Nat) : turns (n + 2) p = (p.executeCycle 0).script := by
  have hi : p.phase.inside = true := by rw [hp]; rfl
  have hfound : p.operandFound = { p with phase := .execute 0 } := by
    refine operandFound_execute ?_ ?_
    · cases hb : p.opcode.instruction with
      | branch c =>
        -- a branch is only found with the mode of its own
        have hr := h.regular hi
        rw [Opcode.Regular, hb] at hr
        rcases hm with hm | hm | hm <;> simp [hm] at hr
      | _ => rfl
    · rcases hm with hm | hm | hm <;> rw [hm] <;> rfl
  have hturn : p.turn = .done (.onward { p with phase := .execute 0 }) := by
    rw [← hfound]
    rcases hm with hm | hm | hm <;> simp only [turn, hp, hm]
  rw [turns_onward hturn, ← executeCycle_phase p (.execute 0)]
  exact turns_ended (turn_execute (p := { p with phase := .execute 0 }) rfl (h.runs hi) (h.value hi)) n

/-- An immediate operand is read in the first turn and used in the second. -/
theorem Coherent.turns_immediate (h : Coherent p) {step : Nat} (hp : p.phase = .operand step)
    (hm : p.opcode.mode = .immediate) (n : Nat) : turns (n + 2) p = p.immediateCycle.script := by
  have hi : p.phase.inside = true := by rw [hp]; rfl
  obtain ⟨o, ho⟩ : ∃ o, p.opcode.instruction = .read o := by
    have hr := h.regular hi
    cases hb : p.opcode.instruction with
    | read o => exact ⟨o, rfl⟩
    | _ => simp [Opcode.Regular, hb, hm, AddressingMode.inMemory] at hr
  have hfound : ∀ v, { p.advancePc with operand := .immediate v }.operandFound =
      { p.advancePc with operand := .immediate v, phase := .execute 0 } := fun v =>
    operandFound_execute (p := { p.advancePc with operand := .immediate v })
      (by show p.opcode.instruction.isBranch = false; rw [ho]; rfl)
      (by show p.opcode.mode.isIndexed = false; rw [hm]; rfl)
  have hturn : p.turn = (fetch p.registers.pc).bind fun v =>
      .done (.onward { p.advancePc with operand := .immediate v, phase := .execute 0 }) := by
    simp only [turn, hp, hm, hfound]
  have hlast : ∀ v, turn { p.advancePc with operand := .immediate v, phase := .execute 0 } =
      .done (.ended .read
        ({ p.advancePc with operand := .immediate v }.mapRegisters (o.apply v)).finish) := by
    intro v
    unfold turn
    dsimp only [advancePc, jumpTo]
    rw [ho]
    rfl
  have hcycle : p.immediateCycle = .read p.registers.pc fun v =>
      ({ p.advancePc with operand := .immediate v }.mapRegisters (o.apply v)).finish := by
    unfold immediateCycle fetchThen
    dsimp only [advancePc, jumpTo]
    rw [ho]
  rw [turns, hturn, hcycle]
  refine congrArg (Script.read p.registers.pc) (funext fun v => ?_)
  show turns (n + 1) _ = _
  rw [turns, hlast]
  rfl

/-- Two turns end the tick, with what the cycle does. -/
theorem Coherent.turns_eq (h : Coherent p) (n : Nat) : turns (n + 2) p = p.cycle.script := by
  have hc := p.cycleOf
  generalize p.cycle = c at hc
  cases hc with
  | passes hp hs =>
    refine turns_ended ?_ (n + 1)
    simp only [turn, hp, poll_unpolled hs]
  | begins kind hp hs hd =>
    have hturn : p.turn = .done (.onward ((p.latch p.latches.polled).interruptNext kind 0)) := by
      simp only [turn, hp, poll_polled hs, hd]
    rw [turns_onward hturn]
    exact turns_ended (turn_interrupt (p := (p.latch p.latches.polled).interruptNext kind 0) rfl) n
  | fetches hp hs hd =>
    refine turns_ended ?_ (n + 1)
    simp only [turn, hp, poll_polled hs, hd]
  | resets hp hr =>
    have hturn : p.turn = .done (.onward ({ p with resetLatch := false }.interruptNext .reset 0)) := by
      simp only [turn, hp, hr, if_pos]
    rw [turns_onward hturn]
    exact turns_ended (turn_interrupt (p := { p with resetLatch := false }.interruptNext .reset 0) rfl) n
  | waits hp hr =>
    refine turns_ended ?_ (n + 1)
    simp only [turn, hp, hr, Bool.false_eq_true, if_false]
    rfl
  | interrupt kind step hp => exact turns_ended (turn_interrupt hp) (n + 1)
  | inside hi =>
    have hw := workOf hi
    generalize p.cycle = c at hw
    cases hw with
    | bare step hp hb => exact h.turns_execute hp hb n
    | immediate step hp hm => exact h.turns_immediate hp hm n
    | operand step hp hm => exact turns_ended (turn_operand hp hm) (n + 1)
    | dummyRead hp =>
      refine turns_ended ?_ (n + 1)
      simp only [turn, hp]
    | execute step hp => exact turns_ended (turn_execute hp (h.runs hi) (h.value hi)) (n + 1)

/-! ## Accesses -/

/-- What the access of a cycle is held to: pushes and pulls are made in page 1, and writes only by pushes
    and by instructions that write to their operand. -/
structure Permitted (p : Processor) (uses : Bool) (kind : CycleKind) (addr : UInt16) : Prop where
  stack : uses = true → addr = p.stackTop
  write : kind = .write → uses = true ∨ p.opcode.instruction.writesOperand = true

/-- What is read away from the stack. -/
theorem Permitted.read (addr : UInt16) : Permitted p false .read addr := ⟨nofun, nofun⟩

/-- What is read from the stack. -/
theorem Permitted.pull (uses : Bool) : Permitted p uses .read p.stackTop := ⟨fun _ => rfl, nofun⟩

/-- What a push or a pull does with the stack. -/
theorem Permitted.onStack (kind : CycleKind) : Permitted p true kind p.stackTop :=
  ⟨fun _ => rfl, fun _ => .inl rfl⟩

theorem modifyCycle_makes {o : ModifyOp} (h : p.opcode.instruction = .modify o) (step : Nat) :
    (p.modifyCycle o step).Makes (Permitted p false) := by
  have hw : p.opcode.instruction.writesOperand = true := by rw [h]; rfl
  match step with
  | 0 => exact Permitted.read _
  | 1 | _ + 2 => exact ⟨nofun, fun _ => .inr hw⟩

/-- Every step of executing an instruction that does not halt makes an access. -/
theorem executeCycle_makes (p : Processor) (step : Nat) (h : p.opcode.instruction ≠ .hlt) :
    (p.executeCycle step).Makes (Permitted p (p.opcode.instruction.stackStep step)) := by
  obtain ⟨registers, cycles, phase, polls, ⟨i, mode⟩, operand, pointer, data, vector, _, _, _⟩ := p
  cases i with
  | read o => exact Permitted.read _
  | modify o =>
    cases mode with
    | accumulator => exact Permitted.read _
    | _ => exact modifyCycle_makes rfl step
  | implied o => exact Permitted.read _
  | store o => exact ⟨nofun, fun _ => .inr rfl⟩
  | branch c =>
    match step with
    | 0 | _ + 1 => exact Permitted.read _
  | jmp =>
    match step with
    | 0 => exact Permitted.read _
    | 1 | 2 | _ + 3 => cases mode <;> exact Permitted.read _
  | jsr =>
    match step with
    | 0 | 1 | _ + 2 => exact Permitted.onStack _
  | rts =>
    match step with
    | 0 => exact Permitted.read _
    | 1 | 2 | 3 => exact Permitted.pull _
    | _ + 4 => exact ⟨fun hs => by simp [Instruction.stackStep] at hs, nofun⟩
  | rti =>
    match step with
    | 0 => exact Permitted.read _
    | 1 | 2 | 3 | _ + 4 => exact Permitted.pull _
  | pha | php =>
    match step with
    | 0 => exact Permitted.read _
    | _ + 1 => exact ⟨fun _ => rfl, fun _ => .inl (by simp [Instruction.stackStep])⟩
  | pla | plp =>
    match step with
    | 0 => exact Permitted.read _
    | 1 | _ + 2 => exact Permitted.pull _
  | brk =>
    match step with
    | 0 => exact Permitted.read _
    | 1 | 2 | 3 => exact Permitted.onStack _
    | 4 => exact Permitted.read _
    | _ + 5 => exact ⟨fun hs => by simp [Instruction.stackStep] at hs, nofun⟩
  | hlt => exact absurd rfl h

/-- Every cycle of finding an operand, in the modes that take one, reads. -/
theorem operandCycle_makes (p : Processor) (step : Nat) (hm : p.opcode.mode.takesCycles = true) :
    (p.operandCycle step).Makes (Permitted p false) := by
  obtain ⟨registers, cycles, phase, polls, ⟨i, mode⟩, operand, pointer, data, vector, _, _, _⟩ := p
  cases mode with
  | implied | accumulator | indirect | immediate => cases hm
  | relative | zeroPage => exact Permitted.read _
  | zeroPageX | zeroPageY | absolute =>
    match step with
    | 0 | _ + 1 => exact Permitted.read _
  | absoluteX | absoluteY =>
    match step with
    | 0 | 1 | _ + 2 => exact Permitted.read _
  | indexedIndirect | indirectIndexed =>
    match step with
    | 0 | 1 | 2 | _ + 3 => exact Permitted.read _

theorem interruptCycle_makes (p : Processor) (kind : Interrupt) (step : Nat) :
    (p.interruptCycle kind step).Makes (Permitted p (2 ≤ step && step ≤ 4)) := by
  match step with
  | 0 | 1 | 5 => exact Permitted.read _
  | 2 | 3 | 4 => cases kind <;> exact Permitted.onStack _
  | _ + 6 => exact ⟨fun hs => by simp at hs, nofun⟩

/-- Every cycle makes an access, except where the processor waits for a reset. -/
theorem Coherent.cycle_makes (h : Coherent p) (hw : ¬ (p.isHalted = true ∧ p.resetLatch = false)) :
    p.cycle.Makes (Permitted p p.usesStack) := by
  have hc := p.cycleOf
  generalize p.cycle = c at hc
  cases hc with
  | passes hp | begins kind hp | fetches hp | resets hp =>
    have hu : p.usesStack = false := by simp only [usesStack, hp]
    rw [hu]
    exact Permitted.read _
  | waits hp hr => exact absurd ⟨by simp only [isHalted, hp, beq_self_eq_true], hr⟩ hw
  | interrupt kind step hp =>
    have hu : p.usesStack = (2 ≤ step && step ≤ 4) := by simp only [usesStack, hp]
    rw [hu]
    exact p.interruptCycle_makes kind step
  | inside hi =>
    have hwork := workOf hi
    generalize p.cycle = c at hwork
    cases hwork with
    | bare step hp hb =>
      have hu : p.usesStack = false := by simp only [usesStack, hp]
      have hs : p.opcode.instruction.stackStep 0 = false := by
        cases hj : p.opcode.instruction with
        | jsr =>
          have hm : p.opcode.mode = .absolute := by simpa [Opcode.Regular, hj] using h.regular hi
          rw [hm] at hb
          rcases hb with hb | hb | hb <;> cases hb
        | _ => rfl
      rw [hu]
      exact hs ▸ executeCycle_makes p 0 (h.runs hi)
    | immediate step hp | dummyRead hp =>
      have hu : p.usesStack = false := by simp only [usesStack, hp]
      rw [hu]
      exact Permitted.read _
    | operand step hp hm =>
      have hu : p.usesStack = false := by simp only [usesStack, hp]
      rw [hu]
      exact operandCycle_makes p step hm
    | execute step hp =>
      have hu : p.usesStack = p.opcode.instruction.stackStep step := by simp only [usesStack, hp]
      rw [hu]
      exact p.executeCycle_makes step (h.runs hi)

/-- Only pushes, pulls and the instruction that loads it move the stack pointer. -/
theorem cycle_leads_sp (p : Processor) : p.cycle.Leads fun q =>
    q.registers.sp = p.registers.sp ∨ p.usesStack = true ∨
      (p.phase.inside = true ∧ p.opcode.instruction = .implied .txs) := by
  have h := p.cycleOf
  generalize p.cycle = c at h
  cases h with
  | passes hp hs => exact (fetchCycle_leads _).mono fun q hq => .inl (by rw [hq.registers])
  | begins kind hp hs hd =>
    exact (interruptCycle_leads _ kind 0).mono fun q hq => .inl (hq.stack.resolve_right (by decide))
  | fetches hp hs hd => exact (fetchCycle_leads _).mono fun q hq => .inl (by rw [hq.registers]; rfl)
  | resets hp hr =>
    exact (interruptCycle_leads _ .reset 0).mono fun q hq => .inl (hq.stack.resolve_right (by decide))
  | waits hp hr => exact .inl rfl
  | interrupt kind step hp =>
    refine (p.interruptCycle_leads kind step).mono fun q hq => hq.stack.imp_right fun hs => .inl ?_
    simp only [usesStack, hp, hs.1, hs.2, decide_true, Bool.and_self]
  | inside hi =>
    refine (cycle_inside_leads hi).mono fun q hq => ?_
    rcases hq.stack with hs | hs | hs
    · exact .inl hs
    · exact .inr (.inl hs)
    · exact .inr (.inr ⟨hi, hs⟩)

/-! ## One access to a tick

  The processor is handed a byte or hands one out, once in every tick.  Where it has nothing to do it
  reads a byte and lets it go. -/

theorem stackTop_toNat (p : Processor) : p.stackTop.toNat = 0x0100 + p.registers.sp.toNat :=
  stackAddress_toNat p.registers.sp

/-- What the ticks of a processor do to the bus and to what the processor counts. -/
structure OneAccess (p : Processor) : Prop where
  /-- The tick comes to its end after two turns at the latest, and does what they do. -/
  ends : ∀ {β : Type} [Bus β] (bus : β) (n : Nat), (turns (n + 2) p.counted).run bus =
    (some ((p.tick bus).1, (p.tick bus).2.1), (p.tick bus).2.2)
  /-- It makes one access, of the kind that it answers with.  A push or a pull is made in page 1, and
      every write is a push or goes to the operand of an instruction. -/
  one : ¬ (p.isHalted = true ∧ p.resetLatch = false) →
    ∀ {β : Type} [Bus β] (bus : β), ∃ access : Access,
      (∀ n, (turns (n + 2) p.counted).accesses bus = [access]) ∧
      (∀ log, (p.tick (⟨bus, log⟩ : Recorded β)).2.2.accesses = access :: log) ∧
      access.kind = (p.tick bus).1 ∧
      (p.usesStack = true → 0x0100 ≤ access.addr.toNat ∧ access.addr.toNat ≤ 0x01FF) ∧
      (access.kind = .write →
        p.usesStack = true ∨ p.opcode.instruction.writesOperand = true)
  /-- Where the processor waits for a reset there is none. -/
  none : p.isHalted = true → p.resetLatch = false →
    ∀ {β : Type} [Bus β] (bus : β), (∀ n, (turns (n + 2) p.counted).accesses bus = []) ∧
      p.tick bus = (.read, p.counted, bus)
  cycles : ∀ {β : Type} [Bus β] (bus : β), (p.tick bus).2.1.cycles = p.cycles + 1
  /-- The stack pointer is moved by pushes, by pulls and by the instruction that loads it. -/
  stack : ∀ {β : Type} [Bus β] (bus : β), (p.tick bus).2.1.registers.sp = p.registers.sp ∨
    p.usesStack = true ∨ (p.phase.inside = true ∧ p.opcode.instruction = .implied .txs)
  marked : p.registers.status.get .unused = true
  /-- An instruction that halts is never in course, not even between two turns. -/
  runs : p.phase.inside = true → p.opcode.instruction ≠ .hlt
  onward : ∀ {β : Type} [Bus β] (bus : β) (q : Processor), (p.counted.turn.run bus).1 = .onward q →
    q.phase.inside = true → q.opcode.instruction ≠ .hlt

/-- A turn that hands on inside an instruction leaves the opcode as it is. -/
theorem turn_onward_opcode {bus : β} (h : (p.turn.run bus).1 = .onward q) (hq : q.phase.inside = true) :
    p.phase.inside = true ∧ q.opcode = p.opcode := by
  cases hp : p.phase with
  | fetch =>
    unfold turn at h
    rw [hp] at h
    dsimp only at h
    split at h
    · cases h
      cases hq
    · exact absurd h (Cycle.turn_ended _ bus q)
  | halted =>
    unfold turn at h
    rw [hp] at h
    dsimp only at h
    split at h
    · cases h
      cases hq
    · cases h
  | interrupt kind step =>
    rw [turn_interrupt hp] at h
    exact absurd h (Cycle.turn_ended _ bus q)
  | operand step =>
    have found : ∀ p' : Processor, p'.operandFound.opcode = p'.opcode := by
      intro p'
      obtain ⟨phase, -, he⟩ := operandFound_eq p'
      rw [he]
    unfold turn at h
    rw [hp] at h
    dsimp only at h
    split at h
    · cases h
      exact ⟨rfl, found p⟩
    · cases h
      exact ⟨rfl, found p⟩
    · cases h
      exact ⟨rfl, found p⟩
    · cases h
      exact ⟨rfl, found { p.advancePc with operand := .immediate _ }⟩
    · exact absurd h (Cycle.turn_ended _ bus q)
  | dummyRead =>
    simp only [turn, hp] at h
    exact absurd h (Cycle.turn_ended _ bus q)
  | execute step =>
    unfold turn at h
    rw [hp] at h
    dsimp only at h
    split at h
    · split at h
      · cases h
      · exact absurd h (Cycle.turn_ended _ bus q)
    · cases h
      cases hq
    · exact absurd h (Cycle.turn_ended _ bus q)

theorem script_run (p : Processor) (bus : β) : p.counted.cycle.script.run bus =
    (some ((p.tick bus).1, (p.tick bus).2.1), (p.tick bus).2.2) := by
  cases hc : p.counted.cycle with
  | read addr next => rw [tick_of_read hc]; rfl
  | write addr data next => rw [tick_of_write hc]; rfl
  | idle next => rw [tick_of_idle hc]; rfl

/-- A cycle that makes an access makes one, on a bus that records it as well. -/
theorem script_access {P : CycleKind → UInt16 → Prop} (h : p.counted.cycle.Makes P) (bus : β) :
    ∃ access : Access, p.counted.cycle.script.accesses bus = [access] ∧
      (∀ log, (p.tick (⟨bus, log⟩ : Recorded β)).2.2.accesses = access :: log) ∧
      access.kind = (p.tick bus).1 ∧ P access.kind access.addr := by
  cases hc : p.counted.cycle with
  | read addr next =>
    rw [hc] at h
    refine ⟨⟨.read, addr, (Bus.read bus addr).1⟩, rfl, fun log => ?_, ?_, h⟩
    · rw [tick_of_read hc]; rfl
    · rw [tick_of_read hc]
  | write addr data next =>
    rw [hc] at h
    refine ⟨⟨.write, addr, data⟩, rfl, fun log => ?_, ?_, h⟩
    · rw [tick_of_write hc]; rfl
    · rw [tick_of_write hc]
  | idle next =>
    rw [hc] at h
    cases h

theorem one_access (h : Reachable p) : OneAccess p where
  ends bus n := by rw [h.coherent.counted.turns_eq, script_run]
  one hw := by
    intro β _ bus
    obtain ⟨access, ha, hl, hk, hm⟩ := script_access (h.coherent.counted.cycle_makes hw) bus
    refine ⟨access, fun n => ?_, hl, hk, fun hs => ?_, hm.write⟩
    · rw [h.coherent.counted.turns_eq, ha]
    · have hsp := p.registers.sp.toNat_lt
      have htop : access.addr = p.stackTop := hm.stack hs
      rw [htop, stackTop_toNat]
      omega
  none hh hr := by
    intro β _ bus
    have hp : p.phase = .halted := eq_of_beq hh
    refine ⟨fun n => ?_, tick_waiting hp hr bus⟩
    rw [h.coherent.counted.turns_eq, cycle_waiting (p := p.counted) hp hr]
    rfl
  cycles bus := (p.tick_ticked bus).cycles
  stack bus := tick_of_leads p.counted.cycle_leads_sp bus
  marked := h.coherent.marked
  runs := h.coherent.runs
  onward bus q ho hq := by
    obtain ⟨hi, hop⟩ := turn_onward_opcode ho hq
    rw [hop]
    exact h.coherent.runs hi

/-- A processor that halted. -/
theorem one_access_halted :
    Reachable (new.tick (Memory.filled 0x02)).2.1 ∧
      (new.tick (Memory.filled 0x02)).2.1.isHalted = true ∧
      OneAccess (new.tick (Memory.filled 0x02)).2.1 :=
  ⟨Reachable.new.tick (Memory.filled 0x02), by decide, one_access (Reachable.new.tick (Memory.filled 0x02))⟩

end Processor

end Famicom
