/-
  How far a processor is from the next boundary.

  Nothing is asked of the processor: it may have been put into any phase, with any opcode.

  1. **Cycles left** (`Phase.left`): a bound that the phase alone gives.  An interrupt sequence has seven
     steps and an execution six; four cycles find an operand at most, and one may go by before the
     execution.  A boundary has none left, but it is as far from the next one as a phase can be
     (`Phase.ahead`).
  2. **Goals** (`operandCycle_goes`, `executeCycle_goes`): each step of an operand and of an execution leads
     to the step after it, to a later phase, or to a boundary.  So every cycle leaves fewer cycles than
     there were ahead (`cycle_left`).
  3. **Reads for certain** (`Phase.readsNext`): at a boundary, in the first steps of a sequence and
     wherever an opcode has just been read, the next cycle does not write (`cycle_opens`).
  4. **Writes** (`cycle_writes`): what is not written to the stack is written by the last cycle of an
     instruction, or is a byte that an instruction has read and writes back before it changes it
     (`WritesBack`).

  Main statement: all of this of one tick (`tick_left`, `tick_opens`, `cycle_writes`).
-/
import Famicom.Proofs.Processor.Turns

namespace Famicom

/-! ## Phases -/

namespace Phase

/-- A bound on the cycles up to the next boundary. -/
def left : Phase → Nat
  | .fetch | .halted => 0
  | .interrupt _ step => 7 - min step 6
  | .operand step => 11 - min step 3
  | .dummyRead => 7
  | .execute step => 6 - min step 5

/-- A bound on the cycles up to a boundary that is still to come. -/
def ahead (phase : Phase) : Nat := if phase.left = 0 then 12 else phase.left

@[simp] theorem left_interrupt (kind : Interrupt) (step : Nat) :
    (interrupt kind step).left = 7 - min step 6 := rfl

@[simp] theorem left_operand (step : Nat) : (operand step).left = 11 - min step 3 := rfl

@[simp] theorem left_execute (step : Nat) : (execute step).left = 6 - min step 5 := rfl

/-- No instruction or interrupt has more than eleven cycles left. -/
theorem left_le (phase : Phase) : phase.left ≤ 11 := by
  cases phase with
  | interrupt kind step => rw [left_interrupt]; omega
  | operand step => rw [left_operand]; omega
  | execute step => rw [left_execute]; omega
  | fetch | halted | dummyRead => decide

/-- Only a boundary has none left. -/
theorem left_eq_zero_iff {phase : Phase} : phase.left = 0 ↔ phase = .fetch ∨ phase = .halted := by
  cases phase with
  | interrupt kind step => simp only [left_interrupt, reduceCtorEq, or_self, iff_false]; omega
  | operand step => simp only [left_operand, reduceCtorEq, or_self, iff_false]; omega
  | execute step => simp only [left_execute, reduceCtorEq, or_self, iff_false]; omega
  | fetch | halted | dummyRead => decide

theorem ahead_of_pos {phase : Phase} (h : 0 < phase.left) : phase.ahead = phase.left := if_neg (by omega)

/-- At a boundary more is ahead than any phase has left. -/
theorem left_lt_ahead_of_boundary {phase : Phase} (h : phase.left = 0) (next : Phase) :
    next.left < phase.ahead := by
  have := next.left_le
  rw [ahead, if_pos h]
  omega

end Phase

/-- Whether the instruction only writes. -/
def Instruction.isStore : Instruction → Bool
  | .store _ => true
  | _ => false

/-- Whether it is certain that the next cycle does not write. -/
def Phase.readsNext (opcode : Opcode) : Phase → Bool
  | .fetch | .halted | .dummyRead => true
  | .interrupt _ step => step ≤ 1
  | .operand _ => opcode.mode.takesCycles || !opcode.instruction.isStore
  | .execute step => step = 0 && !opcode.instruction.isStore

/-- What holds of the byte that a cycle writes, and of the processor after it; of a cycle that does not
    write, anything holds. -/
def Cycle.Writes (P : UInt16 → Processor → Prop) : Cycle → Prop
  | .write addr _ next => P addr next
  | .read _ _ | .idle _ => True

theorem Cycle.Writes.mono {P Q : UInt16 → Processor → Prop} (h : ∀ addr q, P addr q → Q addr q) :
    ∀ {c : Cycle}, c.Writes P → c.Writes Q
  | .write _ _ _, hc => h _ _ hc
  | .read _ _, _ | .idle _, _ => trivial

/-- What holds of every access holds of one that writes. -/
theorem Cycle.Makes.writes {P : CycleKind → UInt16 → Prop} :
    ∀ {c : Cycle}, c.Makes P → c.Writes fun addr _ => P .write addr
  | .write _ _ _, h => h
  | .read _ _, _ | .idle _, _ => trivial

namespace Processor

variable {p q : Processor} {β : Type} [Bus β]

/-- A processor is at a boundary if nothing is left. -/
theorem atBoundary_iff : p.atBoundary = true ↔ p.phase.left = 0 := by
  rw [Phase.left_eq_zero_iff]
  unfold atBoundary
  cases p.phase <;> simp

/-! ## Where a cycle leads -/

/-- After a step of finding the operand: it was the last of at most four, or the next one follows. -/
def AfterOperand (step : Nat) (p : Processor) : Prop :=
  p.phase = .fetch ∨ p.phase = .dummyRead ∨ p.phase = .execute 0 ∨
    (p.phase = .operand (step + 1) ∧ step < 3)

/-- With the operand found, less is left. -/
theorem operandFound_goes (p : Processor) (step : Nat) : AfterOperand step p.operandFound := by
  obtain ⟨phase, hphase, hp⟩ := operandFound_eq p
  rw [hp]
  rcases hphase with rfl | rfl | rfl
  · exact .inl rfl
  · exact .inr (.inl rfl)
  · exact .inr (.inr (.inl rfl))

/-- With the index added too. -/
theorem addIndex_goes (p : Processor) {step : Nat} (h : step < 3) (index : UInt8) :
    AfterOperand step (p.addIndex step index) := by
  unfold addIndex
  dsimp only
  split
  · exact .inr (.inr (.inr ⟨rfl, h⟩))
  · exact operandFound_goes _ step

/-- Every step towards the operand leaves less. -/
theorem operandCycle_goes (p : Processor) (step : Nat) :
    (p.operandCycle step).Leads (AfterOperand step) := by
  obtain ⟨registers, cycles, phase, polls, ⟨i, mode⟩, operand, pointer, data, vector, _, _, _⟩ := p
  cases mode with
  | implied | accumulator | indirect | immediate => exact operandFound_goes _ step
  | relative | zeroPage => exact fun v => operandFound_goes _ step
  | zeroPageX | zeroPageY | absolute =>
    match step with
    | 0 => exact fun v => .inr (.inr (.inr ⟨rfl, by decide⟩))
    | n + 1 => exact fun v => operandFound_goes _ (n + 1)
  | absoluteX | absoluteY =>
    match step with
    | 0 => exact fun v => .inr (.inr (.inr ⟨rfl, by decide⟩))
    | 1 => exact fun v => addIndex_goes _ (by decide) _
    | n + 2 => exact fun v => operandFound_goes _ (n + 2)
  | indexedIndirect =>
    match step with
    | 0 | 1 | 2 => exact fun v => .inr (.inr (.inr ⟨rfl, by decide⟩))
    | n + 3 => exact fun v => operandFound_goes _ (n + 3)
  | indirectIndexed =>
    match step with
    | 0 | 1 => exact fun v => .inr (.inr (.inr ⟨rfl, by decide⟩))
    | 2 => exact fun v => addIndex_goes _ (by decide) _
    | n + 3 => exact fun v => operandFound_goes _ (n + 3)

/-- After a step of executing: it was the last of at most six, or the next one follows. -/
def AfterExecute (step : Nat) (p : Processor) : Prop :=
  p.phase = .fetch ∨ p.phase = .halted ∨ (p.phase = .execute (step + 1) ∧ step < 5)

/-- So does every step of an instruction that modifies memory. -/
theorem modifyCycle_goes (p : Processor) (o : ModifyOp) (step : Nat) :
    (p.modifyCycle o step).Leads (AfterExecute step) := by
  match step with
  | 0 => exact fun v => .inr (.inr ⟨rfl, by decide⟩)
  | 1 => exact .inr (.inr ⟨rfl, by decide⟩)
  | _ + 2 => exact .inl rfl

/-- So does every step of any execution. -/
theorem executeCycle_goes (p : Processor) (step : Nat) :
    (p.executeCycle step).Leads (AfterExecute step) := by
  obtain ⟨registers, cycles, phase, polls, ⟨i, mode⟩, operand, pointer, data, vector, _, _, _⟩ := p
  cases i with
  | read o | implied o => exact fun v => .inl rfl
  | store o => exact .inl rfl
  | hlt => exact .inr (.inl rfl)
  | modify o =>
    cases mode with
    | accumulator => exact fun v => .inl rfl
    | _ => exact modifyCycle_goes _ o step
  | branch c =>
    match step with
    | 0 =>
      intro v
      dsimp only
      split
      · exact .inr (.inr ⟨rfl, by decide⟩)
      · exact .inl rfl
    | _ + 1 => exact fun v => .inl rfl
  | jmp =>
    match step with
    | 0 => exact fun v => .inr (.inr ⟨rfl, by decide⟩)
    | 1 | 2 =>
      cases mode with
      | indirect => exact fun v => .inr (.inr ⟨rfl, by decide⟩)
      | _ => exact fun v => .inl rfl
    | _ + 3 => cases mode <;> exact fun v => .inl rfl
  | jsr =>
    match step with
    | 0 => exact fun v => .inr (.inr ⟨rfl, by decide⟩)
    | 1 => exact .inr (.inr ⟨rfl, by decide⟩)
    | _ + 2 => exact .inl rfl
  | rts | rti =>
    match step with
    | 0 | 1 | 2 | 3 => exact fun v => .inr (.inr ⟨rfl, by decide⟩)
    | _ + 4 => exact fun v => .inl rfl
  | pha | php =>
    match step with
    | 0 => exact fun v => .inr (.inr ⟨rfl, by decide⟩)
    | _ + 1 => exact .inl rfl
  | pla | plp =>
    match step with
    | 0 | 1 => exact fun v => .inr (.inr ⟨rfl, by decide⟩)
    | _ + 2 => exact fun v => .inl rfl
  | brk =>
    match step with
    | 0 | 4 => exact fun v => .inr (.inr ⟨rfl, by decide⟩)
    | 1 | 2 | 3 => exact .inr (.inr ⟨rfl, by decide⟩)
    | _ + 5 => exact fun v => .inl rfl

theorem immediateCycle_goes (p : Processor) : p.immediateCycle.Leads fun q => q.phase = .fetch := by
  intro v
  dsimp only
  split
  · rfl
  · rfl

/-- Fewer cycles are left after executing a step. -/
theorem executeCycle_left (p : Processor) (step : Nat) :
    (p.executeCycle step).Leads fun q => q.phase.left < (Phase.execute step).left := by
  refine (p.executeCycle_goes step).mono fun q hq => ?_
  rw [Phase.left_execute]
  rcases hq with hq | hq | ⟨hq, hstep⟩
  · rw [hq, Phase.left]
    omega
  · rw [hq, Phase.left]
    omega
  · rw [hq, Phase.left_execute]
    omega

/-- In the course of an instruction every cycle leaves fewer. -/
theorem cycle_inside_left (h : p.phase.inside = true) :
    p.cycle.Leads fun q => q.phase.left < p.phase.left := by
  have hw := workOf h
  generalize p.cycle = c at hw
  cases hw with
  | bare step hp _ =>
    refine (p.executeCycle_left 0).mono fun q hq => ?_
    rw [hp, Phase.left_operand]
    rw [Phase.left_execute] at hq
    omega
  | immediate step hp _ =>
    refine p.immediateCycle_goes.mono fun q hq => ?_
    rw [hp, hq, Phase.left_operand, Phase.left]
    omega
  | operand step hp _ =>
    refine (p.operandCycle_goes step).mono fun q hq => ?_
    rw [hp, Phase.left_operand]
    rcases hq with hq | hq | hq | ⟨hq, hstep⟩
    · rw [hq, Phase.left]
      omega
    · rw [hq, Phase.left]
      omega
    · rw [hq, Phase.left_execute]
      omega
    · rw [hq, Phase.left_operand]
      omega
  | dummyRead hp =>
    intro v
    rw [hp]
    exact (by decide : (Phase.execute 0).left < Phase.dummyRead.left)
  | execute step hp =>
    rw [hp]
    exact p.executeCycle_left step

/-- Every cycle leaves fewer cycles than were ahead. -/
theorem cycle_left (p : Processor) : p.cycle.Leads fun q => q.phase.left < p.phase.ahead := by
  have hc := p.cycleOf
  generalize p.cycle = c at hc
  cases hc with
  | passes hp _ =>
    rw [hp]
    exact fun v => Phase.left_lt_ahead_of_boundary rfl _
  | begins kind hp _ _ =>
    rw [hp]
    exact (interruptCycle_leads _ kind 0).mono fun q _ => Phase.left_lt_ahead_of_boundary rfl _
  | fetches hp _ _ =>
    rw [hp]
    exact fun v => Phase.left_lt_ahead_of_boundary rfl _
  | resets hp _ =>
    rw [hp]
    exact (interruptCycle_leads _ .reset 0).mono fun q _ => Phase.left_lt_ahead_of_boundary rfl _
  | waits hp _ => exact Phase.left_lt_ahead_of_boundary (by rw [hp]; rfl) _
  | interrupt kind step hp =>
    have hpos : 0 < p.phase.left := by
      rw [hp, Phase.left_interrupt]
      omega
    refine (p.interruptCycle_leads kind step).mono fun q hq => ?_
    rw [Phase.ahead_of_pos hpos, hp, hq.phase, Phase.left_interrupt]
    split
    · rw [Phase.left_interrupt]
      omega
    · rw [Phase.left]
      omega
  | inside hi =>
    have hpos : 0 < p.phase.left := by
      rw [Nat.pos_iff_ne_zero, Ne, Phase.left_eq_zero_iff]
      rintro (hp | hp)
      · rw [hp] at hi
        cases hi
      · rw [hp] at hi
        cases hi
    rw [Phase.ahead_of_pos hpos]
    exact cycle_inside_left hi

/-! ## Reads for certain -/

theorem phaseAfter_cases (i : Instruction) : phaseAfter i = .halted ∨
    (phaseAfter i = .execute 0 ∧ i.isStore = false) ∨ phaseAfter i = .operand 0 := by
  cases i with
  | hlt => exact .inl rfl
  | jmp => exact .inr (.inl ⟨rfl, rfl⟩)
  | _ => exact .inr (.inr rfl)

/-- No opcode stores without finding an operand first. -/
theorem decode_store (opcode : UInt8) :
    ((decode opcode).mode.takesCycles || !(decode opcode).instruction.isStore) = true := by
  have hr := decode_regular opcode
  rw [Opcode.Regular] at hr
  cases hi : (decode opcode).instruction with
  | store o =>
    rw [hi] at hr
    cases hm : (decode opcode).mode with
    | implied | accumulator | indirect | immediate =>
      rw [hm] at hr
      cases hr
    | _ => rfl
  | _ => exact Bool.or_true _

/-- After a fetch the processor reads next, or halts. -/
theorem Opens.readsNext (h : Opens p q) : q.phase.readsNext q.opcode = true := by
  obtain ⟨v, hv⟩ := h.opcode
  rw [h.phase]
  rcases phaseAfter_cases q.opcode.instruction with hp | ⟨hp, hi⟩ | hp
  · rw [hp]
    rfl
  · rw [hp, Phase.readsNext, hi]
    rfl
  · rw [hp, hv]
    exact decode_store v

/-- What a boundary is followed by begins with a read. -/
theorem cycle_opens (hb : p.phase.left = 0) : p.cycle.Leads fun q => q.phase.readsNext q.opcode = true := by
  have hc := p.cycleOf
  generalize p.cycle = c at hc
  cases hc with
  | passes _ _ => exact (fetchCycle_leads _).mono fun _ h => h.readsNext
  | begins kind _ _ _ =>
    refine (interruptCycle_leads _ kind 0).mono fun q h => ?_
    rw [h.phase]
    rfl
  | fetches _ _ _ => exact (fetchCycle_leads _).mono fun _ h => h.readsNext
  | resets _ _ =>
    refine (interruptCycle_leads _ .reset 0).mono fun q h => ?_
    rw [h.phase]
    rfl
  | waits hp _ =>
    show p.phase.readsNext p.opcode = true
    rw [hp]
    rfl
  | interrupt kind step hp =>
    rw [hp, Phase.left_interrupt] at hb
    omega
  | inside hi =>
    rcases Phase.left_eq_zero_iff.mp hb with hp | hp
    · rw [hp] at hi
      cases hi
    · rw [hp] at hi
      cases hi

/-! ## Writes -/

/-- An instruction that changes memory is about to write the byte it has read back to this address. -/
def WritesBack (p : Processor) (addr : UInt16) : Prop :=
  p.phase = .execute 1 ∧ (∃ op, p.opcode.instruction = .modify op) ∧ p.opcode.mode ≠ .accumulator ∧
    p.operand.address = addr

/-- Finding an operand writes nothing. -/
theorem operandCycle_writes (p : Processor) (step : Nat) :
    (p.operandCycle step).Writes fun _ _ => False := by
  obtain ⟨registers, cycles, phase, polls, ⟨i, mode⟩, operand, pointer, data, vector, _, _, _⟩ := p
  cases mode with
  | implied | accumulator | indirect | immediate | relative | zeroPage => trivial
  | zeroPageX | zeroPageY | absolute =>
    match step with
    | 0 | _ + 1 => trivial
  | absoluteX | absoluteY =>
    match step with
    | 0 | 1 | _ + 2 => trivial
  | indexedIndirect | indirectIndexed =>
    match step with
    | 0 | 1 | 2 | _ + 3 => trivial

/-- Of the first steps of an execution only that of a store writes. -/
theorem executeCycle_writes_zero (h : p.opcode.instruction.isStore = false) :
    (p.executeCycle 0).Writes fun _ _ => False := by
  obtain ⟨registers, cycles, phase, polls, ⟨i, mode⟩, operand, pointer, data, vector, _, _, _⟩ := p
  cases i with
  | store o => cases h
  | modify o => cases mode <;> trivial
  | _ => trivial

/-- A step of changing memory writes back what was read, or ends the instruction. -/
theorem modifyCycle_writes (p : Processor) (o : ModifyOp) (step : Nat) :
    (p.modifyCycle o step).Writes fun addr q =>
      q.phase = .fetch ∨ (step = 1 ∧ p.operand.address = addr) := by
  match step with
  | 0 => trivial
  | 1 => exact .inr ⟨rfl, rfl⟩
  | _ + 2 => exact .inl rfl

/-- A step of an execution writes to the stack, or ends the instruction, or writes a byte back. -/
theorem executeCycle_writes (p : Processor) (step : Nat) : (p.executeCycle step).Writes fun addr q =>
    addr = p.stackTop ∨ q.phase = .fetch ∨ (step = 1 ∧ (∃ op, p.opcode.instruction = .modify op) ∧
      p.opcode.mode ≠ .accumulator ∧ p.operand.address = addr) := by
  have hstack (hi : p.opcode.instruction ≠ .hlt) (hw : p.opcode.instruction.writesOperand = false) :
      (p.executeCycle step).Writes fun addr _ => addr = p.stackTop := by
    refine (p.executeCycle_makes step hi).writes.mono fun addr q h => h.stack ?_
    refine (h.write rfl).resolve_right ?_
    rw [hw]
    exact Bool.false_ne_true
  cases hi : p.opcode.instruction with
  | store o =>
    unfold executeCycle
    rw [hi]
    exact .inr (.inl rfl)
  | modify o =>
    unfold executeCycle
    rw [hi]
    cases hm : p.opcode.mode with
    | accumulator => trivial
    | _ =>
      refine (p.modifyCycle_writes o step).mono fun addr q h => .inr (h.imp id ?_)
      rintro ⟨hstep, haddr⟩
      exact ⟨hstep, ⟨o, rfl⟩, nofun, haddr⟩
  | hlt =>
    unfold executeCycle
    rw [hi]
    trivial
  | _ => exact (hstack (by rw [hi]; nofun) (by rw [hi]; rfl)).mono fun addr q h => .inl h

/-- A step of an interrupt sequence writes to the stack, and not before the third. -/
theorem interruptCycle_writes (p : Processor) (kind : Interrupt) (step : Nat) :
    (p.interruptCycle kind step).Writes fun addr _ => 1 < step ∧ addr = p.stackTop := by
  match step with
  | 0 | 1 | 5 | _ + 6 => trivial
  | 2 | 3 | 4 =>
    cases kind with
    | reset => trivial
    | nmi | irq => exact ⟨by decide, rfl⟩

/-- No write comes where a read is certain.  Any other goes to the stack, or is the last of its
    instruction, or writes a byte back. -/
theorem cycle_writes (p : Processor) : p.cycle.Writes fun addr q =>
    p.phase.readsNext p.opcode = false ∧ (addr = p.stackTop ∨ q.phase = .fetch ∨ p.WritesBack addr) := by
  have hc := p.cycleOf
  generalize p.cycle = c at hc
  cases hc with
  | passes _ _ => trivial
  | begins kind _ _ _ => trivial
  | fetches _ _ _ => trivial
  | resets _ _ => trivial
  | waits _ _ => trivial
  | interrupt kind step hp =>
    refine (p.interruptCycle_writes kind step).mono fun addr q ⟨hstep, haddr⟩ => ⟨?_, .inl haddr⟩
    rw [hp]
    exact decide_eq_false (by omega)
  | inside hi =>
    have hw := workOf hi
    generalize p.cycle = c at hw
    cases hw with
    | bare step hp hm =>
      -- without cycles for an operand this is the first step of the execution already
      cases hs : p.opcode.instruction.isStore with
      | false => exact (executeCycle_writes_zero hs).mono fun _ _ h => h.elim
      | true =>
        have hmode : p.opcode.mode.takesCycles = false := by
          rcases hm with hm | hm | hm <;> rw [hm] <;> rfl
        refine (p.executeCycle_writes 0).mono fun addr q h => ⟨?_, ?_⟩
        · rw [hp, Phase.readsNext, hs, hmode]
          rfl
        · exact h.imp id fun h => h.imp id fun h => absurd h.1 nofun
    | immediate step hp _ => trivial
    | operand step hp _ => exact (p.operandCycle_writes step).mono fun _ _ h => h.elim
    | dummyRead hp => trivial
    | execute step hp =>
      by_cases hr : step = 0 ∧ p.opcode.instruction.isStore = false
      · obtain ⟨rfl, hs⟩ := hr
        exact (executeCycle_writes_zero hs).mono fun _ _ h => h.elim
      · refine (p.executeCycle_writes step).mono fun addr q h => ⟨?_, ?_⟩
        · rw [hp, Phase.readsNext]
          simpa using hr
        · refine h.imp id fun h => h.imp id ?_
          rintro ⟨rfl, hmodify⟩
          exact ⟨hp, hmodify⟩

/-! ## A tick -/

/-- A tick leaves fewer cycles than were ahead. -/
theorem tick_left (p : Processor) (bus : β) : (p.tick bus).2.1.phase.left < p.phase.ahead :=
  tick_of_leads (P := fun q => q.phase.left < p.phase.ahead) p.counted.cycle_left bus

/-- After a boundary the processor reads next. -/
theorem tick_opens (hb : p.phase.left = 0) (bus : β) :
    (p.tick bus).2.1.phase.readsNext (p.tick bus).2.1.opcode = true :=
  tick_of_leads (P := fun q => q.phase.readsNext q.opcode = true) (cycle_opens (p := p.counted) hb) bus

end Processor

end Famicom
