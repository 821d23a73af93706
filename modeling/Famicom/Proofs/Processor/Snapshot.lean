/-
  What a snapshot loses.

  A snapshot has the registers and the cycle count; a processor has more.  Which of the rest matters for
  what comes depends on where the processor stands.

  1. **Live parts** (`Phase.inside`, `usesPointer`, `usesData`, `usesVector`): where the opcode, the
     operand and the bytes kept from one cycle to the next will still be looked at.
  2. **Agreement** (`Agree`): two processors that differ in dead parts only.  Every cycle keeps it, with
     one lemma to each kind of work (`cycle_alike`), and so does every run (`Agree.run`).
  3. **Loading** (`restore_alike_iff`): a snapshot taken at a boundary, with nothing latched, brings
     back a processor that behaves like the first exactly if that was not halted and was about to look at the
     latches.  If it was about to pass them over, only a request before the next tick can tell.
-/
import Famicom.Proofs.Processor.Latches

namespace Famicom

/-- The steps of an instruction in which a byte kept from an earlier one is held. -/
def Instruction.holdsData : Instruction → Nat → Bool
  | .modify _, step | .jmp, step => 1 ≤ step
  | .rts, step => 3 ≤ step
  | .rti, step => 4 ≤ step
  | .brk, step => 5 ≤ step
  | _, _ => false

/-- The steps of a software break in which its vector is held. -/
def Instruction.holdsVector : Instruction → Nat → Bool
  | .brk, step => 4 ≤ step
  | _, _ => false

theorem Instruction.holdsData_zero (i : Instruction) : i.holdsData 0 = false := by cases i <;> rfl

theorem Instruction.holdsVector_zero (i : Instruction) : i.holdsVector 0 = false := by
  cases i <;> rfl

/-- The modes that keep a zero-page address from one cycle to the next. -/
def AddressingMode.holdsPointer : AddressingMode → Bool
  | zeroPageX | zeroPageY | indexedIndirect | indirectIndexed => true
  | _ => false

namespace Processor

variable {β : Type} [Bus β] {p q : Processor}

/-! ## Live parts

  Pointer, byte and vector are held by some phases of some instructions only.  Where a part is not
  held, the next cycle to use it writes it first. -/

/-- The zero-page address is still to be used. -/
def usesPointer (p : Processor) : Bool :=
  match p.phase with
  | .operand (_ + 1) => p.opcode.mode.holdsPointer
  | _ => false

/-- The byte kept from an earlier cycle is still to be used. -/
def usesData (p : Processor) : Bool :=
  match p.phase with
  | .execute step => p.opcode.instruction.holdsData step
  | .interrupt _ step => 6 ≤ step
  | _ => false

/-- The vector of a software break is still to be used. -/
def usesVector (p : Processor) : Bool :=
  match p.phase with
  | .execute step => p.opcode.instruction.holdsVector step
  | _ => false

/-- Two processors that differ only in what will not be looked at again. -/
structure Agree (p q : Processor) : Prop where
  registers : q.registers = p.registers
  cycles : q.cycles = p.cycles
  phase : q.phase = p.phase
  polls : q.polls = p.polls
  latches : q.latches = p.latches
  opcode : p.phase.inside = true → q.opcode = p.opcode
  operand : p.phase.inside = true → q.operand = p.operand
  pointer : p.usesPointer = true → q.pointer = p.pointer
  data : p.usesData = true → q.data = p.data
  vector : p.usesVector = true → q.vector = p.vector

/-- The opcode and the operand are the same; of the rest only what is live has to be. -/
theorem Agree.scratch {pointer data : UInt8} {vector : UInt16}
    (hp : p.usesPointer = true → pointer = p.pointer) (hd : p.usesData = true → data = p.data)
    (hv : p.usesVector = true → vector = p.vector) :
    Agree p { p with pointer, data, vector } :=
  ⟨rfl, rfl, rfl, rfl, rfl, fun _ => rfl, fun _ => rfl, hp, hd, hv⟩

/-- Nothing is held where a phase begins. -/
theorem Agree.fresh {pointer data : UInt8} {vector : UInt16}
    (h : p.phase = .fetch ∨ p.phase = .dummyRead ∨ p.phase = .execute 0 ∨ p.phase = .operand 0 ∨
      p.phase = .halted) : Agree p { p with pointer, data, vector } := by
  refine .scratch (fun hp => ?_) (fun hd => ?_) (fun hv => ?_)
  · rcases h with h | h | h | h | h <;> simp [usesPointer, h] at hp
  · rcases h with h | h | h | h | h <;> simp [usesData, h, Instruction.holdsData_zero] at hd
  · rcases h with h | h | h | h | h <;> simp [usesVector, h, Instruction.holdsVector_zero] at hv

end Processor

/-- Two cycles make the same access, and what comes after them is related. -/
def Cycle.Alike (R : Processor → Processor → Prop) : Cycle → Cycle → Prop
  | .read addr next, .read addr' next' => addr' = addr ∧ ∀ v, R (next v) (next' v)
  | .write addr data next, .write addr' data' next' => addr' = addr ∧ data' = data ∧ R next next'
  | .idle next, .idle next' => R next next'
  | _, _ => False

namespace Processor

variable {β : Type} [Bus β] {p q : Processor}

variable {pointer data : UInt8} {vector : UInt16}

/-- A step of an instruction that modifies memory depends on the byte held only where it holds one. -/
theorem modifyCycle_alike {o : ModifyOp} (h : p.opcode.instruction = .modify o) (step : Nat)
    (hd : p.opcode.instruction.holdsData step = true → data = p.data) :
    (p.modifyCycle o step).Alike Agree ({ p with pointer, data, vector }.modifyCycle o step) := by
  obtain ⟨registers, cycles, phase, polls, ⟨i, mode⟩, operand, _, _, _, _, _, _⟩ := p
  obtain rfl : i = .modify o := h
  match step with
  | 0 => exact ⟨rfl, fun v => .scratch nofun (fun _ => rfl) nofun⟩
  | 1 =>
    obtain rfl := hd rfl
    exact ⟨rfl, rfl, .scratch nofun (fun _ => rfl) nofun⟩
  | _ + 2 =>
    obtain rfl := hd rfl
    exact ⟨rfl, rfl, .scratch nofun nofun nofun⟩

/-- A step of the execution depends on what is held only where something is held. -/
theorem executeCycle_alike (p : Processor) (step : Nat)
    (hd : p.opcode.instruction.holdsData step = true → data = p.data)
    (hv : p.opcode.instruction.holdsVector step = true → vector = p.vector) :
    (p.executeCycle step).Alike Agree ({ p with pointer, data, vector }.executeCycle step) := by
  obtain ⟨registers, cycles, phase, polls, ⟨i, mode⟩, operand, _, _, _, _, _, _⟩ := p
  cases i with
  | read o => exact ⟨rfl, fun v => .scratch nofun nofun nofun⟩
  | modify o =>
    cases mode with
    | accumulator => exact ⟨rfl, fun v => .scratch nofun nofun nofun⟩
    | _ => exact modifyCycle_alike rfl step hd
  | implied o => exact ⟨rfl, fun v => .scratch nofun nofun nofun⟩
  | store o => exact ⟨rfl, rfl, .scratch nofun nofun nofun⟩
  | branch c =>
    match step with
    | 0 =>
      refine ⟨rfl, fun v => ?_⟩
      dsimp only
      split
      · exact .scratch nofun nofun nofun
      · exact .scratch nofun nofun nofun
    | _ + 1 => exact ⟨rfl, fun v => .scratch nofun nofun nofun⟩
  | jmp =>
    match step with
    | 0 => exact ⟨rfl, fun v => .scratch nofun (fun _ => rfl) nofun⟩
    | 1 | 2 =>
      obtain rfl := hd rfl
      cases mode with
      | indirect => exact ⟨rfl, fun v => .scratch nofun (fun _ => rfl) nofun⟩
      | _ => exact ⟨rfl, fun v => .scratch nofun nofun nofun⟩
    | _ + 3 =>
      obtain rfl := hd rfl
      cases mode <;> exact ⟨rfl, fun v => .scratch nofun nofun nofun⟩
  | jsr =>
    match step with
    | 0 => exact ⟨rfl, fun v => .scratch nofun nofun nofun⟩
    | 1 | _ + 2 => exact ⟨rfl, rfl, .scratch nofun nofun nofun⟩
  | rts =>
    match step with
    | 0 | 1 => exact ⟨rfl, fun v => .scratch nofun nofun nofun⟩
    | 2 => exact ⟨rfl, fun v => .scratch nofun (fun _ => rfl) nofun⟩
    | 3 =>
      obtain rfl := hd rfl
      exact ⟨rfl, fun v => .scratch nofun (fun _ => rfl) nofun⟩
    | _ + 4 => exact ⟨rfl, fun v => .scratch nofun nofun nofun⟩
  | rti =>
    match step with
    | 0 | 1 | 2 => exact ⟨rfl, fun v => .scratch nofun nofun nofun⟩
    | 3 => exact ⟨rfl, fun v => .scratch nofun (fun _ => rfl) nofun⟩
    | _ + 4 =>
      obtain rfl := hd (by simp [Instruction.holdsData])
      exact ⟨rfl, fun v => .scratch nofun nofun nofun⟩
  | pha | php =>
    match step with
    | 0 => exact ⟨rfl, fun v => .scratch nofun nofun nofun⟩
    | _ + 1 => exact ⟨rfl, rfl, .scratch nofun nofun nofun⟩
  | pla | plp =>
    match step with
    | 0 | 1 | _ + 2 => exact ⟨rfl, fun v => .scratch nofun nofun nofun⟩
  | brk =>
    match step with
    | 0 => exact ⟨rfl, fun v => .scratch nofun nofun nofun⟩
    | 1 | 2 => exact ⟨rfl, rfl, .scratch nofun nofun nofun⟩
    | 3 => exact ⟨rfl, rfl, .scratch nofun nofun fun _ => rfl⟩
    | 4 =>
      obtain rfl := hv rfl
      exact ⟨rfl, fun v => .scratch nofun (fun _ => rfl) fun _ => rfl⟩
    | _ + 5 =>
      obtain rfl := hv (by simp [Instruction.holdsVector])
      obtain rfl := hd (by simp [Instruction.holdsData])
      exact ⟨rfl, fun v => .scratch nofun nofun nofun⟩
  | hlt => exact .scratch nofun nofun nofun

/-- To have found the operand does not look at what is held. -/
theorem operandFound_scratch (p : Processor) (pointer data : UInt8) (vector : UInt16) :
    { p with pointer, data, vector }.operandFound =
      { p.operandFound with pointer, data, vector } := by
  unfold operandFound
  dsimp only
  split
  · split <;> rfl
  · split <;> rfl

theorem operandFound_agree (p : Processor) :
    Agree p.operandFound { p with pointer, data, vector }.operandFound := by
  rw [operandFound_scratch p pointer data vector]
  obtain ⟨phase, hp, he⟩ := operandFound_eq p
  rw [he]
  exact .fresh (hp.imp_right (Or.imp_right .inl))

/-- An index is added alike if the pointer is, or is not needed any more. -/
theorem addIndex_agree (p : Processor) (step : Nat) (index : UInt8)
    (hp : p.opcode.mode.holdsPointer = true → pointer = p.pointer) :
    Agree (p.addIndex step index) ({ p with pointer, data, vector }.addIndex step index) := by
  unfold addIndex
  dsimp only
  split
  · exact .scratch hp nofun nofun
  · exact operandFound_agree { p with operand := { p.operand with address := _ } }

/-- A step towards the operand depends on the pointer only where one is held. -/
theorem operandCycle_alike (p : Processor) (step : Nat)
    (hp : 0 < step → p.opcode.mode.holdsPointer = true → pointer = p.pointer) :
    (p.operandCycle step).Alike Agree ({ p with pointer, data, vector }.operandCycle step) := by
  obtain ⟨registers, cycles, phase, polls, ⟨i, mode⟩, operand, _, _, _, _, _, _⟩ := p
  cases mode with
  | implied | accumulator | indirect | immediate => exact operandFound_agree _
  | relative | zeroPage => exact ⟨rfl, fun v => operandFound_agree _⟩
  | zeroPageX | zeroPageY =>
    match step with
    | 0 => exact ⟨rfl, fun v => .scratch (fun _ => rfl) nofun nofun⟩
    | _ + 1 =>
      obtain rfl := hp (Nat.succ_pos _) rfl
      exact ⟨rfl, fun v => operandFound_agree _⟩
  | absolute =>
    match step with
    | 0 => exact ⟨rfl, fun v => .scratch nofun nofun nofun⟩
    | _ + 1 => exact ⟨rfl, fun v => operandFound_agree _⟩
  | absoluteX | absoluteY =>
    match step with
    | 0 => exact ⟨rfl, fun v => .scratch nofun nofun nofun⟩
    | 1 => exact ⟨rfl, fun v => addIndex_agree _ 1 _ nofun⟩
    | _ + 2 => exact ⟨rfl, fun v => operandFound_agree _⟩
  | indexedIndirect =>
    match step with
    | 0 => exact ⟨rfl, fun v => .scratch (fun _ => rfl) nofun nofun⟩
    | 1 | 2 =>
      obtain rfl := hp (Nat.succ_pos _) rfl
      exact ⟨rfl, fun v => .scratch (fun _ => rfl) nofun nofun⟩
    | _ + 3 =>
      obtain rfl := hp (Nat.succ_pos _) rfl
      exact ⟨rfl, fun v => operandFound_agree _⟩
  | indirectIndexed =>
    match step with
    | 0 => exact ⟨rfl, fun v => .scratch (fun _ => rfl) nofun nofun⟩
    | 1 =>
      obtain rfl := hp (Nat.succ_pos _) rfl
      exact ⟨rfl, fun v => .scratch (fun _ => rfl) nofun nofun⟩
    | 2 =>
      obtain rfl := hp (Nat.succ_pos _) rfl
      exact ⟨rfl, fun v => addIndex_agree _ 2 _ fun _ => rfl⟩
    | _ + 3 =>
      obtain rfl := hp (Nat.succ_pos _) rfl
      exact ⟨rfl, fun v => operandFound_agree _⟩

theorem immediateCycle_alike (p : Processor) :
    p.immediateCycle.Alike Agree { p with pointer, data, vector }.immediateCycle := by
  obtain ⟨registers, cycles, phase, polls, ⟨i, mode⟩, operand, _, _, _, _, _, _⟩ := p
  cases i <;> exact ⟨rfl, fun v => .scratch nofun nofun nofun⟩

/-! ## Any cycle -/

/-- In the course of an instruction only the scratch can differ. -/
theorem Agree.eq_scratch (h : Agree p q) (hi : p.phase.inside = true) :
    q = { p with pointer := q.pointer, data := q.data, vector := q.vector } := by
  have hop := h.opcode hi
  have hov := h.operand hi
  obtain ⟨_, _, _, _, _, _, _, _, _, _, _, _⟩ := p
  obtain ⟨_, _, _, _, _, _, _, _, _, _, _, _⟩ := q
  obtain ⟨rfl, rfl, rfl, rfl, hl, -, -, -, -, -⟩ := h
  cases hl
  cases hop
  cases hov
  rfl

theorem Agree.latch (h : Agree p q) (l : Latches) : Agree (p.latch l) (q.latch l) :=
  ⟨h.registers, h.cycles, h.phase, h.polls, rfl, h.opcode, h.operand, h.pointer, h.data, h.vector⟩

/-- Processors that agree have the same interrupt due. -/
theorem Agree.due (h : Agree p q) : q.due = p.due := by
  obtain ⟨_, _, _, _, _, _, _, _, _, _, _, _⟩ := p
  obtain ⟨_, _, _, _, _, _, _, _, _, _, _, _⟩ := q
  obtain ⟨rfl, rfl, rfl, rfl, hl, -, -, -, -, -⟩ := h
  cases hl
  rfl

/-- They fetch alike. -/
theorem Agree.fetchCycle (h : Agree p q) : p.fetchCycle.Alike Agree q.fetchCycle := by
  obtain ⟨_, _, _, _, _, _, _, _, _, _, _, _⟩ := p
  obtain ⟨_, _, _, _, _, _, _, _, _, _, _, _⟩ := q
  obtain ⟨rfl, rfl, rfl, rfl, hl, -, -, -, -, -⟩ := h
  cases hl
  refine ⟨rfl, fun v => ?_⟩
  have hp : ∀ i, phaseAfter i = .execute 0 ∨ phaseAfter i = .operand 0 ∨ phaseAfter i = .halted := by
    intro i
    cases i <;> simp [phaseAfter]
  exact .fresh (.inr (.inr (hp _)))

/-- They go alike through an interrupt's sequence. -/
theorem Agree.interruptCycle (h : Agree p q) (kind : Interrupt) (step : Nat)
    (hd : 6 ≤ step → q.data = p.data) :
    (p.interruptCycle kind step).Alike Agree (q.interruptCycle kind step) := by
  obtain ⟨_, _, _, _, _, _, _, _, _, _, _, _⟩ := p
  obtain ⟨_, _, _, _, _, _, _, _, _, _, _, _⟩ := q
  obtain ⟨rfl, rfl, rfl, rfl, hl, -, -, -, -, -⟩ := h
  cases hl
  match step with
  | 0 | 1 => exact ⟨rfl, fun v => ⟨rfl, rfl, rfl, rfl, rfl, nofun, nofun, nofun, nofun, nofun⟩⟩
  | 2 | 3 | 4 =>
    cases kind with
    | reset => exact ⟨rfl, fun v => ⟨rfl, rfl, rfl, rfl, rfl, nofun, nofun, nofun, nofun, nofun⟩⟩
    | nmi | irq => exact ⟨rfl, rfl, ⟨rfl, rfl, rfl, rfl, rfl, nofun, nofun, nofun, nofun, nofun⟩⟩
  | 5 =>
    exact ⟨rfl, fun v => ⟨rfl, rfl, rfl, rfl, rfl, nofun, nofun, nofun, fun _ => rfl, nofun⟩⟩
  | n + 6 =>
    obtain rfl := hd (Nat.le_add_left 6 n)
    exact ⟨rfl, fun v => ⟨rfl, rfl, rfl, rfl, rfl, nofun, nofun, nofun, nofun, nofun⟩⟩

/-- In the course of an instruction the scratch that is still to be used is the same. -/
theorem Agree.work_alike (h : Agree p q) (hi : p.phase.inside = true) :
    p.cycle.Alike Agree q.cycle := by
  obtain ⟨pointer, data, vector, rfl⟩ : ∃ pointer data vector, q = { p with pointer, data, vector } :=
    ⟨_, _, _, h.eq_scratch hi⟩
  have hw := workOf hi
  generalize p.cycle = c at hw
  cases hw with
  | bare step hp hb =>
    rw [cycle_bare (p := { p with pointer, data, vector }) hp hb]
    refine p.executeCycle_alike 0 (fun hd => ?_) (fun hv => ?_)
    · rw [Instruction.holdsData_zero] at hd
      cases hd
    · rw [Instruction.holdsVector_zero] at hv
      cases hv
  | immediate step hp hm =>
    rw [cycle_immediate (p := { p with pointer, data, vector }) hp hm]
    exact p.immediateCycle_alike
  | operand step hp hm =>
    rw [cycle_operand (p := { p with pointer, data, vector }) hp hm]
    refine p.operandCycle_alike step fun hstep hu => h.pointer ?_
    obtain ⟨n, rfl⟩ := Nat.exists_eq_succ_of_ne_zero (Nat.pos_iff_ne_zero.mp hstep)
    simp only [usesPointer, hp, hu]
  | dummyRead hp =>
    rw [cycle_dummyRead (p := { p with pointer, data, vector }) hp]
    exact ⟨rfl, fun v => .fresh (.inr (.inr (.inl rfl)))⟩
  | execute step hp =>
    rw [cycle_execute (p := { p with pointer, data, vector }) hp]
    refine p.executeCycle_alike step (fun hd => h.data ?_) (fun hv => h.vector ?_)
    · simp only [usesData, hp, hd]
    · simp only [usesVector, hp, hv]

/-- Every cycle of two processors that agree makes the same access and leaves them in agreement. -/
theorem Agree.cycle_alike (h : Agree p q) : p.cycle.Alike Agree q.cycle := by
  have hphase := h.phase
  have hpolls := h.polls
  have hpolled : q.latches.polled = p.latches.polled := by rw [h.latches]
  have hreset : q.resetLatch = p.resetLatch := congrArg Latches.reset h.latches
  have hc := p.cycleOf
  generalize p.cycle = c at hc
  cases hc with
  | passes hp hs =>
    have h' : Agree { p with polls := true } { q with polls := true } :=
      ⟨h.registers, h.cycles, h.phase, rfl, h.latches, h.opcode, h.operand, h.pointer, h.data, h.vector⟩
    rw [cycle_unpolled (hphase.trans hp) (hpolls.trans hs)]
    exact h'.fetchCycle
  | begins kind hp hs hd =>
    rw [cycle_due (hphase.trans hp) (hpolls.trans hs) (h.due.trans hd), hpolled]
    exact (h.latch _).interruptCycle kind 0 nofun
  | fetches hp hs hd =>
    rw [cycle_not_due (hphase.trans hp) (hpolls.trans hs) (h.due.trans hd), hpolled]
    exact (h.latch _).fetchCycle
  | resets hp hr =>
    have hl : { q.latches with reset := false } = { p.latches with reset := false } := by
      rw [h.latches]
    have h' : Agree { p with resetLatch := false } { q with resetLatch := false } :=
      ⟨h.registers, h.cycles, h.phase, h.polls, hl, h.opcode, h.operand, h.pointer, h.data, h.vector⟩
    rw [cycle_halted (hphase.trans hp) (hreset.trans hr)]
    exact h'.interruptCycle .reset 0 nofun
  | waits hp hr =>
    rw [cycle_waiting (hphase.trans hp) (hreset.trans hr)]
    exact h
  | interrupt kind step hp =>
    rw [cycle_interrupt (hphase.trans hp)]
    refine h.interruptCycle kind step fun hstep => h.data ?_
    simp only [usesData, hp, hstep, decide_true]
  | inside hi => exact h.work_alike hi

theorem Agree.counted (h : Agree p q) : Agree p.counted q.counted :=
  ⟨h.registers, congrArg (· + 1) h.cycles, h.phase, h.polls, h.latches, h.opcode, h.operand, h.pointer,
    h.data, h.vector⟩

/-- A tick makes the same access and leaves them in agreement. -/
theorem Agree.tick (h : Agree p q) (bus : β) :
    (q.tick bus).2.2 = (p.tick bus).2.2 ∧ Agree (p.tick bus).2.1 (q.tick bus).2.1 := by
  have hc := h.counted.cycle_alike
  cases hp : p.counted.cycle with
  | read addr next =>
    cases hq : q.counted.cycle with
    | read addr' next' =>
      rw [hp, hq] at hc
      obtain ⟨rfl, hn⟩ := hc
      rw [tick_of_read hp, tick_of_read hq]
      exact ⟨rfl, hn _⟩
    | write addr' data' next' | idle next' => rw [hp, hq] at hc; cases hc
  | write addr data next =>
    cases hq : q.counted.cycle with
    | write addr' data' next' =>
      rw [hp, hq] at hc
      obtain ⟨rfl, rfl, hn⟩ := hc
      rw [tick_of_write hp, tick_of_write hq]
      exact ⟨rfl, hn⟩
    | read addr' next' | idle next' => rw [hp, hq] at hc; cases hc
  | idle next =>
    cases hq : q.counted.cycle with
    | idle next' =>
      rw [hp, hq] at hc
      rw [tick_of_idle hp, tick_of_idle hq]
      exact ⟨rfl, hc⟩
    | read addr' next' | write addr' data' next' => rw [hp, hq] at hc; cases hc

theorem Agree.request (h : Agree p q) (kind : Interrupt) : Agree (p.request kind) (q.request kind) := by
  rw [request_eq, request_eq, h.latches]
  exact h.latch _

/-- Two processors that agree stay in agreement in every run, and do the same to the bus. -/
theorem Agree.run (h : Agree p q) (bus : β) (acts : List Act) :
    (run (q, bus) acts).2 = (run (p, bus) acts).2 ∧
      Agree (run (p, bus) acts).1 (run (q, bus) acts).1 := by
  induction acts generalizing p q bus with
  | nil => exact ⟨rfl, h⟩
  | cons act acts ih =>
    cases act with
    | request kind => exact ih (h.request kind) bus
    | tick =>
      obtain ⟨hb, ht⟩ := h.tick bus
      have hq : Processor.run (q, bus) (.tick :: acts) =
          Processor.run ((q.tick bus).2.1, (p.tick bus).2.2) acts := by
        rw [← hb]; rfl
      rw [hq]
      exact ih ht (p.tick bus).2.2

/-! ## Loading a snapshot

  A snapshot leaves out whether the processor is halted, what is latched, and whether the next boundary
  looks at the latches.  The condition below is about these. -/

/-- What can be asked of a processor from outside. -/
structure View where
  registers : Registers
  cycles : UInt64
  atBoundary : Bool
  isHalted : Bool

/-- What a processor answers. -/
def view (p : Processor) : View := ⟨p.registers, p.cycles, p.atBoundary, p.isHalted⟩

/-- What is seen of them is the same. -/
theorem Agree.view (h : Agree p q) : q.view = p.view := by
  unfold Processor.view atBoundary isHalted
  rw [h.registers, h.cycles, h.phase]

/-- After the same acts on the same bus two processors answer alike, and have made the same accesses. -/
structure SameRun (p q : Processor) (bus : β) (acts : List Act) : Prop where
  view : (run (q, (⟨bus, []⟩ : Recorded β)) acts).1.view =
    (run (p, (⟨bus, []⟩ : Recorded β)) acts).1.view
  bus : (run (q, (⟨bus, []⟩ : Recorded β)) acts).2 = (run (p, (⟨bus, []⟩ : Recorded β)) acts).2

/-- Nothing that is done to two processors, on whatever bus, tells one from the other. -/
def Indistinguishable (p q : Processor) : Prop :=
  ∀ {β : Type} [Bus β] (bus : β) (acts : List Act), SameRun p q bus acts

/-- So they run alike on any bus, under any acts. -/
theorem Agree.sameRun (h : Agree p q) (bus : β) (acts : List Act) : SameRun p q bus acts :=
  have hr := h.run (⟨bus, []⟩ : Recorded β) acts
  ⟨hr.2.view, hr.1⟩

/-- To set the unused bit again changes nothing. -/
theorem set_unused_of_marked {r : Registers} (h : r.Marked) :
    { r with status := r.status.set .unused true } = r := by
  obtain ⟨a, x, y, sp, pc, ⟨bits⟩⟩ := r
  have hb : ∀ b : UInt8, b &&& 0x20 ≠ 0 → b ||| 0x20 = b := forall_byte (by decide +kernel)
  have hm : bits &&& 0x20 ≠ 0 := bne_iff_ne.mp h
  simp only [Status.set, Flag.mask, if_pos, hb bits hm]

/-- At a boundary a processor that is not halted fetches. -/
theorem phase_of_boundary (hb : p.atBoundary = true) (hh : p.isHalted = false) : p.phase = .fetch := by
  cases hp : p.phase with
  | fetch => rfl
  | halted => simp [isHalted, hp] at hh
  | interrupt kind step | operand step | dummyRead | execute step => simp [atBoundary, hp] at hb

/-- No interrupt is latched. -/
def Unlatched (p : Processor) : Prop := p.latches = ⟨false, false, false⟩

instance (p : Processor) : Decidable p.Unlatched := inferInstanceAs (Decidable (_ = _))

/-- With nothing latched nothing is due. -/
theorem Unlatched.due (h : p.Unlatched) : p.due = none := by
  have hr : p.resetLatch = false := congrArg Latches.reset h
  have hn : p.nmiLatch = false := congrArg Latches.nmi h
  have hi : p.irqLatch = false := congrArg Latches.irq h
  simp only [Processor.due, hr, hn, hi, Bool.false_and, Bool.false_eq_true, if_false]

/-- With nothing latched it makes no difference to a tick whether the latches are looked at. -/
theorem tick_polls (hp : p.phase = .fetch) (hl : p.Unlatched) (bus : β) :
    { p with polls := true }.tick bus = p.tick bus := by
  cases hs : p.polls with
  | true =>
    rw [← hs]
  | false =>
    rw [tick_unpolled hp hs, tick_not_due (p := { p with polls := true }) hp rfl (Unlatched.due hl)]
    obtain ⟨_, _, _, _, _, _, _, _, _, _, _, _⟩ := p
    cases hl
    rfl

/-- A processor that was about to look at the latches is brought back in all that matters. -/
theorem agree_restore (hm : p.registers.Marked) (hp : p.phase = .fetch) (hl : p.Unlatched)
    (hq : q.Unlatched) : Agree { p with polls := true } (q.restore p.snapshot) := by
  have hi : p.phase.inside = false := by rw [hp]; rfl
  refine ⟨set_unused_of_marked hm, rfl, hp.symm, rfl, hq.trans hl.symm, fun h => ?_, fun h => ?_,
    fun h => ?_, fun h => ?_, fun h => ?_⟩
  · rw [hi] at h; cases h
  · rw [hi] at h; cases h
  · simp [usesPointer, hp] at h
  · simp [usesData, hp] at h
  · simp [usesVector, hp] at h

/-- What comes after a snapshot is the same, unless a request is made before anything else and the latches
    were to be passed over. -/
theorem restore_sameRun (hm : p.registers.Marked) (hp : p.phase = .fetch) (hl : p.Unlatched)
    (hq : q.Unlatched) (bus : β) {acts : List Act}
    (ha : p.polls = true ∨ ∀ kind, acts.head? ≠ some (.request kind)) :
    SameRun p (q.restore p.snapshot) bus acts := by
  have h := (agree_restore hm hp hl hq).sameRun bus acts
  rcases ha with hs | ha
  · rw [← hs] at h
    exact h
  · cases acts with
    | nil => exact ⟨h.view, rfl⟩
    | cons act acts =>
      cases act with
      | request kind => exact absurd rfl (ha kind)
      | tick =>
        have ht : run ({ p with polls := true }, (⟨bus, []⟩ : Recorded β)) (.tick :: acts) =
            run (p, (⟨bus, []⟩ : Recorded β)) (.tick :: acts) := by
          show run ({ p with polls := true }.tick (⟨bus, []⟩ : Recorded β)).2 acts = _
          rw [tick_polls hp hl]
          rfl
        exact ⟨ht ▸ h.view, ht ▸ h.bus⟩

/-- A request that is passed over by one processor and not by the other tells the two apart: one moves on
    in the program, the other begins the sequence of the interrupt. -/
theorem restore_tells (hp : p.phase = .fetch) (hs : p.polls = false) (hq : q.Unlatched) :
    ¬ Indistinguishable p (q.restore p.snapshot) := by
  intro h
  have hv := (h (Memory.filled 0) [.request .nmi, .tick]).view
  have hpc : (run (p, (⟨Memory.filled 0, []⟩ : Recorded Memory)) [.request .nmi, .tick]).1.registers.pc =
      p.registers.pc + 1 := by
    show (p.requestNmi.tick (⟨Memory.filled 0, []⟩ : Recorded Memory)).2.1.registers.pc = _
    rw [tick_unpolled (p := p.requestNmi) hp hs]
    rfl
  have hr : q.resetLatch = false := congrArg Latches.reset hq
  have hd : ((q.restore p.snapshot).requestNmi.counted).due = some .nmi := by
    show (if q.resetLatch then some Interrupt.reset else some Interrupt.nmi) = _
    rw [hr]
    rfl
  have hpc' : (run (q.restore p.snapshot, (⟨Memory.filled 0, []⟩ : Recorded Memory))
      [.request .nmi, .tick]).1.registers.pc = p.registers.pc := by
    show ((q.restore p.snapshot).requestNmi.tick (⟨Memory.filled 0, []⟩ : Recorded Memory)).2.1.registers.pc = _
    rw [tick_of_read (cycle_due rfl rfl hd)]
    rfl
  have he := congrArg (fun v => v.registers.pc) hv
  have he : p.registers.pc = p.registers.pc + 1 := hpc'.symm.trans (he.trans hpc)
  have hlt := p.registers.pc.toNat_lt
  have hn := congrArg UInt16.toNat he
  rw [UInt16.toNat_add] at hn
  have : (1 : UInt16).toNat = 1 := rfl
  omega

/-- **Snapshots.**  Loaded into whatever processor, with nothing latched there or in the one it was taken
    of, a snapshot brings back one that cannot be told from the first exactly if that was not halted and
    was to look at the latches next.  If it was to pass them over, after an interrupt sequence, only a
    request before the next tick can tell. -/
theorem restore_alike_iff (h : Reachable p) (hb : p.atBoundary = true) (hl : p.Unlatched)
    (hq : q.Unlatched) :
    (Indistinguishable p (q.restore p.snapshot) ↔ p.isHalted = false ∧ p.polls = true) ∧
    (p.isHalted = false → ∀ {β : Type} [Bus β] (bus : β) (acts : List Act),
      (∀ kind, acts.head? ≠ some (.request kind)) →
        SameRun p (q.restore p.snapshot) bus acts) := by
  have hm := h.coherent.marked
  refine ⟨⟨fun hi => ?_, fun ⟨hh, hs⟩ β _ bus acts => ?_⟩, fun hh β _ bus acts ha => ?_⟩
  · have hh : p.isHalted = false :=
      (congrArg View.isHalted (hi (Memory.filled 0) []).view).symm
    refine ⟨hh, ?_⟩
    cases hs : p.polls with
    | true => rfl
    | false => exact (restore_tells (phase_of_boundary hb hh) hs hq @hi).elim
  · exact restore_sameRun hm (phase_of_boundary hb hh) hl hq bus (.inl hs)
  · exact restore_sameRun hm (phase_of_boundary hb hh) hl hq bus (.inr ha)

/-- Between two instructions of a program, with the snapshot loaded into a new processor. -/
theorem restore_alike_iff_new :
    Reachable (run (new, Memory.filled 0xEA) [.tick, .tick]).1 ∧
      (run (new, Memory.filled 0xEA) [.tick, .tick]).1.atBoundary = true ∧
      Indistinguishable (run (new, Memory.filled 0xEA) [.tick, .tick]).1
        (new.restore (run (new, Memory.filled 0xEA) [.tick, .tick]).1.snapshot) :=
  have h := Reachable.new.run (Memory.filled 0xEA) [.tick, .tick]
  have hb : (run (new, Memory.filled 0xEA) [.tick, .tick]).1.atBoundary = true := by decide
  ⟨h, hb, (restore_alike_iff h hb (by decide) (by decide)).1.mpr (by decide)⟩

/-- A halted processor is not brought back as one, neither into itself nor into a new one; nor is one that has
    come to the handler of an interrupt, and is to pass the latches over. -/
theorem restore_not_alike :
    (Reachable (new.tick (Memory.filled 0x02)).2.1 ∧
      (new.tick (Memory.filled 0x02)).2.1.atBoundary = true ∧
      (new.tick (Memory.filled 0x02)).2.1.Unlatched ∧
      ¬ Indistinguishable (new.tick (Memory.filled 0x02)).2.1
        ((new.tick (Memory.filled 0x02)).2.1.restore (new.tick (Memory.filled 0x02)).2.1.snapshot) ∧
      ¬ Indistinguishable (new.tick (Memory.filled 0x02)).2.1
        (new.restore (new.tick (Memory.filled 0x02)).2.1.snapshot)) ∧
    (Reachable (run (new.requestNmi, Memory.filled 0) (.replicate 7 .tick)).1 ∧
      (run (new.requestNmi, Memory.filled 0) (.replicate 7 .tick)).1.atBoundary = true ∧
      (run (new.requestNmi, Memory.filled 0) (.replicate 7 .tick)).1.Unlatched ∧
      ¬ Indistinguishable (run (new.requestNmi, Memory.filled 0) (.replicate 7 .tick)).1
        (new.restore (run (new.requestNmi, Memory.filled 0) (.replicate 7 .tick)).1.snapshot)) := by
  refine ⟨⟨Reachable.new.tick _, by decide, by decide, fun h => ?_, fun h => ?_⟩,
    .run (.request .nmi .new) _ _, by decide, by decide, restore_tells (by decide) (by decide) rfl⟩
  · exact absurd (congrArg View.isHalted (h (Memory.filled 0) []).view) (by decide)
  · exact absurd (congrArg View.isHalted (h (Memory.filled 0) []).view) (by decide)

end Processor

end Famicom
