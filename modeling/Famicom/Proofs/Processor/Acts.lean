/-
  What is done to a processor from outside, and what one cycle of it can do.

  1. **Acts** (`Act`, `run`): a tick, or a request that raises a latch.  Requests may come between any
     two ticks.  `Reachable` collects what can become of a processor, on whatever buses; loading a
     snapshot is one of the things done to it.
  2. **Successors** (`Cycle.Leads`): what holds of every processor that may come after a cycle, whatever
     the bus answers, holds after the tick (`tick_of_leads`).
  3. **The three kinds of work**: finding an operand (`Seeks`), executing a step (`Executes`) and a step
     of an interrupt sequence (`Interrupts`).  Each says at once what becomes of the latches, the polling and
     the opcode, where the processor goes on, and what moves the stack pointer.

  Main statements: one for each kind of work (`operandCycle_leads`, `executeCycle_leads`,
  `interruptCycle_leads`).  The invariants of runs follow from these, with no look at the steps again.
-/
import Famicom.Proofs.Processor.Schedule

namespace Famicom

/-- Every processor that may come after the cycle has the property. -/
def Cycle.Leads (P : Processor → Prop) : Cycle → Prop
  | .read _ next => ∀ v, P (next v)
  | .write _ _ next => P next
  | .idle next => P next

/-- What a cycle leads to may be said more weakly. -/
theorem Cycle.Leads.mono {P Q : Processor → Prop} (h : ∀ q, P q → Q q) :
    ∀ {c : Cycle}, c.Leads P → c.Leads Q
  | .read _ _, hc => fun v => h _ (hc v)
  | .write _ _ _, hc => h _ hc
  | .idle _, hc => h _ hc

/-! ## The bit that is always set -/

namespace Registers

/-- The unused bit of the status register is set. -/
def Marked (r : Registers) : Prop := r.status.get .unused = true

variable {r : Registers}

/-- Setting another flag leaves the unused bit set. -/
theorem Marked.setFlag (h : r.Marked) {f : Flag} (hf : f ≠ .unused) (on : Bool) :
    (r.setFlag f on).Marked :=
  (Status.get_set_of_ne r.status on hf).trans h

theorem Marked.setZeroNegative (h : r.Marked) (value : UInt8) : (r.setZeroNegative value).Marked :=
  (h.setFlag (f := .zero) (by decide) _).setFlag (f := .negative) (by decide) _

theorem Marked.adc (h : r.Marked) (value : UInt8) : (r.adc value).Marked :=
  Marked.setZeroNegative (r := { (r.setFlag .carry _).setFlag .overflow _ with a := _ })
    ((h.setFlag (f := .carry) (by decide) _).setFlag (f := .overflow) (by decide) _) _

theorem Marked.compare (h : r.Marked) (register value : UInt8) : (r.compare register value).Marked :=
  (h.setFlag (f := .carry) (by decide) _).setZeroNegative _

theorem Marked.shifted (h : r.Marked) (carry : Bool) (result : UInt8) :
    (r.shifted carry result).2.Marked :=
  (h.setFlag (f := .carry) (by decide) _).setZeroNegative _

/-- A status pulled from the stack has the unused bit set. -/
theorem marked_pulled (value : UInt8) : ({ r with status := .pulled value } : Registers).Marked :=
  Status.get_set_self _ _ _

end Registers

open Registers

/-- An operation on a byte that is read leaves the unused bit set. -/
theorem ReadOp.apply_marked (op : ReadOp) (value : UInt8) {r : Registers} (h : r.Marked) :
    (op.apply value r).Marked := by
  cases op with
  | adc => exact h.adc _
  | sbc => exact h.adc _
  | bit =>
    exact ((h.setFlag (f := .zero) (by decide) _).setFlag (f := .overflow) (by decide) _).setFlag
      (f := .negative) (by decide) _
  | cmp | cpx | cpy => exact h.compare _ _
  | and | ora | eor | lda | ldx | ldy | lax => exact Marked.setZeroNegative h _
  | nop => exact h

/-- So does one that modifies memory. -/
theorem ModifyOp.apply_marked (op : ModifyOp) (value : UInt8) {r : Registers} (h : r.Marked) :
    (op.apply value r).2.Marked := by
  cases op with
  | asl | lsr | rol | ror => exact h.shifted _ _
  | inc | dec => exact h.setZeroNegative _
  | slo | rla | sre => exact Marked.setZeroNegative (h.shifted _ _) _
  | rra => exact (h.shifted _ _).adc _
  | dcp => exact h.compare _ _
  | isb => exact h.adc _

/-- So does one on the registers alone. -/
theorem ImpliedOp.apply_marked (op : ImpliedOp) {r : Registers} (h : r.Marked) :
    (op.apply r).Marked := by
  cases op with
  | inx | iny | dex | dey | tax | tay | txa | tya | tsx => exact Marked.setZeroNegative h _
  | txs => exact h
  | clc | sec => exact h.setFlag (f := .carry) (by decide) _
  | cli | sei => exact h.setFlag (f := .interruptDisable) (by decide) _
  | cld | sed => exact h.setFlag (f := .decimal) (by decide) _
  | clv => exact h.setFlag (f := .overflow) (by decide) _

/-- An operation on a byte that is read leaves the stack pointer alone. -/
theorem ReadOp.apply_sp (op : ReadOp) (value : UInt8) (r : Registers) :
    (op.apply value r).sp = r.sp := by
  cases op <;> rfl

theorem ModifyOp.apply_sp (op : ModifyOp) (value : UInt8) (r : Registers) :
    (op.apply value r).2.sp = r.sp := by
  cases op <;> rfl

/-- Of the operations on registers one sets the stack pointer. -/
theorem ImpliedOp.apply_sp {op : ImpliedOp} (h : op ≠ .txs) (r : Registers) :
    (op.apply r).sp = r.sp := by
  cases op <;> first | rfl | exact absurd rfl h

/-- The steps in which an instruction pushes to the stack or pulls from it, the reads for nothing on the
    way included. -/
def Instruction.stackStep : Instruction → Nat → Bool
  | .jsr, _ => true
  | .rts, step => 1 ≤ step && step ≤ 3
  | .rti, step => 1 ≤ step
  | .pha, step | .php, step | .pla, step | .plp, step => 1 ≤ step
  | .brk, step => 1 ≤ step && step ≤ 3
  | _, _ => false

/-- The status push of a software break, where a non-maskable interrupt may take the break over. -/
def Instruction.statusPush : Instruction → Nat → Bool
  | .brk, 3 => true
  | _, _ => false

/-- No instruction begins with a status push. -/
theorem Instruction.statusPush_zero (i : Instruction) : i.statusPush 0 = false := by cases i <;> rfl

/-- The processor is in the course of an instruction. -/
def Phase.inside : Phase → Bool
  | .operand _ | .dummyRead | .execute _ => true
  | .fetch | .halted | .interrupt _ _ => false

namespace Processor

variable {β : Type} [Bus β] {p : Processor}

/-! ## Acts -/

/-- Raises the latch of an interrupt. -/
def request (p : Processor) : Interrupt → Processor
  | .reset => p.requestReset
  | .nmi => p.requestNmi
  | .irq => p.requestIrq

/-- What happens to a processor that runs. -/
inductive Act where
  | tick
  | request (kind : Interrupt)
  deriving DecidableEq, Repr

/-- A processor and its bus after an act. -/
def perform (s : Processor × β) : Act → Processor × β
  | .tick => (s.1.tick s.2).2
  | .request kind => (s.1.request kind, s.2)

/-- A processor and its bus after one act after the other. -/
def run (s : Processor × β) (acts : List Act) : Processor × β := acts.foldl perform s

/-- What can become of a processor. -/
inductive Reachable : Processor → Prop where
  | new : Reachable new
  | tick {p : Processor} {β : Type} [Bus β] (bus : β) : Reachable p → Reachable (p.tick bus).2.1
  | request {p : Processor} (kind : Interrupt) : Reachable p → Reachable (p.request kind)
  | restore {p : Processor} (s : Snapshot) : Reachable p → Reachable (p.restore s)

/-- A run leads from a processor that can come about to another. -/
theorem Reachable.run (h : Reachable p) (bus : β) (acts : List Act) :
    Reachable (run (p, bus) acts).1 := by
  induction acts generalizing p bus with
  | nil => exact h
  | cons act acts ih =>
    cases act with
    | tick => exact ih (h.tick bus) _
    | request kind => exact ih (h.request kind) _

/-- A halted processor passes the tick over. -/
theorem tick_of_idle {q : Processor} (h : p.counted.cycle = .idle q) (bus : β) :
    p.tick bus = (.read, q, bus) := by
  have hc : { p with cycles := p.cycles + 1 }.cycle = .idle q := h
  unfold tick
  rw [hc]

/-- What every cycle leads to holds after the tick. -/
theorem tick_of_leads {P : Processor → Prop} (h : p.counted.cycle.Leads P) (bus : β) :
    P (p.tick bus).2.1 := by
  cases hc : p.counted.cycle with
  | read addr next =>
    rw [hc] at h
    rw [tick_of_read hc]
    exact h _
  | write addr data next =>
    rw [hc] at h
    rw [tick_of_write hc]
    exact h
  | idle next =>
    rw [hc] at h
    rw [tick_of_idle hc]
    exact h

/-! ## The frame -/

/-- What is latched. -/
structure Latches where
  reset : Bool
  nmi : Bool
  irq : Bool
  deriving DecidableEq, Repr

/-- The latches of a processor. -/
def latches (p : Processor) : Latches := ⟨p.resetLatch, p.nmiLatch, p.irqLatch⟩

/-- What the course of an instruction does not work on. -/
structure Frame where
  latches : Latches
  polls : Bool
  cycles : UInt64
  opcode : Opcode

/-- The frame of a processor. -/
def frame (p : Processor) : Frame := ⟨p.latches, p.polls, p.cycles, p.opcode⟩

/-! ## Finding the operand -/

/-- A processor after a cycle of finding its operand. -/
structure Seeks (p q : Processor) : Prop where
  frame : q.frame = p.frame
  phase : q.phase = .fetch ∨ q.phase.inside = true
  /-- Only the program counter has moved. -/
  registers : q.registers = { p.registers with pc := q.registers.pc }
  /-- Only a branch has its operand from the instruction itself. -/
  value : p.opcode.mode ≠ .relative → p.operand.value = none → q.operand.value = none

/-- The phases that follow when the operand is found. -/
theorem operandFound_eq (p : Processor) :
    ∃ phase : Phase, (phase = .fetch ∨ phase = .dummyRead ∨ phase = .execute 0) ∧
      p.operandFound = { p with phase } := by
  unfold operandFound
  split
  · split
    · exact ⟨.execute 0, .inr (.inr rfl), rfl⟩
    · exact ⟨.fetch, .inl rfl, rfl⟩
  · split
    · exact ⟨.dummyRead, .inr (.inl rfl), rfl⟩
    · exact ⟨.execute 0, .inr (.inr rfl), rfl⟩

/-- An operand that has been found is a step towards it. -/
theorem Seeks.operandFound {q : Processor} (hf : q.frame = p.frame)
    (hr : q.registers = { p.registers with pc := q.registers.pc })
    (hv : p.opcode.mode ≠ .relative → p.operand.value = none → q.operand.value = none) :
    Seeks p q.operandFound := by
  obtain ⟨phase, hp, he⟩ := operandFound_eq q
  rw [he]
  refine ⟨hf, ?_, hr, hv⟩
  rcases hp with rfl | rfl | rfl
  · exact .inl rfl
  · exact .inr rfl
  · exact .inr rfl

/-- So is an index that is added. -/
theorem Seeks.addIndex {q : Processor} (step : Nat) (index : UInt8) (hf : q.frame = p.frame)
    (hr : q.registers = { p.registers with pc := q.registers.pc })
    (hv : p.opcode.mode ≠ .relative → p.operand.value = none → q.operand.value = none) :
    Seeks p (q.addIndex step index) := by
  unfold Processor.addIndex
  dsimp only
  split
  · exact ⟨hf, .inr rfl, hr, hv⟩
  · exact .operandFound hf hr hv

/-- Every cycle of finding an operand. -/
theorem operandCycle_leads (p : Processor) (step : Nat) : (p.operandCycle step).Leads (Seeks p) := by
  obtain ⟨registers, cycles, phase, polls, ⟨i, mode⟩, operand, pointer, data, vector, _, _, _⟩ := p
  cases mode with
  | implied | accumulator | indirect | immediate => exact .operandFound rfl rfl fun _ h => h
  | relative => exact fun v => .operandFound rfl rfl fun h => absurd rfl h
  | zeroPage => exact fun v => .operandFound rfl rfl fun _ _ => rfl
  | zeroPageX | zeroPageY =>
    match step with
    | 0 => exact fun v => ⟨rfl, .inr rfl, rfl, fun _ h => h⟩
    | _ + 1 => exact fun v => .operandFound rfl rfl fun _ _ => rfl
  | absolute =>
    match step with
    | 0 => exact fun v => ⟨rfl, .inr rfl, rfl, fun _ _ => rfl⟩
    | _ + 1 => exact fun v => .operandFound rfl rfl fun _ h => h
  | absoluteX | absoluteY =>
    match step with
    | 0 => exact fun v => ⟨rfl, .inr rfl, rfl, fun _ _ => rfl⟩
    | 1 => exact fun v => .addIndex _ _ rfl rfl fun _ h => h
    | _ + 2 => exact fun v => .operandFound rfl rfl fun _ h => h
  | indexedIndirect =>
    match step with
    | 0 | 1 => exact fun v => ⟨rfl, .inr rfl, rfl, fun _ h => h⟩
    | 2 => exact fun v => ⟨rfl, .inr rfl, rfl, fun _ _ => rfl⟩
    | _ + 3 => exact fun v => .operandFound rfl rfl fun _ h => h
  | indirectIndexed =>
    match step with
    | 0 => exact fun v => ⟨rfl, .inr rfl, rfl, fun _ h => h⟩
    | 1 => exact fun v => ⟨rfl, .inr rfl, rfl, fun _ _ => rfl⟩
    | 2 => exact fun v => .addIndex _ _ rfl rfl fun _ h => h
    | _ + 3 => exact fun v => .operandFound rfl rfl fun _ h => h

/-! ## Executing -/

/-- A processor after a step of executing its instruction. -/
structure Executes (p : Processor) (step : Nat) (q : Processor) : Prop where
  frame : q.frame =
    { p.frame with
      latches := { p.latches with nmi := !p.opcode.instruction.statusPush step && p.nmiLatch } }
  phase : q.phase = .fetch ∨ (q.phase = .halted ∧ p.opcode.instruction = .hlt) ∨
    ((∃ n, q.phase = .execute n) ∧ ∀ o, p.opcode.instruction ≠ .read o)
  marked : p.registers.Marked → q.registers.Marked
  /-- Pushes and pulls move the stack pointer, and so does the instruction that loads it. -/
  stack : q.registers.sp = p.registers.sp ∨
    (0 < step ∧ p.opcode.instruction.stackStep step = true) ∨ p.opcode.instruction = .implied .txs

section

variable {q : Processor} {step : Nat} (hframe : q.frame =
  { p.frame with
    latches := { p.latches with nmi := !p.opcode.instruction.statusPush step && p.nmiLatch } })

include hframe

/-- The instruction goes on, with the stack where it was. -/
theorem Executes.goesOn (n : Nat) (hphase : q.phase = .execute n)
    (hread : ∀ o, p.opcode.instruction ≠ .read o) (hmarked : p.registers.Marked → q.registers.Marked)
    (hsp : q.registers.sp = p.registers.sp) : Executes p step q :=
  ⟨hframe, .inr (.inr ⟨⟨n, hphase⟩, hread⟩), hmarked, .inl hsp⟩

/-- It goes on after a push or a pull. -/
theorem Executes.goesOnMoved (n : Nat) (hphase : q.phase = .execute n)
    (hread : ∀ o, p.opcode.instruction ≠ .read o) (hmarked : p.registers.Marked → q.registers.Marked)
    (hstep : 0 < step) (hstack : p.opcode.instruction.stackStep step = true) : Executes p step q :=
  ⟨hframe, .inr (.inr ⟨⟨n, hphase⟩, hread⟩), hmarked, .inr (.inl ⟨hstep, hstack⟩)⟩

/-- It has ended, with the stack where it was. -/
theorem Executes.ends (hphase : q.phase = .fetch) (hmarked : p.registers.Marked → q.registers.Marked)
    (hsp : q.registers.sp = p.registers.sp) : Executes p step q :=
  ⟨hframe, .inl hphase, hmarked, .inl hsp⟩

/-- It has ended with a push or a pull. -/
theorem Executes.endsMoved (hphase : q.phase = .fetch)
    (hmarked : p.registers.Marked → q.registers.Marked) (hstep : 0 < step)
    (hstack : p.opcode.instruction.stackStep step = true) : Executes p step q :=
  ⟨hframe, .inl hphase, hmarked, .inr (.inl ⟨hstep, hstack⟩)⟩

end

/-- A step of an instruction that modifies memory is one of its execution. -/
theorem modifyCycle_leads {o : ModifyOp} (h : p.opcode.instruction = .modify o) (step : Nat) :
    (p.modifyCycle o step).Leads (Executes p step) := by
  obtain ⟨registers, cycles, phase, polls, ⟨i, mode⟩, operand, pointer, data, vector, _, _, _⟩ := p
  obtain rfl : i = .modify o := h
  match step with
  | 0 => exact fun v => .goesOn rfl 1 rfl nofun id rfl
  | 1 => exact .goesOn rfl 2 rfl nofun id rfl
  | _ + 2 => exact .ends rfl rfl (o.apply_marked _) (o.apply_sp _ _)

/-- Every step of executing an instruction. -/
theorem executeCycle_leads (p : Processor) (step : Nat) :
    (p.executeCycle step).Leads (Executes p step) := by
  obtain ⟨registers, cycles, phase, polls, ⟨i, mode⟩, operand, pointer, data, vector, _, _, _⟩ := p
  cases i with
  | read o =>
    exact fun v => .ends rfl rfl (o.apply_marked v) (o.apply_sp v _)
  | modify o =>
    cases mode with
    | accumulator => exact fun v => .ends rfl rfl (o.apply_marked _) (o.apply_sp _ _)
    | _ => exact modifyCycle_leads rfl step
  | implied o =>
    refine fun v => ⟨rfl, .inl rfl, o.apply_marked, ?_⟩
    by_cases h : o = .txs
    · exact .inr (.inr (congrArg _ h))
    · exact .inl (o.apply_sp h _)
  | store o => exact .ends rfl rfl id rfl
  | branch c =>
    match step with
    | 0 =>
      intro v
      dsimp only
      split
      · exact .goesOn rfl 1 rfl nofun id rfl
      · exact .ends rfl rfl id rfl
    | _ + 1 => exact fun v => .ends rfl rfl id rfl
  | jmp =>
    match step with
    | 0 => exact fun v => .goesOn rfl 1 rfl nofun id rfl
    | 1 =>
      cases mode with
      | indirect => exact fun v => .goesOn rfl 2 rfl nofun id rfl
      | _ => exact fun v => .ends rfl rfl id rfl
    | 2 =>
      cases mode with
      | indirect => exact fun v => .goesOn rfl 3 rfl nofun id rfl
      | _ => exact fun v => .ends rfl rfl id rfl
    | _ + 3 =>
      cases mode <;> exact fun v => .ends rfl rfl id rfl
  | jsr =>
    match step with
    | 0 => exact fun v => .goesOn rfl 1 rfl nofun id rfl
    | 1 => exact .goesOnMoved rfl 2 rfl nofun id (Nat.succ_pos _) rfl
    | _ + 2 => exact .endsMoved rfl rfl id (Nat.succ_pos _) rfl
  | rts =>
    match step with
    | 0 => exact fun v => .goesOn rfl 1 rfl nofun id rfl
    | 1 => exact fun v => .goesOnMoved rfl 2 rfl nofun id (Nat.succ_pos _) rfl
    | 2 => exact fun v => .goesOnMoved rfl 3 rfl nofun id (Nat.succ_pos _) rfl
    | 3 => exact fun v => .goesOn rfl 4 rfl nofun id rfl
    | _ + 4 => exact fun v => .ends rfl rfl id rfl
  | rti =>
    match step with
    | 0 => exact fun v => .goesOn rfl 1 rfl nofun id rfl
    | 1 => exact fun v => .goesOnMoved rfl 2 rfl nofun id (Nat.succ_pos _) rfl
    | 2 =>
      exact fun v => .goesOnMoved rfl 3 rfl nofun (fun _ => marked_pulled v) (Nat.succ_pos _) rfl
    | 3 => exact fun v => .goesOnMoved rfl 4 rfl nofun id (Nat.succ_pos _) rfl
    | _ + 4 => exact fun v => .ends rfl rfl id rfl
  | pha | php =>
    match step with
    | 0 => exact fun v => .goesOn rfl 1 rfl nofun id rfl
    | _ + 1 => exact .endsMoved rfl rfl id (Nat.succ_pos _) rfl
  | pla =>
    match step with
    | 0 => exact fun v => .goesOn rfl 1 rfl nofun id rfl
    | 1 => exact fun v => .goesOnMoved rfl 2 rfl nofun id (Nat.succ_pos _) rfl
    | _ + 2 => exact fun v => .ends rfl rfl (fun h => Marked.setZeroNegative h v) rfl
  | plp =>
    match step with
    | 0 => exact fun v => .goesOn rfl 1 rfl nofun id rfl
    | 1 => exact fun v => .goesOnMoved rfl 2 rfl nofun id (Nat.succ_pos _) rfl
    | _ + 2 => exact fun v => .ends rfl rfl (fun _ => marked_pulled v) rfl
  | brk =>
    match step with
    | 0 =>
      exact fun v => .goesOn rfl 1 rfl nofun (fun h => h.setFlag (f := .brk) (by decide) true) rfl
    | 1 => exact .goesOnMoved rfl 2 rfl nofun id (Nat.succ_pos _) rfl
    | 2 => exact .goesOnMoved rfl 3 rfl nofun id (Nat.succ_pos _) rfl
    | 3 => exact .goesOnMoved rfl 4 rfl nofun id (Nat.succ_pos _) rfl
    | 4 =>
      exact fun v => .goesOn rfl 5 rfl nofun (fun h => h.setFlag (f := .interruptDisable) (by decide) true) rfl
    | _ + 5 => exact fun v => .ends rfl rfl id rfl
  | hlt => exact ⟨rfl, .inr (.inl ⟨rfl, rfl⟩), id, .inl rfl⟩

/-! ## Interrupt sequences -/

/-- A processor after a step of an interrupt sequence, of which there are seven. -/
structure Interrupts (p : Processor) (kind : Interrupt) (step : Nat) (q : Processor) : Prop where
  frame : q.frame = { p.frame with polls := decide (step < 6) && p.polls }
  phase : q.phase = if step < 6 then .interrupt kind (step + 1) else .fetch
  marked : p.registers.Marked → q.registers.Marked
  stack : q.registers.sp = p.registers.sp ∨ (2 ≤ step ∧ step ≤ 4)

theorem interruptPush_leads (p : Processor) (kind : Interrupt) (data : UInt8) {step : Nat}
    (h : 2 ≤ step ∧ step ≤ 4) : (p.interruptPush kind data (step + 1)).Leads (Interrupts p kind step) := by
  have hstep : step < 6 := by omega
  have hp : Interrupts p kind step ((p.setSp (p.registers.sp - 1)).interruptNext kind (step + 1)) :=
    ⟨by rw [decide_eq_true hstep]; rfl, by rw [if_pos hstep]; rfl, id, .inr h⟩
  cases kind with
  | reset => exact fun v => hp
  | nmi | irq => exact hp

/-- Every step of an interrupt sequence. -/
theorem interruptCycle_leads (p : Processor) (kind : Interrupt) (step : Nat) :
    (p.interruptCycle kind step).Leads (Interrupts p kind step) := by
  match step with
  | 0 => exact fun v => ⟨rfl, rfl, fun h => h.setFlag (f := .brk) (by decide) false, .inl rfl⟩
  | 1 => exact fun v => ⟨rfl, rfl, id, .inl rfl⟩
  | 2 | 3 | 4 => exact p.interruptPush_leads kind _ (by decide)
  | 5 =>
    exact fun v => ⟨rfl, rfl, fun h => h.setFlag (f := .interruptDisable) (by decide) true, .inl rfl⟩
  | n + 6 =>
    have hstep : ¬ n + 6 < 6 := by omega
    exact fun v => ⟨by rw [decide_eq_false hstep]; rfl, by rw [if_neg hstep]; rfl, id, .inl rfl⟩

end Processor

end Famicom
