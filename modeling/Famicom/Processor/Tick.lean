/-
  One cycle of the processor, and the instruction as the unit above it.

  `Processor.cycle` says what the cycle does from the processor's state alone; `Processor.tick` lets it
  happen on a bus.  Between two instructions the latches are looked at (`poll`): reset before
  non-maskable before maskable interrupt.  Looking at the last consumes its latch even where the
  interrupt-disable flag keeps the interrupt from being taken.
-/
import Famicom.Processor.Execution

namespace Famicom.Processor

/-- Looks at the latches before an instruction, unless an interrupt sequence has just ended: the
    interrupt to be taken, if any, with its latch cleared. -/
def poll (p : Processor) : Option Interrupt × Processor :=
  if !p.polls then (none, { p with polls := true })
  else if p.resetLatch then (some .reset, { p with resetLatch := false })
  else if p.nmiLatch then (some .nmi, { p with nmiLatch := false })
  else if p.irqLatch then
    (if p.registers.status.get .interruptDisable then none else some .irq,
      { p with irqLatch := false })
  else (none, p)

/-- The phase that follows an opcode.  A jump reads its own operand. -/
def phaseAfter : Instruction → Phase
  | .hlt => .halted
  | .jmp => .execute 0
  | _ => .operand 0

/-- Reads the opcode. -/
def fetchCycle (p : Processor) : Cycle :=
  p.fetchThen fun v p =>
    { p with opcode := decode v, operand := {}, phase := phaseAfter (decode v).instruction }

/-- What the next cycle does.  In the modes whose operand takes no cycle of its own, it is the first
    of the execution. -/
def cycle (p : Processor) : Cycle :=
  match p.phase with
  | .fetch =>
    match p.poll with
    | (some kind, p) => p.interruptCycle kind 0
    | (none, p) => p.fetchCycle
  | .halted =>
    if p.resetLatch then { p with resetLatch := false }.interruptCycle .reset 0 else .idle p
  | .interrupt kind step => p.interruptCycle kind step
  | .operand step =>
    match p.opcode.mode with
    | .immediate => p.immediateCycle
    | .implied | .accumulator | .indirect => p.executeCycle 0
    | _ => p.operandCycle step
  | .dummyRead => .read p.operand.address fun _ => p.executeNext 0
  | .execute step => p.executeCycle step

/-- Makes one cycle on a bus.  A halted processor leaves the bus alone, which counts as a read. -/
def tick {β : Type} [Bus β] (p : Processor) (bus : β) : CycleKind × Processor × β :=
  match { p with cycles := p.cycles + 1 }.cycle with
  | .read addr next => let (v, bus) := Bus.read bus addr; (.read, next v, bus)
  | .write addr data next => (.write, next, Bus.write bus addr data)
  | .idle next => (.read, next, bus)

end Famicom.Processor
