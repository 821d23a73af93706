/-
  Executing an instruction once its operand is known, and the interrupt sequences.

  Every step is one `Cycle`.  Reads and stores take one, an operation that changes memory reads the
  byte, writes it back as it was and then writes the result; the stack instructions, jumps and
  interrupts are spelled out step by step.
-/
import Famicom.Processor.Addressing

namespace Famicom.Processor

/-- Goes on to the given step of the execution. -/
def executeNext (p : Processor) (step : Nat) : Processor := { p with phase := .execute step }

/-- An instruction that is given a byte: reads it and applies it.  Without an operand it reads the
    byte after the opcode for nothing. -/
def readCycle (p : Processor) (op : ReadOp) : Cycle :=
  let addr := match p.opcode.mode with
    | .implied | .accumulator => p.registers.pc
    | _ => p.operand.address
  .read addr fun v => (p.mapRegisters (op.apply v)).finish

/-- An instruction that is given the byte after its opcode. -/
def immediateCycle (p : Processor) : Cycle :=
  p.fetchThen fun v p =>
    match p.opcode.instruction with
    | .read op => ({ p with operand := .immediate v }.mapRegisters (op.apply v)).finish
    | _ => { p with operand := .immediate v }.finish

/-- An operation on the accumulator. -/
def accumulatorCycle (p : Processor) (op : ModifyOp) : Cycle :=
  p.idleReadThen (p.mapRegisters fun r =>
    let (result, r) := op.apply r.a r
    { r with a := result }).finish

/-- An operation on memory: reads the byte, writes it back unchanged, writes the result. -/
def modifyCycle (p : Processor) (op : ModifyOp) (step : Nat) : Cycle :=
  match step with
  | 0 => .read p.operand.address fun v => { p with data := v }.executeNext 1
  | 1 => .write p.operand.address p.data (p.executeNext 2)
  | _ =>
    let (result, registers) := op.apply p.data p.registers
    .write p.operand.address result { p with registers }.finish

/-- The signed distance of a branch, as a number to add to the program counter. -/
def branchOffset (offset : UInt8) : UInt16 := offset.toInt8.toInt16.toUInt16

/-- A branch that is taken.  Leaving the page takes one cycle more, with a read from the address
    whose high byte is still the old one. -/
def branchCycle (p : Processor) (step : Nat) : Cycle :=
  let pc := p.registers.pc
  match step with
  | 0 =>
    let target := pc + branchOffset (p.operand.value.getD 0)
    let operand := { p.operand with address := target }
    p.idleReadThen <|
      if pageCrossed pc target then
        { p with operand := { operand with pageCrossed := true } }.executeNext 1
      else ({ p with operand }.jumpTo target).finish
  | _ =>
    let target := p.operand.address
    .read ((pc &&& 0xFF00) ||| (target &&& 0x00FF)) fun _ => (p.jumpTo target).finish

/-- A jump.  An indirect one takes both bytes of the target from the page its pointer lies in. -/
def jmpCycle (p : Processor) (step : Nat) : Cycle :=
  match p.opcode.mode, step with
  | _, 0 => p.fetchThen fun v p => { p with data := v }.executeNext 1
  | .indirect, 1 =>
    p.fetchThen fun v p =>
      { p with operand := { p.operand with address := address p.data v } }.executeNext 2
  | .indirect, 2 => .read p.operand.address fun v => { p with data := v }.executeNext 3
  | .indirect, _ =>
    let pointer := p.operand.address
    .read ((pointer &&& 0xFF00) ||| ((pointer + 1) &&& 0x00FF)) fun v =>
      (p.jumpTo (address p.data v)).finish
  | _, _ => .read p.registers.pc fun v => (p.jumpTo (address p.data v)).finish

/-- A call: pushes the address of its own last byte and jumps. -/
def jsrCycle (p : Processor) (step : Nat) : Cycle :=
  match step with
  | 0 => .read p.stackTop fun _ => p.executeNext 1
  | 1 => p.pushThen (highByte (p.registers.pc - 1)) fun p => p.executeNext 2
  | _ => p.pushThen (p.registers.pc - 1).toUInt8 fun p => (p.jumpTo p.operand.address).finish

/-- Reads the byte the stack pointer stands at, to be followed by the given step with the stack
    pointer one up. -/
def pullThen (p : Processor) (step : Nat) (next : UInt8 → Processor → Processor) : Cycle :=
  .read p.stackTop fun v => (next v (p.setSp (p.registers.sp + 1))).executeNext step

/-- A return from a call: pulls the address pushed and goes on after it. -/
def rtsCycle (p : Processor) (step : Nat) : Cycle :=
  match step with
  | 0 => p.idleReadThen (p.executeNext 1)
  | 1 => p.pullThen 2 fun _ p => p
  | 2 => p.pullThen 3 fun v p => { p with data := v }
  | 3 => .read p.stackTop fun v => (p.jumpTo (address p.data v)).executeNext 4
  | _ => p.idleReadThen p.advancePc.finish

/-- A return from an interrupt: pulls the status and the address. -/
def rtiCycle (p : Processor) (step : Nat) : Cycle :=
  match step with
  | 0 => p.idleReadThen (p.executeNext 1)
  | 1 => p.pullThen 2 fun _ p => p
  | 2 => p.pullThen 3 fun v p => p.mapRegisters fun r => { r with status := .pulled v }
  | 3 => p.pullThen 4 fun v p => { p with data := v }
  | _ => .read p.stackTop fun v => (p.jumpTo (address p.data v)).finish

/-- Pushes a byte. -/
def pushCycle (p : Processor) (value : UInt8) (step : Nat) : Cycle :=
  match step with
  | 0 => p.idleReadThen (p.executeNext 1)
  | _ => p.pushThen value finish

/-- Pulls a byte into a register. -/
def pullCycle (p : Processor) (load : UInt8 → Registers → Registers) (step : Nat) : Cycle :=
  match step with
  | 0 => p.idleReadThen (p.executeNext 1)
  | 1 => p.pullThen 2 fun _ p => p
  | _ => .read p.stackTop fun v => (p.mapRegisters (load v)).finish

/-- A software break.  A non-maskable interrupt that is latched when the status is pushed takes the
    break over: its vector is used and its latch is cleared. -/
def brkCycle (p : Processor) (step : Nat) : Cycle :=
  let pc := p.registers.pc
  match step with
  | 0 => (p.mapRegisters (·.setFlag .brk true)).fetchThen fun _ p => p.executeNext 1
  | 1 => p.pushThen (highByte pc) fun p => p.executeNext 2
  | 2 => p.pushThen pc.toUInt8 fun p => p.executeNext 3
  | 3 =>
    let taken : Interrupt := if p.nmiLatch then .nmi else .irq
    { p with vector := taken.vector, nmiLatch := false }.pushThen (p.registers.status.pushed true)
      fun p => p.executeNext 4
  | 4 =>
    .read p.vector fun v =>
      { p.mapRegisters (·.setFlag .interruptDisable true) with data := v }.executeNext 5
  | _ => .read (p.vector + 1) fun v => (p.jumpTo (address p.data v)).finish

/-- One cycle of executing the instruction. -/
def executeCycle (p : Processor) (step : Nat) : Cycle :=
  match p.opcode.instruction with
  | .read op => p.readCycle op
  | .modify op =>
    match p.opcode.mode with
    | .accumulator => p.accumulatorCycle op
    | _ => p.modifyCycle op step
  | .implied op => p.idleReadThen (p.mapRegisters op.apply).finish
  | .store op => .write p.operand.address (op.value p.registers) p.finish
  | .branch _ => p.branchCycle step
  | .jmp => p.jmpCycle step
  | .jsr => p.jsrCycle step
  | .rts => p.rtsCycle step
  | .rti => p.rtiCycle step
  | .pha => p.pushCycle p.registers.a step
  | .php => p.pushCycle (p.registers.status.pushed true) step
  | .pla => p.pullCycle (fun v r => r.loadA v) step
  | .plp => p.pullCycle (fun v r => { r with status := .pulled v }) step
  | .brk => p.brkCycle step
  | .hlt => .idle { p with phase := .halted }

/-- Ends an interrupt sequence.  The first instruction of the handler is fetched without looking at
    the latches. -/
def finishInterrupt (p : Processor) : Processor := { p with polls := false, phase := .fetch }

/-- Goes on to the given step of an interrupt sequence. -/
def interruptNext (p : Processor) (kind : Interrupt) (step : Nat) : Processor :=
  { p with phase := .interrupt kind step }

/-- A push of an interrupt sequence.  A reset goes through the same steps but only reads. -/
def interruptPush (p : Processor) (kind : Interrupt) (data : UInt8) (step : Nat) : Cycle :=
  match kind with
  | .reset =>
    .read p.stackTop fun _ => (p.setSp (p.registers.sp - 1)).interruptNext kind step
  | _ => p.pushThen data fun p => p.interruptNext kind step

/-- One cycle of an interrupt sequence: two reads for nothing, three pushes, the vector. -/
def interruptCycle (p : Processor) (kind : Interrupt) (step : Nat) : Cycle :=
  let pc := p.registers.pc
  match step with
  | 0 => p.idleReadThen ((p.mapRegisters (·.setFlag .brk false)).interruptNext kind 1)
  | 1 => p.idleReadThen (p.interruptNext kind 2)
  | 2 => p.interruptPush kind (highByte pc) 3
  | 3 => p.interruptPush kind pc.toUInt8 4
  | 4 => p.interruptPush kind (p.registers.status.pushed false) 5
  | 5 =>
    .read kind.vector fun v =>
      { p.mapRegisters (·.setFlag .interruptDisable true) with data := v }.interruptNext kind 6
  | _ => .read (kind.vector + 1) fun v => (p.jumpTo (address p.data v)).finishInterrupt

end Famicom.Processor
