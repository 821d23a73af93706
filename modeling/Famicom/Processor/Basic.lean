/-
  The state of the processor between two cycles, and what one cycle may do.

  An instruction is carried out in phases: fetch the opcode, find the operand, execute.  A phase that
  takes several cycles counts its steps.  `Cycle` is what one cycle asks of the bus, with the
  processor that comes after it; that a cycle makes at most one access is thus a matter of its type.
-/
import Famicom.Processor.Instruction
import Famicom.Bus

namespace Famicom

/-- What breaks into a program between two instructions. -/
inductive Interrupt where
  | reset
  | nmi
  | irq
  deriving DecidableEq, Repr

/-- Where the address of an interrupt's handler is kept. -/
def Interrupt.vector : Interrupt → UInt16
  | nmi => 0xFFFA
  | reset => 0xFFFC
  | irq => 0xFFFE

/-- Where an operand was found. -/
structure Operand where
  address : UInt16 := 0
  /-- Whether adding the index, or the branch offset, carried into the high byte. -/
  pageCrossed : Bool := false
  /-- The operand itself where it is part of the instruction. -/
  value : Option UInt8 := none
  deriving DecidableEq, Repr, Inhabited

namespace Operand

/-- An operand in memory. -/
def atAddress (address : UInt16) : Operand := { address }

/-- An operand that is part of the instruction. -/
def immediate (value : UInt8) : Operand := { value := some value }

/-- The same operand with the high byte of its address put in. -/
def withHigh (o : Operand) (high : UInt8) : Operand :=
  { o with address := o.address ||| (high.toUInt16 <<< (8 : UInt16)) }

end Operand

/-- Whether two addresses lie in different pages of 256 bytes. -/
def pageCrossed (base target : UInt16) : Bool := base &&& 0xFF00 != target &&& 0xFF00

/-- The address made of two bytes. -/
def address (low high : UInt8) : UInt16 := low.toUInt16 ||| (high.toUInt16 <<< (8 : UInt16))

/-- The upper byte of an address. -/
def highByte (addr : UInt16) : UInt8 := (addr >>> 8).toUInt8

/-- What the processor is about to do. -/
inductive Phase where
  /-- Start an instruction, or an interrupt sequence if one is due. -/
  | fetch
  /-- Carry on with an interrupt sequence. -/
  | interrupt (kind : Interrupt) (step : Nat)
  /-- Find the operand. -/
  | operand (step : Nat)
  /-- Read the operand's address once before writing to it. -/
  | dummyRead
  /-- Carry out the instruction. -/
  | execute (step : Nat)
  /-- Wait for a reset. -/
  | halted
  deriving DecidableEq, Repr

/-- The processor. -/
structure Processor where
  registers : Registers
  /-- Cycles since power-on. -/
  cycles : UInt64
  phase : Phase
  /-- Whether interrupts are looked at before the next instruction. -/
  polls : Bool
  opcode : Opcode
  operand : Operand
  /-- A zero-page address that is being worked on. -/
  pointer : UInt8
  /-- A byte kept from one cycle to the next. -/
  data : UInt8
  /-- The vector that a software break is using. -/
  vector : UInt16
  resetLatch : Bool
  nmiLatch : Bool
  irqLatch : Bool
  deriving DecidableEq, Repr

/-- The registers with the cycle count, as saved and loaded from outside. -/
structure Snapshot where
  registers : Registers
  cycles : UInt64
  deriving DecidableEq, Repr

/-- What one processor cycle does. -/
inductive Cycle where
  /-- Reads a byte; what comes next may depend on it. -/
  | read (addr : UInt16) (next : UInt8 → Processor)
  /-- Writes a byte. -/
  | write (addr : UInt16) (data : UInt8) (next : Processor)
  /-- Leaves the bus alone. -/
  | idle (next : Processor)

namespace Processor

/-- The processor at power-on, about to fetch, with no interrupt latched. -/
def new : Processor where
  registers := {}
  cycles := 0
  phase := .fetch
  polls := true
  opcode := decode 0
  operand := {}
  pointer := 0
  data := 0
  vector := Interrupt.irq.vector
  resetLatch := false
  nmiLatch := false
  irqLatch := false

/-- Latches a reset. -/
def requestReset (p : Processor) : Processor := { p with resetLatch := true }

/-- Latches a non-maskable interrupt. -/
def requestNmi (p : Processor) : Processor := { p with nmiLatch := true }

/-- Latches an interrupt. -/
def requestIrq (p : Processor) : Processor := { p with irqLatch := true }

/-- Whether the next cycle starts an instruction, or none since the processor is halted. -/
def atBoundary (p : Processor) : Bool :=
  match p.phase with
  | .fetch | .halted => true
  | _ => false

/-- Whether the processor waits for a reset. -/
def isHalted (p : Processor) : Bool := p.phase == .halted

/-- What is saved of a processor. -/
def snapshot (p : Processor) : Snapshot := ⟨p.registers, p.cycles⟩

/-- Loads what was saved.  The instruction under way is dropped; latched interrupts stay. -/
def restore (p : Processor) (s : Snapshot) : Processor :=
  { p with
    registers := { s.registers with status := s.registers.status.set .unused true }
    cycles := s.cycles
    polls := true
    phase := .fetch }

/-- Applies a change to the registers. -/
def mapRegisters (p : Processor) (f : Registers → Registers) : Processor :=
  { p with registers := f p.registers }

/-- Sets the program counter. -/
def jumpTo (p : Processor) (addr : UInt16) : Processor :=
  { p with registers := { p.registers with pc := addr } }

/-- Moves the program counter past the byte just read. -/
def advancePc (p : Processor) : Processor := p.jumpTo (p.registers.pc + 1)

/-- Sets the stack pointer. -/
def setSp (p : Processor) (sp : UInt8) : Processor :=
  { p with registers := { p.registers with sp } }

/-- The address the stack pointer stands for. -/
def stackTop (p : Processor) : UInt16 := 0x0100 ||| p.registers.sp.toUInt16

/-- Ends the instruction. -/
def finish (p : Processor) : Processor := { p with phase := .fetch }

/-- Reads the byte at the program counter and moves past it. -/
def fetchThen (p : Processor) (next : UInt8 → Processor → Processor) : Cycle :=
  .read p.registers.pc fun v => next v p.advancePc

/-- Reads the byte at the program counter for nothing. -/
def idleReadThen (p : Processor) (next : Processor) : Cycle := .read p.registers.pc fun _ => next

/-- Writes a byte to the stack; the stack pointer goes down. -/
def pushThen (p : Processor) (data : UInt8) (next : Processor → Processor) : Cycle :=
  .write p.stackTop data (next (p.setSp (p.registers.sp - 1)))

end Processor

end Famicom
