/-
  Finding the operand: the cycles each addressing mode spends before the instruction is executed.

  Zero-page arithmetic stays in page zero.  An index is added to the low byte first, so the carry into
  the high byte costs a cycle, in which the processor reads from the address without the carry.
  Implied, accumulator and indirect operands take no cycle of this phase; an immediate operand is read
  in the cycle that executes the instruction.
-/
import Famicom.Processor.Basic

namespace Famicom.Processor

/-- The phase after the operand was found: nothing more for a branch not taken, an extra read for an
    instruction that writes through an index and has not spent that cycle on a carry, else the
    execution. -/
def operandFound (p : Processor) : Processor :=
  match p.opcode.instruction with
  | .branch c => if c.holds p.registers.status then { p with phase := .execute 0 } else p.finish
  | i =>
    if i.writesIndexed && p.opcode.mode.isIndexed && !p.operand.pageCrossed then
      { p with phase := .dummyRead }
    else { p with phase := .execute 0 }

/-- Adds an index to the address just read.  A carry into the high byte takes one more cycle. -/
def addIndex (p : Processor) (step : Nat) (index : UInt8) : Processor :=
  let target := p.operand.address + index.toUInt16
  if pageCrossed p.operand.address target then
    { p with operand := { p.operand with address := target, pageCrossed := true }
             phase := .operand (step + 1) }
  else { p with operand := { p.operand with address := target } }.operandFound

/-- Reads where the address would be without the carry into its high byte. -/
def readUncarried (p : Processor) : Cycle :=
  let target := p.operand.address
  .read (((target - 0x0100) &&& 0xFF00) ||| (target &&& 0x00FF)) fun _ => p.operandFound

/-- Reads a zero-page pointer from the instruction. -/
def readPointer (p : Processor) : Cycle :=
  p.fetchThen fun v p => { p with pointer := v, phase := .operand 1 }

/-- Indexes the zero-page pointer, which takes a cycle that reads from it as it was. -/
def indexZeroPage (p : Processor) (index : UInt8) : Cycle :=
  .read p.pointer.toUInt16 fun _ =>
    { p with operand := .atAddress (p.pointer + index).toUInt16 }.operandFound

/-- Reads the low byte of the address that the pointer points to. -/
def readIndirectLow (p : Processor) (step : Nat) : Cycle :=
  .read p.pointer.toUInt16 fun v =>
    { p with operand := .atAddress v.toUInt16, phase := .operand (step + 1) }

/-- Reads the high byte of the address that the pointer points to. -/
def readIndirectHigh (p : Processor) (next : Processor → Processor) : Cycle :=
  .read (p.pointer + 1).toUInt16 fun v => next { p with operand := p.operand.withHigh v }

/-- Reads the low byte of an absolute address. -/
def readAbsoluteLow (p : Processor) : Cycle :=
  p.fetchThen fun v p => { p with operand := .atAddress v.toUInt16, phase := .operand 1 }

/-- Reads the high byte of an absolute address. -/
def readAbsoluteHigh (p : Processor) (next : Processor → Processor) : Cycle :=
  p.fetchThen fun v p => next { p with operand := p.operand.withHigh v }

/-- One cycle of finding the operand, in the modes that take cycles for it. -/
def operandCycle (p : Processor) (step : Nat) : Cycle :=
  match p.opcode.mode, step with
  | .implied, _ | .accumulator, _ | .indirect, _ | .immediate, _ => .idle p.operandFound
  | .relative, _ => p.fetchThen fun v p => { p with operand := .immediate v }.operandFound
  | .zeroPage, _ =>
    p.fetchThen fun v p => { p with operand := .atAddress v.toUInt16 }.operandFound
  | .zeroPageX, 0 | .zeroPageY, 0 | .indexedIndirect, 0 | .indirectIndexed, 0 => p.readPointer
  | .zeroPageX, _ => p.indexZeroPage p.registers.x
  | .zeroPageY, _ => p.indexZeroPage p.registers.y
  | .absolute, 0 | .absoluteX, 0 | .absoluteY, 0 => p.readAbsoluteLow
  | .absolute, _ => p.readAbsoluteHigh operandFound
  | .absoluteX, 1 => p.readAbsoluteHigh fun p => p.addIndex 1 p.registers.x
  | .absoluteY, 1 => p.readAbsoluteHigh fun p => p.addIndex 1 p.registers.y
  | .absoluteX, _ | .absoluteY, _ => p.readUncarried
  | .indexedIndirect, 1 =>
    .read p.pointer.toUInt16 fun _ =>
      { p with pointer := p.pointer + p.registers.x, phase := .operand 2 }
  | .indexedIndirect, 2 => p.readIndirectLow 2
  | .indexedIndirect, _ => p.readIndirectHigh operandFound
  | .indirectIndexed, 1 => p.readIndirectLow 1
  | .indirectIndexed, 2 => p.readIndirectHigh fun p => p.addIndex 2 p.registers.y
  | .indirectIndexed, _ => p.readUncarried

end Famicom.Processor
