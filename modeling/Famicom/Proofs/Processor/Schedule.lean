/-
  The bus schedule of every instruction.

  `Registers.schedule` is the documented course of an instruction as a script: the opcode, the bytes
  after it, the reads by which its addressing mode comes to an address (`Registers.locate`), and what
  the instruction does there (`Registers.course`).  It knows no phases and no steps: it is read from
  the top, as a table of the processor's accesses is.

  1. **Regularity** (`Opcode.Regular`): each kind of instruction comes with few modes; of the stores
     only that of the accumulator is indexed.  All 256 opcodes are regular (`decode_regular`), so a
     proof about schedules can go by the instruction and have its modes, without the table at hand.
  2. **Addresses as numbers**: those that a processor puts together on its way, with the index but
     without its carry, with the new offset in the old page (`joined_eq`, `pageCrossed_index`,
     `samePage_succ`).
-/
import Famicom.Proofs.Processor.Script
import Famicom.Proofs.Words

namespace Famicom

/-- Bytes of an instruction with the given mode. -/
def AddressingMode.size : AddressingMode → UInt16
  | implied | accumulator => 1
  | absolute | absoluteX | absoluteY | indirect => 3
  | _ => 2

/-- The mode finds a byte in memory, by an address that the instruction gives. -/
def AddressingMode.inMemory : AddressingMode → Bool
  | zeroPage | zeroPageX | zeroPageY | absolute | absoluteX | absoluteY | indexedIndirect
  | indirectIndexed => true
  | _ => false

/-- The modes an instruction is found with.  Only the accumulator is stored through an index. -/
def Opcode.Regular (op : Opcode) : Bool :=
  match op.instruction with
  | .read o => op.mode.inMemory || op.mode = .immediate || (op.mode = .implied && o = .nop)
  | .modify _ => op.mode.inMemory || op.mode = .accumulator
  | .store o => op.mode.inMemory && (!op.mode.isIndexed || o = .sta)
  | .branch _ => op.mode = .relative
  | .jmp => op.mode = .absolute || op.mode = .indirect
  | .jsr => op.mode = .absolute
  | _ => op.mode = .implied

theorem decode_regular (opcode : UInt8) : (decode opcode).Regular = true := by
  revert opcode
  exact forall_byte (by decide +kernel)

/-- What an instruction leaves. -/
structure Outcome where
  registers : Registers
  halted : Bool := false
  deriving DecidableEq, Repr

/-- The place on the stack that a stack pointer stands for. -/
def stackAddress (sp : UInt8) : UInt16 := 0x0100 ||| sp.toUInt16

/-- Adding an index to a low byte carries into the high byte. -/
def carries (low index : UInt8) : Bool := 255 < low.toNat + index.toNat

open Script Processor

/-- An address with an index added.  A carry takes an extra read, where the address would be without
    it; instructions that write take the extra read in any case. -/
def indexed (writes : Bool) (low high index : UInt8) : Script UInt16 :=
  let target := address low high + index.toUInt16
  if carries low index then do
    let _ ← fetch (address (low + index) high)
    return target
  else if writes then do
    let _ ← fetch target
    return target
  else return target

namespace Registers

/-- The reads by which an addressing mode comes to the address of the operand, for an instruction that
    stands at the program counter. -/
def locate (r : Registers) (writes : Bool) : AddressingMode → Script UInt16
  | .zeroPage => do
    let addr ← fetch (r.pc + 1)
    return addr.toUInt16
  | .zeroPageX => do
    let base ← fetch (r.pc + 1)
    let _ ← fetch base.toUInt16
    return (base + r.x).toUInt16
  | .zeroPageY => do
    let base ← fetch (r.pc + 1)
    let _ ← fetch base.toUInt16
    return (base + r.y).toUInt16
  | .absolute => do
    let low ← fetch (r.pc + 1)
    let high ← fetch (r.pc + 2)
    return address low high
  | .absoluteX => do
    let low ← fetch (r.pc + 1)
    let high ← fetch (r.pc + 2)
    indexed writes low high r.x
  | .absoluteY => do
    let low ← fetch (r.pc + 1)
    let high ← fetch (r.pc + 2)
    indexed writes low high r.y
  | .indexedIndirect => do
    let base ← fetch (r.pc + 1)
    let _ ← fetch base.toUInt16
    let low ← fetch (base + r.x).toUInt16
    let high ← fetch (base + r.x + 1).toUInt16
    return address low high
  | .indirectIndexed => do
    let pointer ← fetch (r.pc + 1)
    let low ← fetch pointer.toUInt16
    let high ← fetch (pointer + 1).toUInt16
    indexed writes low high r.y
  | .indirect => do
    let low ← fetch (r.pc + 1)
    let high ← fetch (r.pc + 2)
    let targetLow ← fetch (address low high)
    let targetHigh ← fetch (address (low + 1) high)
    return address targetLow targetHigh
  -- the byte after the opcode, which the instruction itself reads, for nothing if it is no operand
  | .immediate | .implied | .accumulator | .relative => return r.pc + 1

/-- What an instruction does after its opcode was read, which stands at the program counter. -/
def course (r : Registers) (op : Opcode) : Script Outcome :=
  let after := { r with pc := r.pc + op.mode.size }
  match op.instruction with
  | .read o => do
    let addr ← r.locate false op.mode
    let value ← fetch addr
    return { registers := o.apply value after }
  | .modify o =>
    if op.mode = .accumulator then do
      let _ ← fetch (r.pc + 1)
      return { registers := { (o.apply r.a after).2 with a := (o.apply r.a after).1 } }
    else do
      let addr ← r.locate true op.mode
      let value ← fetch addr
      store addr value
      store addr (o.apply value after).1
      return { registers := (o.apply value after).2 }
  | .implied o => do
    let _ ← fetch (r.pc + 1)
    return { registers := o.apply after }
  | .store o => do
    let addr ← r.locate true op.mode
    store addr (o.value r)
    return { registers := after }
  | .branch condition => do
    let offset ← fetch (r.pc + 1)
    let target := r.pc + 2 + branchOffset offset
    if condition.holds r.status then
      let _ ← fetch (r.pc + 2)
      if pageCrossed (r.pc + 2) target then
        let _ ← fetch (address target.toUInt8 (highByte (r.pc + 2)))
        return { registers := { r with pc := target } }
      else return { registers := { r with pc := target } }
    else return { registers := after }
  | .jmp => do
    let target ← r.locate false op.mode
    return { registers := { r with pc := target } }
  | .jsr => do
    let target ← r.locate false op.mode
    let _ ← fetch (stackAddress r.sp)
    store (stackAddress r.sp) (highByte (r.pc + 2))
    store (stackAddress (r.sp - 1)) (r.pc + 2).toUInt8
    return { registers := { r with pc := target, sp := r.sp - 2 } }
  | .rts => do
    let _ ← fetch (r.pc + 1)
    let _ ← fetch (stackAddress r.sp)
    let low ← fetch (stackAddress (r.sp + 1))
    let high ← fetch (stackAddress (r.sp + 2))
    let _ ← fetch (address low high)
    return { registers := { r with pc := address low high + 1, sp := r.sp + 2 } }
  | .rti => do
    let _ ← fetch (r.pc + 1)
    let _ ← fetch (stackAddress r.sp)
    let status ← fetch (stackAddress (r.sp + 1))
    let low ← fetch (stackAddress (r.sp + 2))
    let high ← fetch (stackAddress (r.sp + 3))
    return { registers := { r with
      pc := address low high, sp := r.sp + 3, status := .pulled status } }
  | .pha => do
    let _ ← fetch (r.pc + 1)
    store (stackAddress r.sp) r.a
    return { registers := { after with sp := r.sp - 1 } }
  | .php => do
    let _ ← fetch (r.pc + 1)
    store (stackAddress r.sp) (r.status.pushed true)
    return { registers := { after with sp := r.sp - 1 } }
  | .pla => do
    let _ ← fetch (r.pc + 1)
    let _ ← fetch (stackAddress r.sp)
    let value ← fetch (stackAddress (r.sp + 1))
    return { registers := { after with sp := r.sp + 1 }.loadA value }
  | .plp => do
    let _ ← fetch (r.pc + 1)
    let _ ← fetch (stackAddress r.sp)
    let value ← fetch (stackAddress (r.sp + 1))
    return { registers := { after with sp := r.sp + 1, status := .pulled value } }
  | .brk => do
    let _ ← fetch (r.pc + 1)
    let status := r.status.set .brk true
    store (stackAddress r.sp) (highByte (r.pc + 2))
    store (stackAddress (r.sp - 1)) (r.pc + 2).toUInt8
    store (stackAddress (r.sp - 2)) (status.pushed true)
    let low ← fetch Interrupt.irq.vector
    let high ← fetch (Interrupt.irq.vector + 1)
    return { registers := { r with
      pc := address low high, sp := r.sp - 3, status := status.set .interruptDisable true } }
  | .hlt => return { registers := after, halted := true }

/-- The whole schedule of the instruction at the program counter. -/
def schedule (r : Registers) : Script Outcome := do
  let opcode ← fetch r.pc
  r.course (decode opcode)

end Registers

/-! ## Addresses as numbers -/

theorem stackAddress_toNat (sp : UInt8) : (stackAddress sp).toNat = 0x0100 + sp.toNat := by
  have h := or_mul_two_pow (k := 8) 1 sp.toNat_lt
  rw [stackAddress, UInt16.toNat_or, UInt8.toNat_toUInt16, Nat.or_comm]
  exact h.trans (Nat.add_comm _ _)

theorem address_toNat (low high : UInt8) :
    (address low high).toNat = low.toNat + high.toNat * 256 := by
  have hl := low.toNat_lt
  have hh := high.toNat_lt
  simp only [address, UInt16.toNat_or, UInt16.toNat_shiftLeft, UInt8.toNat_toUInt16]
  show low.toNat ||| high.toNat <<< 8 % 2 ^ 16 = _
  rw [Nat.shiftLeft_eq, Nat.mod_eq_of_lt (by omega)]
  exact or_mul_two_pow (k := 8) high.toNat hl

theorem highPart_toNat (addr : UInt16) : (addr &&& 0xFF00).toNat = addr.toNat / 256 * 256 := by
  have h := addr.toNat_lt
  rw [UInt16.toNat_and, show (0xFF00 : UInt16).toNat = (2 ^ 8 - 1) * 2 ^ 8 from rfl, and_mask]
  omega

theorem lowPart_toNat (addr : UInt16) : (addr &&& 0x00FF).toNat = addr.toNat % 256 := by
  rw [UInt16.toNat_and]
  exact Nat.and_two_pow_sub_one_eq_mod addr.toNat 8

theorem pageCrossed_eq (base target : UInt16) :
    pageCrossed base target = decide (base.toNat / 256 ≠ target.toNat / 256) := by
  rw [pageCrossed, bne, Bool.eq_iff_iff]
  simp only [Bool.not_eq_true', beq_eq_false_iff_ne, decide_eq_true_eq, ne_eq]
  rw [← UInt16.toNat_inj, highPart_toNat, highPart_toNat]
  omega

/-- An index changes the page of an address exactly if it carries out of the low byte. -/
theorem pageCrossed_index (low high index : UInt8) :
    pageCrossed (address low high) (address low high + index.toUInt16) = carries low index := by
  have hl := low.toNat_lt
  have hh := high.toNat_lt
  have hi := index.toNat_lt
  rw [pageCrossed_eq, carries, UInt16.toNat_add, address_toNat, UInt8.toNat_toUInt16]
  congr 1
  apply propext
  omega

/-- The address under construction, put together from the two parts of other addresses. -/
theorem joined_eq (page offset : UInt16) (low high : UInt8)
    (hp : page.toNat / 256 = high.toNat) (ho : offset.toNat % 256 = low.toNat) :
    (page &&& 0xFF00) ||| (offset &&& 0x00FF) = address low high := by
  apply UInt16.toNat_inj.mp
  rw [UInt16.toNat_or, highPart_toNat, lowPart_toNat, address_toNat, hp, ho, Nat.or_comm]
  exact or_mul_two_pow (k := 8) high.toNat low.toNat_lt

/-- The address after another one, in the page of that one. -/
theorem samePage_succ (low high : UInt8) :
    (address low high &&& 0xFF00) ||| ((address low high + 1) &&& 0x00FF) =
      address (low + 1) high := by
  have hl := low.toNat_lt
  apply joined_eq
  · rw [address_toNat]; omega
  · rw [UInt16.toNat_add, address_toNat, UInt8.toNat_add]
    show (low.toNat + high.toNat * 256 + 1) % 2 ^ 16 % 256 = (low.toNat + 1) % 2 ^ 8
    omega

end Famicom
