/-
  The processor keeps to the schedule.

  An instruction has two halves.  `carries_locate` takes the processor from the opcode to the point
  where it executes (`Ready`), one lemma to an addressing mode; the modes that add an index share
  `carries_addIndex`.  After that there is one lemma to a class of instructions, and `carries_course`
  puts the halves together for every regular opcode.

  Within one lemma the processor is taken apart into its fields, so that each cycle computes; what is
  left are sums, `pc + 1 + 1` for `pc + 2`, and addresses put together from the bytes of others.

  Main statements: from a boundary with nothing latched (`AtStart`), a processor reaches the next
  boundary after exactly the accesses of the schedule, and is then as its outcome says
  (`schedule_ticks`); every tick makes one access (`schedule_log`).
-/
import Famicom.Proofs.Processor.Schedule

namespace Famicom

namespace Processor

open Script

section

variable {α γ : Type} {post : Processor → γ → Prop} {p q : Processor} {addr : UInt16} {data : UInt8}

/-! ## Carrying a schedule

  A schedule is carried from its front: the processor's next cycle makes the first access, and with each
  answer it may get it stands where the rest of the schedule begins. -/

/-- A cycle that reads carries the fetch with which a schedule begins, and the rest of the schedule is
    carried from there. -/
theorem Carries.fetch_bind {k : UInt8 → Script γ} {f : UInt8 → Processor}
    (hb : p.atBoundary = false) (hf : p.counted.cycle = .read addr f)
    (h : ∀ v, Carries post (k v) (f v)) : Carries post (fetch addr >>= k) p := ⟨hb, f, hf, h⟩

/-- Likewise a cycle that writes, and a store. -/
theorem Carries.store_bind {k : Unit → Script γ} (hb : p.atBoundary = false)
    (hq : p.counted.cycle = .write addr data q) (h : Carries post (k ()) q) :
    Carries post (store addr data >>= k) p := ⟨hb, q, hq, h⟩

/-- At the end of the schedule only the result is left to compare. -/
theorem Carries.pure {a : γ} (h : post p a) : Carries post (pure a) p := h

end

/-- The processor is about to execute an instruction whose operand it has found. -/
structure Ready (op : Opcode) (r : Registers) (p : Processor) (addr : UInt16) : Prop where
  phase : p.phase = .execute 0
  opcode : p.opcode = op
  registers : p.registers = { r with pc := r.pc + op.mode.size }
  address : p.operand.address = addr
  noNmi : p.nmiLatch = false

/-- The processor has read the opcode of an instruction and is about to find its operand. -/
structure Opened (op : Opcode) (r : Registers) (p : Processor) : Prop where
  phase : p.phase = .operand 0
  opcode : p.opcode = op
  registers : p.registers = { r with pc := r.pc + 1 }
  noNmi : p.nmiLatch = false

/-- Finding the operand ends with execution, unless the instruction owes the extra read of an
    instruction that writes through an index. -/
theorem ready_operandFound {op : Opcode} {r : Registers} {p : Processor} {addr pc : UInt16}
    (hi : op.instruction.isBranch = false)
    (hd : (op.instruction.writesIndexed && op.mode.isIndexed && !p.operand.pageCrossed) = false)
    (ho : p.opcode = op) (hr : p.registers = { r with pc }) (hpc : pc = r.pc + op.mode.size)
    (ha : p.operand.address = addr) (hn : p.nmiLatch = false) : Ready op r p.operandFound addr := by
  subst ho hpc
  have h : p.operandFound = { p with phase := .execute 0 } := by
    unfold operandFound
    split
    next c hc => rw [hc] at hi; exact absurd hi (by simp [Instruction.isBranch])
    next => rw [hd]; rfl
  rw [h]
  exact ⟨rfl, rfl, hr, ha, hn⟩

/-- An instruction that writes through an index and met no carry reads its address once more. -/
theorem carries_operandFound {op : Opcode} {r : Registers} {p : Processor} {addr pc : UInt16}
    (hi : op.instruction.isBranch = false)
    (hd : (op.instruction.writesIndexed && op.mode.isIndexed && !p.operand.pageCrossed) = true)
    (ho : p.opcode = op) (hr : p.registers = { r with pc }) (hpc : pc = r.pc + op.mode.size)
    (ha : p.operand.address = addr) (hn : p.nmiLatch = false) :
    Carries (Ready op r) (fetch addr >>= fun _ => pure addr) p.operandFound := by
  subst ho ha hpc
  have h : p.operandFound = { p with phase := .dummyRead } := by
    unfold operandFound
    split
    next c hc => rw [hc] at hi; exact absurd hi (by simp [Instruction.isBranch])
    next => rw [hd]; rfl
  rw [h]
  exact .fetch_bind rfl rfl fun _ => .pure ⟨rfl, rfl, hr, rfl, hn⟩

theorem add_one_one (addr : UInt16) : addr + 1 + 1 = addr + 2 := by grind

theorem add_one_one_one (addr : UInt16) : addr + 1 + 1 + 1 = addr + 3 := by grind

variable {i : Instruction} {r : Registers} {p : Processor} {w : Bool}

/-- The processor finds an operand in the zero page as the schedule does. -/
theorem carries_zeroPage (hi : i.isBranch = false) (hp : Opened ⟨i, .zeroPage⟩ r p) :
    Carries (Ready ⟨i, .zeroPage⟩ r) (r.locate w .zeroPage) p := by
  obtain ⟨registers, cycles, phase, polls, opcode, operand, pointer, data, vector, _, nmi, _⟩ := p
  obtain ⟨rfl, rfl, rfl, rfl⟩ := hp
  refine .fetch_bind rfl rfl fun v => .pure ?_
  exact ready_operandFound hi (by simp [AddressingMode.isIndexed]) rfl rfl (add_one_one _) rfl rfl

/-- With an index it reads once at the place without the index. -/
theorem carries_zeroPageIndexed {m : AddressingMode} (hm : m = .zeroPageX ∨ m = .zeroPageY)
    (hi : i.isBranch = false) (hp : Opened ⟨i, m⟩ r p) :
    Carries (Ready ⟨i, m⟩ r) (r.locate w m) p := by
  obtain ⟨registers, cycles, phase, polls, opcode, operand, pointer, data, vector, _, nmi, _⟩ := p
  obtain ⟨rfl, rfl, rfl, rfl⟩ := hp
  rcases hm with rfl | rfl
  all_goals
    refine .fetch_bind rfl rfl fun v => .fetch_bind rfl rfl fun _ => .pure ?_
    exact ready_operandFound hi (by simp [AddressingMode.isIndexed]) rfl rfl (add_one_one _) rfl rfl

/-- An absolute operand takes two bytes of the program. -/
theorem carries_absolute (hi : i.isBranch = false) (hp : Opened ⟨i, .absolute⟩ r p) :
    Carries (Ready ⟨i, .absolute⟩ r) (r.locate w .absolute) p := by
  obtain ⟨registers, cycles, phase, polls, opcode, operand, pointer, data, vector, _, nmi, _⟩ := p
  obtain ⟨rfl, rfl, rfl, rfl⟩ := hp
  show Carries _ (fetch (r.pc + 1) >>= fun _ => fetch (r.pc + 2) >>= fun _ => _) _
  rw [← add_one_one]
  refine .fetch_bind rfl rfl fun v => .fetch_bind rfl rfl fun _ => .pure ?_
  exact ready_operandFound hi (by simp [AddressingMode.isIndexed]) rfl rfl (add_one_one_one _) rfl rfl

/-- The pointer of an indexed indirect operand is found in the zero page, with the index. -/
theorem carries_indexedIndirect (hi : i.isBranch = false) (hp : Opened ⟨i, .indexedIndirect⟩ r p) :
    Carries (Ready ⟨i, .indexedIndirect⟩ r) (r.locate w .indexedIndirect) p := by
  obtain ⟨registers, cycles, phase, polls, opcode, operand, pointer, data, vector, _, nmi, _⟩ := p
  obtain ⟨rfl, rfl, rfl, rfl⟩ := hp
  refine .fetch_bind rfl rfl fun v => .fetch_bind rfl rfl fun _ => .fetch_bind rfl rfl fun low =>
    .fetch_bind rfl rfl fun high => .pure ?_
  exact ready_operandFound hi (by simp [AddressingMode.isIndexed]) rfl rfl (add_one_one _) rfl rfl

/-- Where the address would be without the carry into its high byte. -/
theorem uncarried_eq {low high index : UInt8} (h : carries low index = true) :
    ((address low high + index.toUInt16 - 0x0100) &&& 0xFF00) |||
      ((address low high + index.toUInt16) &&& 0x00FF) = address (low + index) high := by
  have hl := low.toNat_lt
  have hh := high.toNat_lt
  have hi := index.toNat_lt
  have h255 : 255 < low.toNat + index.toNat := by simpa [carries] using h
  have ht : (address low high + index.toUInt16).toNat =
      (low.toNat + high.toNat * 256 + index.toNat) % 2 ^ 16 := by
    rw [UInt16.toNat_add, address_toNat, UInt8.toNat_toUInt16]
  apply joined_eq
  · rw [UInt16.toNat_sub, ht]
    show (2 ^ 16 - 256 + _) % 2 ^ 16 / 256 = _
    omega
  · rw [ht, UInt8.toNat_add]
    omega

/-- The read before the carry is at the sum within the page. -/
theorem readUncarried_eq {low high index : UInt8} (h : carries low index = true)
    (ha : p.operand.address = address low high + index.toUInt16) :
    p.readUncarried = .read (address (low + index) high) fun _ => p.operandFound := by
  unfold readUncarried
  rw [ha]
  dsimp only
  rw [uncarried_eq h]

/-- An index that carries is told from one that does not. -/
theorem addIndex_eq {low high index : UInt8} {step : Nat}
    (ha : p.operand = .atAddress (address low high)) :
    p.addIndex step index =
      if carries low index then
        { p with
          operand := { address := address low high + index.toUInt16, pageCrossed := true }
          phase := .operand (step + 1) }
      else
        operandFound
          { p with operand := { address := address low high + index.toUInt16 } } := by
  simp only [addIndex, ha, Operand.atAddress, pageCrossed_index]

/-- Adding an index, from the moment the address without it is known. -/
theorem carries_addIndex {op : Opcode} {low high index : UInt8} {step : Nat} {pc : UInt16}
    (hi : op.instruction.isBranch = false) (hm : op.mode.isIndexed = true)
    (hw : op.instruction.writesIndexed = w)
    (hc : ∀ q : Processor, q.opcode = op → q.phase = .operand (step + 1) →
      q.counted.cycle = q.counted.readUncarried)
    (ho : p.opcode = op) (hr : p.registers = { r with pc }) (hpc : pc = r.pc + op.mode.size)
    (ha : p.operand = .atAddress (address low high)) (hn : p.nmiLatch = false) :
    Carries (Ready op r) (indexed w low high index) (p.addIndex step index) := by
  rw [addIndex_eq ha]
  unfold indexed
  cases hcarry : carries low index with
  | true =>
    rw [if_pos rfl, if_pos rfl]
    refine .fetch_bind rfl ((hc _ (by exact ho) rfl).trans (readUncarried_eq hcarry rfl)) fun _ => ?_
    exact .pure (ready_operandFound hi (Bool.and_false _) ho hr hpc rfl hn)
  | false =>
    rw [if_neg Bool.false_ne_true, if_neg Bool.false_ne_true]
    -- without a carry only an instruction that writes reads the address once more
    cases w with
    | true => exact carries_operandFound hi (by simp [hw, hm]) ho hr hpc rfl hn
    | false => exact .pure (ready_operandFound hi (by simp [hw]) ho hr hpc rfl hn)

/-- An indexed operand is read at the wrong page first if the index carries, or if the instruction
    writes. -/
theorem carries_absoluteIndexed {m : AddressingMode} (hm : m = .absoluteX ∨ m = .absoluteY)
    (hi : i.isBranch = false) (hw : i.writesIndexed = w) (hp : Opened ⟨i, m⟩ r p) :
    Carries (Ready ⟨i, m⟩ r) (r.locate w m) p := by
  obtain ⟨registers, cycles, phase, polls, opcode, operand, pointer, data, vector, _, nmi, _⟩ := p
  obtain ⟨rfl, rfl, rfl, rfl⟩ := hp
  rcases hm with rfl | rfl
  all_goals
    show Carries _ (fetch (r.pc + 1) >>= fun _ => fetch (r.pc + 2) >>= fun _ => _) _
    rw [← add_one_one]
    refine .fetch_bind rfl rfl fun low => .fetch_bind rfl rfl fun high => ?_
    refine carries_addIndex hi rfl hw (fun q ho hq => ?_) rfl rfl (add_one_one_one _) rfl rfl
    cases q; cases ho; cases hq; rfl

/-- The same with a pointer from the zero page. -/
theorem carries_indirectIndexed (hi : i.isBranch = false) (hw : i.writesIndexed = w)
    (hp : Opened ⟨i, .indirectIndexed⟩ r p) :
    Carries (Ready ⟨i, .indirectIndexed⟩ r) (r.locate w .indirectIndexed) p := by
  obtain ⟨registers, cycles, phase, polls, opcode, operand, pointer, data, vector, _, nmi, _⟩ := p
  obtain ⟨rfl, rfl, rfl, rfl⟩ := hp
  refine .fetch_bind rfl rfl fun v => .fetch_bind rfl rfl fun low => .fetch_bind rfl rfl fun high => ?_
  refine carries_addIndex hi rfl hw (fun q ho hq => ?_) rfl rfl (add_one_one _) rfl rfl
  cases q; cases ho; cases hq; rfl

/-- Finding the operand, in every mode that leaves an address in memory. -/
theorem carries_locate {m : AddressingMode} (hi : i.isBranch = false)
    (hw : m.isIndexed = true → i.writesIndexed = w) (hm : m.inMemory = true)
    (hp : Opened ⟨i, m⟩ r p) : Carries (Ready ⟨i, m⟩ r) (r.locate w m) p := by
  cases m with
  | zeroPage => exact carries_zeroPage hi hp
  | zeroPageX => exact carries_zeroPageIndexed (.inl rfl) hi hp
  | zeroPageY => exact carries_zeroPageIndexed (.inr rfl) hi hp
  | absolute => exact carries_absolute hi hp
  | absoluteX => exact carries_absoluteIndexed (.inl rfl) hi (hw rfl) hp
  | absoluteY => exact carries_absoluteIndexed (.inr rfl) hi (hw rfl) hp
  | indexedIndirect => exact carries_indexedIndirect hi hp
  | indirectIndexed => exact carries_indirectIndexed hi (hw rfl) hp
  | implied | accumulator | immediate | relative | indirect => exact absurd hm (by decide)

/-! ## Executing

  One lemma to a class of instructions, from the point where the operand is found.  Each takes the
  processor apart into its fields once, and follows its cycles. -/

/-- The instruction has ended as an outcome says. -/
structure Ended (p : Processor) (o : Outcome) : Prop where
  registers : p.registers = o.registers
  boundary : p.atBoundary = true
  halted : p.isHalted = o.halted

variable {m : AddressingMode} {addr : UInt16}

/-- An instruction that reads a byte from memory ends with that read. -/
theorem readCycle_eq {o : ReadOp} (hm : p.opcode.mode.inMemory = true) :
    p.readCycle o = .read p.operand.address fun v => (p.mapRegisters (o.apply v)).finish := by
  unfold readCycle
  cases h : p.opcode.mode <;> first | rfl | (rw [h] at hm; exact absurd hm (by decide))

/-- A step of an instruction that modifies memory. -/
theorem cycle_modify (o : ModifyOp) (step : Nat) (hf : p.phase = .execute step)
    (ho : p.opcode.instruction = .modify o) (hm : p.opcode.mode.inMemory = true) :
    p.cycle = p.modifyCycle o step := by
  unfold cycle executeCycle
  rw [hf, ho]
  cases h : p.opcode.mode <;> first | rfl | (rw [h] at hm; exact absurd hm (by decide))

/-- What is left of a reading instruction is one read. -/
theorem carries_read {o : ReadOp} (hm : m.inMemory = true) (hp : Ready ⟨.read o, m⟩ r p addr) :
    Carries Ended (fetch addr >>= fun value =>
      pure { registers := o.apply value { r with pc := r.pc + m.size } }) p := by
  obtain ⟨registers, cycles, phase, polls, opcode, operand, pointer, data, vector, _, nmi, _⟩ := p
  obtain ⟨rfl, rfl, rfl, rfl, rfl⟩ := hp
  exact .fetch_bind rfl (readCycle_eq hm) fun v => .pure ⟨rfl, rfl, rfl⟩

/-- A modifying one reads, writes the byte back as it was, and writes the new one. -/
theorem carries_modify {o : ModifyOp} (hm : m.inMemory = true)
    (hp : Ready ⟨.modify o, m⟩ r p addr) :
    Carries Ended (do
      let value ← fetch addr
      store addr value
      store addr (o.apply value { r with pc := r.pc + m.size }).1
      pure { registers := (o.apply value { r with pc := r.pc + m.size }).2 }) p := by
  obtain ⟨registers, cycles, phase, polls, opcode, operand, pointer, data, vector, _, nmi, _⟩ := p
  obtain ⟨rfl, rfl, rfl, rfl, rfl⟩ := hp
  refine .fetch_bind rfl (cycle_modify o 0 rfl rfl hm) fun v => ?_
  refine .store_bind rfl (cycle_modify o 1 rfl rfl hm) ?_
  refine .store_bind rfl (cycle_modify o 2 rfl rfl hm) ?_
  exact .pure ⟨rfl, rfl, rfl⟩

/-- A storing one writes once. -/
theorem carries_store {o : StoreOp} (hp : Ready ⟨.store o, m⟩ r p addr) :
    Carries Ended (store addr (o.value r) >>= fun _ =>
      pure { registers := { r with pc := r.pc + m.size } }) p := by
  obtain ⟨registers, cycles, phase, polls, opcode, operand, pointer, data, vector, _, nmi, _⟩ := p
  obtain ⟨rfl, rfl, rfl, rfl, rfl⟩ := hp
  have hv : o.value { r with pc := r.pc + m.size } = o.value r := by cases o <;> rfl
  rw [← hv]
  exact .store_bind rfl rfl (.pure ⟨rfl, rfl, rfl⟩)

/-- A call looks at the stack, pushes the return address and reads the second byte of its target. -/
theorem carries_jsr (hp : Ready ⟨.jsr, .absolute⟩ r p addr) :
    Carries Ended (do
      let _ ← fetch (stackAddress r.sp)
      store (stackAddress r.sp) (highByte (r.pc + 2))
      store (stackAddress (r.sp - 1)) (r.pc + 2).toUInt8
      pure { registers := { r with pc := addr, sp := r.sp - 2 } }) p := by
  obtain ⟨registers, cycles, phase, polls, opcode, operand, pointer, data, vector, _, nmi, _⟩ := p
  obtain ⟨rfl, rfl, rfl, rfl, rfl⟩ := hp
  rw [show r.pc + 2 = r.pc + 3 - 1 by grind, show r.sp - 2 = r.sp - 1 - 1 by grind]
  refine .fetch_bind rfl rfl fun _ => .store_bind rfl rfl (.store_bind rfl rfl (.pure ?_))
  exact ⟨rfl, rfl, rfl⟩

/-- The processor has read an opcode that has no operand and is about to execute it. -/
theorem carries_implied {o : ImpliedOp} (hp : Opened ⟨.implied o, .implied⟩ r p) :
    Carries Ended (r.course ⟨.implied o, .implied⟩) p := by
  obtain ⟨registers, cycles, phase, polls, opcode, operand, pointer, data, vector, _, nmi, _⟩ := p
  obtain ⟨rfl, rfl, rfl, rfl⟩ := hp
  exact .fetch_bind rfl rfl fun _ => .pure ⟨rfl, rfl, rfl⟩

/-- On the accumulator the byte after the opcode is read and left. -/
theorem carries_accumulator {o : ModifyOp} (hp : Opened ⟨.modify o, .accumulator⟩ r p) :
    Carries Ended (r.course ⟨.modify o, .accumulator⟩) p := by
  obtain ⟨registers, cycles, phase, polls, opcode, operand, pointer, data, vector, _, nmi, _⟩ := p
  obtain ⟨rfl, rfl, rfl, rfl⟩ := hp
  exact .fetch_bind rfl rfl fun _ => .pure ⟨rfl, rfl, rfl⟩

theorem carries_immediate {o : ReadOp} (hp : Opened ⟨.read o, .immediate⟩ r p) :
    Carries Ended (r.course ⟨.read o, .immediate⟩) p := by
  obtain ⟨registers, cycles, phase, polls, opcode, operand, pointer, data, vector, _, nmi, _⟩ := p
  obtain ⟨rfl, rfl, rfl, rfl⟩ := hp
  refine .fetch_bind rfl rfl fun v => .pure ⟨?_, rfl, rfl⟩
  show o.apply v { r with pc := r.pc + 1 + 1 } = _
  rw [add_one_one]; rfl

/-- So it is by an instruction that does nothing. -/
theorem carries_nop (hp : Opened ⟨.read .nop, .implied⟩ r p) :
    Carries Ended (r.course ⟨.read .nop, .implied⟩) p := by
  obtain ⟨registers, cycles, phase, polls, opcode, operand, pointer, data, vector, _, nmi, _⟩ := p
  obtain ⟨rfl, rfl, rfl, rfl⟩ := hp
  exact .fetch_bind rfl rfl fun _ => .pure ⟨rfl, rfl, rfl⟩

/-- A return pulls the address and steps over the byte it points to. -/
theorem carries_rts (hp : Opened ⟨.rts, .implied⟩ r p) :
    Carries Ended (r.course ⟨.rts, .implied⟩) p := by
  obtain ⟨registers, cycles, phase, polls, opcode, operand, pointer, data, vector, _, nmi, _⟩ := p
  obtain ⟨rfl, rfl, rfl, rfl⟩ := hp
  unfold Registers.course
  dsimp only
  rw [show r.sp + 2 = r.sp + 1 + 1 by grind]
  refine .fetch_bind rfl rfl fun _ => .fetch_bind rfl rfl fun _ => .fetch_bind rfl rfl fun low => ?_
  -- the state so far is written out, or each later cycle would be found by computing it anew
  dsimp only [counted, executeNext, jumpTo, mapRegisters, setSp]
  refine .fetch_bind rfl rfl fun high => .fetch_bind rfl rfl fun _ => .pure ⟨rfl, rfl, rfl⟩

/-- A return from an interrupt pulls the status first. -/
theorem carries_rti (hp : Opened ⟨.rti, .implied⟩ r p) :
    Carries Ended (r.course ⟨.rti, .implied⟩) p := by
  obtain ⟨registers, cycles, phase, polls, opcode, operand, pointer, data, vector, _, nmi, _⟩ := p
  obtain ⟨rfl, rfl, rfl, rfl⟩ := hp
  unfold Registers.course
  dsimp only
  rw [show r.sp + 3 = r.sp + 1 + 1 + 1 by grind, show r.sp + 2 = r.sp + 1 + 1 by grind]
  refine .fetch_bind rfl rfl fun _ => .fetch_bind rfl rfl fun _ => .fetch_bind rfl rfl fun status => ?_
  dsimp only [counted, executeNext, jumpTo, mapRegisters, setSp]
  refine .fetch_bind rfl rfl fun low => .fetch_bind rfl rfl fun high => .pure ⟨rfl, rfl, rfl⟩

theorem carries_push (hi : i = .pha ∨ i = .php) (hp : Opened ⟨i, .implied⟩ r p) :
    Carries Ended (r.course ⟨i, .implied⟩) p := by
  obtain ⟨registers, cycles, phase, polls, opcode, operand, pointer, data, vector, _, nmi, _⟩ := p
  obtain ⟨rfl, rfl, rfl, rfl⟩ := hp
  rcases hi with rfl | rfl
  all_goals exact .fetch_bind rfl rfl fun _ => .store_bind rfl rfl (.pure ⟨rfl, rfl, rfl⟩)

theorem carries_pull (hi : i = .pla ∨ i = .plp) (hp : Opened ⟨i, .implied⟩ r p) :
    Carries Ended (r.course ⟨i, .implied⟩) p := by
  obtain ⟨registers, cycles, phase, polls, opcode, operand, pointer, data, vector, _, nmi, _⟩ := p
  obtain ⟨rfl, rfl, rfl, rfl⟩ := hp
  rcases hi with rfl | rfl
  all_goals
    exact .fetch_bind rfl rfl fun _ => .fetch_bind rfl rfl fun _ => .fetch_bind rfl rfl fun value =>
      .pure ⟨rfl, rfl, rfl⟩

/-- A software break pushes address and status and goes through the vector. -/
theorem carries_brk (hp : Opened ⟨.brk, .implied⟩ r p) :
    Carries Ended (r.course ⟨.brk, .implied⟩) p := by
  obtain ⟨registers, cycles, phase, polls, opcode, operand, pointer, data, vector, _, nmi, _⟩ := p
  obtain ⟨rfl, rfl, rfl, rfl⟩ := hp
  unfold Registers.course
  dsimp only
  rw [show r.sp - 3 = r.sp - 1 - 1 - 1 by grind, show r.sp - 2 = r.sp - 1 - 1 by grind,
    ← add_one_one r.pc]
  refine .fetch_bind rfl rfl fun _ => ?_
  dsimp only [counted, executeNext, advancePc, jumpTo, mapRegisters, setSp, Registers.setFlag]
  refine .store_bind rfl rfl ?_
  dsimp only [counted, executeNext, advancePc, jumpTo, mapRegisters, setSp, Registers.setFlag]
  refine .store_bind rfl rfl ?_
  dsimp only [counted, executeNext, advancePc, jumpTo, mapRegisters, setSp, Registers.setFlag]
  refine .store_bind rfl rfl ?_
  dsimp only [counted, executeNext, advancePc, jumpTo, mapRegisters, setSp, Registers.setFlag]
  refine .fetch_bind rfl rfl fun low => ?_
  dsimp only [counted, executeNext, advancePc, jumpTo, mapRegisters, setSp, Registers.setFlag]
  refine .fetch_bind rfl rfl fun high => ?_
  exact .pure ⟨rfl, rfl, rfl⟩

/-! ## Branches and jumps

  A branch is taken or not, and to the same page or another; the schedule asks the same questions, in the
  same order. -/

/-- The address a branch reads from on its way to another page: the new offset in the old page. -/
theorem unfixed_eq (pc target : UInt16) :
    (pc &&& 0xFF00) ||| (target &&& 0x00FF) = address target.toUInt8 (highByte pc) := by
  have h := pc.toNat_lt
  apply joined_eq
  · rw [highByte, UInt16.toNat_toUInt8, UInt16.toNat_shiftRight]
    show _ = pc.toNat >>> 8 % 256
    rw [Nat.shiftRight_eq_div_pow]
    omega
  · rw [UInt16.toNat_toUInt8]

/-- What a branch does once its offset is read. -/
theorem operandFound_branch {c : Condition} (hi : p.opcode.instruction = .branch c) :
    p.operandFound =
      if c.holds p.registers.status then { p with phase := .execute 0 } else p.finish := by
  unfold operandFound
  rw [hi]

/-- A branch taken to another page has one more read before it. -/
theorem branchCycle_far {offset : UInt8} {pc target : UInt16} (hv : p.operand.value = some offset)
    (hp : p.registers.pc = pc) (ht : pc + branchOffset offset = target)
    (hx : pageCrossed pc target = true) :
    p.branchCycle 0 = .read pc fun _ =>
      { p with
        operand := { p.operand with address := target, pageCrossed := true }
        phase := .execute 1 } := by
  subst hp ht
  unfold branchCycle
  dsimp only
  rw [hv]
  dsimp only [Option.getD]
  rw [if_pos hx]
  rfl

/-- A branch taken within the page ends there. -/
theorem branchCycle_near {offset : UInt8} {pc target : UInt16} (hv : p.operand.value = some offset)
    (hp : p.registers.pc = pc) (ht : pc + branchOffset offset = target)
    (hx : ¬ pageCrossed pc target = true) :
    p.branchCycle 0 = .read pc fun _ =>
      finish (jumpTo { p with operand := { p.operand with address := target } } target) := by
  subst hp ht
  unfold branchCycle
  dsimp only
  rw [hv]
  dsimp only [Option.getD]
  rw [if_neg hx]
  rfl

/-- A branch that is taken costs one more read, and one more than that where it leaves the page. -/
theorem carries_branch {c : Condition} (hp : Opened ⟨.branch c, .relative⟩ r p) :
    Carries Ended (r.course ⟨.branch c, .relative⟩) p := by
  obtain ⟨registers, cycles, phase, polls, opcode, operand, pointer, data, vector, _, nmi, _⟩ := p
  obtain ⟨rfl, rfl, rfl, rfl⟩ := hp
  unfold Registers.course
  dsimp only
  rw [← add_one_one r.pc]
  refine .fetch_bind rfl rfl fun offset => ?_
  dsimp only [counted, advancePc, jumpTo]
  rw [operandFound_branch rfl]
  cases c.holds r.status with
  | false =>
    exact .pure ⟨congrArg (fun pc => { r with pc }) (add_one_one r.pc), rfl, rfl⟩
  | true =>
    rw [if_pos rfl, if_pos rfl]
    by_cases hx : pageCrossed (r.pc + 1 + 1) (r.pc + 1 + 1 + branchOffset offset) = true
    · -- on the way to another page the branch stops at the same offset of its own
      rw [if_pos hx]
      refine .fetch_bind rfl (branchCycle_far rfl rfl rfl hx) fun _ => ?_
      rw [← unfixed_eq]
      exact .fetch_bind rfl rfl fun _ => .pure ⟨rfl, rfl, rfl⟩
    · rw [if_neg hx]
      exact .fetch_bind rfl (branchCycle_near rfl rfl rfl hx) fun _ => .pure ⟨rfl, rfl, rfl⟩

/-- A jump ends as soon as its target is read. -/
theorem carries_jmp {m : AddressingMode} (hm : m = .absolute ∨ m = .indirect)
    (hf : p.phase = .execute 0) (ho : p.opcode = ⟨.jmp, m⟩)
    (hr : p.registers = { r with pc := r.pc + 1 }) : Carries Ended (r.course ⟨.jmp, m⟩) p := by
  obtain ⟨registers, cycles, phase, polls, opcode, operand, pointer, data, vector, _, nmi, _⟩ := p
  cases hf; cases ho; cases hr
  rcases hm with rfl | rfl
  · show Carries _ (fetch (r.pc + 1) >>= fun _ => fetch (r.pc + 2) >>= fun _ => _) _
    rw [← add_one_one]
    exact .fetch_bind rfl rfl fun low => .fetch_bind rfl rfl fun high => .pure ⟨rfl, rfl, rfl⟩
  · show Carries _ (fetch (r.pc + 1) >>= fun low => fetch (r.pc + 2) >>= fun high =>
      fetch (address low high) >>= fun _ => fetch (address (low + 1) high) >>= fun _ => _) _
    rw [← add_one_one]
    refine .fetch_bind rfl rfl fun low => .fetch_bind rfl rfl fun high => ?_
    dsimp only [counted, executeNext, advancePc, jumpTo]
    refine .fetch_bind rfl rfl fun targetLow => ?_
    rw [← samePage_succ]
    exact .fetch_bind rfl rfl fun targetHigh => .pure ⟨rfl, rfl, rfl⟩

/-! ## A whole instruction -/

/-- After the opcode is read, every instruction goes its documented course. -/
theorem carries_course {op : Opcode} (hop : op.Regular = true)
    (hf : p.phase = phaseAfter op.instruction) (ho : p.opcode = op)
    (hr : p.registers = { r with pc := r.pc + 1 }) (hn : p.nmiLatch = false) :
    Carries Ended (r.course op) p := by
  obtain ⟨i, m⟩ := op
  cases i with
  | read o =>
    have hp : Opened ⟨.read o, m⟩ r p := ⟨hf, ho, hr, hn⟩
    have hm : (m.inMemory = true ∨ m = .immediate) ∨ m = .implied ∧ o = .nop := by
      simpa [Opcode.Regular] using hop
    rcases hm with (hm | rfl) | ⟨rfl, rfl⟩
    · exact (carries_locate rfl (fun _ => rfl) hm hp).bind fun q addr hq => carries_read hm hq
    · exact carries_immediate hp
    · exact carries_nop hp
  | modify o =>
    have hp : Opened ⟨.modify o, m⟩ r p := ⟨hf, ho, hr, hn⟩
    have hm : m.inMemory = true ∨ m = .accumulator := by simpa [Opcode.Regular] using hop
    rcases hm with hm | rfl
    · have hne : m ≠ .accumulator := by rintro rfl; exact absurd hm (by decide)
      unfold Registers.course
      dsimp only
      rw [if_neg hne]
      exact (carries_locate rfl (fun _ => rfl) hm hp).bind fun q addr hq => carries_modify hm hq
    · exact carries_accumulator hp
  | implied o =>
    obtain rfl : m = .implied := by simpa [Opcode.Regular] using hop
    exact carries_implied ⟨hf, ho, hr, hn⟩
  | store o =>
    have hm : m.inMemory = true ∧ (m.isIndexed = false ∨ o = .sta) := by
      simpa [Opcode.Regular] using hop
    have hw : m.isIndexed = true → (Instruction.store o).writesIndexed = true := by
      intro hx
      rcases hm.2 with h | rfl
      · rw [h] at hx; exact absurd hx (by decide)
      · rfl
    exact (carries_locate rfl hw hm.1 ⟨hf, ho, hr, hn⟩).bind fun q addr hq => carries_store hq
  | branch c =>
    obtain rfl : m = .relative := by simpa [Opcode.Regular] using hop
    exact carries_branch ⟨hf, ho, hr, hn⟩
  | jmp =>
    have hm : m = .absolute ∨ m = .indirect := by simpa [Opcode.Regular] using hop
    exact carries_jmp hm hf ho hr
  | jsr =>
    obtain rfl : m = .absolute := by simpa [Opcode.Regular] using hop
    exact (carries_absolute (w := false) rfl ⟨hf, ho, hr, hn⟩).bind fun q addr hq => carries_jsr hq
  | hlt =>
    obtain rfl : m = .implied := by simpa [Opcode.Regular] using hop
    refine .pure ⟨hr, ?_, ?_⟩
    · rw [atBoundary, hf]; rfl
    · rw [isHalted, hf]; rfl
  | rts =>
    obtain rfl : m = .implied := by simpa [Opcode.Regular] using hop
    exact carries_rts ⟨hf, ho, hr, hn⟩
  | rti =>
    obtain rfl : m = .implied := by simpa [Opcode.Regular] using hop
    exact carries_rti ⟨hf, ho, hr, hn⟩
  | pha =>
    obtain rfl : m = .implied := by simpa [Opcode.Regular] using hop
    exact carries_push (.inl rfl) ⟨hf, ho, hr, hn⟩
  | php =>
    obtain rfl : m = .implied := by simpa [Opcode.Regular] using hop
    exact carries_push (.inr rfl) ⟨hf, ho, hr, hn⟩
  | pla =>
    obtain rfl : m = .implied := by simpa [Opcode.Regular] using hop
    exact carries_pull (.inl rfl) ⟨hf, ho, hr, hn⟩
  | plp =>
    obtain rfl : m = .implied := by simpa [Opcode.Regular] using hop
    exact carries_pull (.inr rfl) ⟨hf, ho, hr, hn⟩
  | brk =>
    obtain rfl : m = .implied := by simpa [Opcode.Regular] using hop
    exact carries_brk ⟨hf, ho, hr, hn⟩

/-! ## From boundary to boundary -/

/-- The processor stands between two instructions, and no interrupt is latched. -/
structure AtStart (p : Processor) : Prop where
  phase : p.phase = .fetch
  noReset : p.resetLatch = false
  noNmi : p.nmiLatch = false
  noIrq : p.irqLatch = false

/-- At the start of an instruction no interrupt is due. -/
theorem poll_of_atStart (h : AtStart p) : p.poll = (none, { p with polls := true }) := by
  obtain ⟨registers, cycles, phase, polls, opcode, operand, pointer, data, vector, _, _, _⟩ := p
  obtain ⟨hf, hr, hn, hi⟩ := h
  dsimp only at hf hr hn hi
  subst hf hr hn hi
  cases polls <;> rfl

/-- From a boundary with nothing latched, the opcode is read and the instruction goes its course. -/
theorem carries_schedule (h : AtStart p) :
    ∃ f, p.counted.cycle = .read p.registers.pc f ∧
      ∀ opcode, Carries Ended (p.registers.course (decode opcode)) (f opcode) := by
  refine ⟨fun opcode =>
    { ({ p.counted with polls := true } : Processor).advancePc with
      opcode := decode opcode
      operand := {}
      phase := phaseAfter (decode opcode).instruction }, ?_, ?_⟩
  · have hpoll : p.counted.poll = (none, { p.counted with polls := true }) :=
      poll_of_atStart ⟨h.phase, h.noReset, h.noNmi, h.noIrq⟩
    unfold cycle
    rw [show p.counted.phase = .fetch from h.phase, hpoll]
    rfl
  · intro opcode
    exact carries_course (decode_regular opcode) rfl rfl rfl h.noNmi

section

variable {β : Type} [Bus β]

/-- After as many ticks as the schedule has accesses the processor is back at a boundary, with the
    registers and the bus that the schedule gives. -/
theorem schedule_ticks (h : AtStart p) (bus : β) :
    ReachesBoundary p bus (p.registers.schedule.accesses bus).length ∧
      Ended (ticks (p.registers.schedule.accesses bus).length (p, bus)).1
        (p.registers.schedule.run bus).1 ∧
      (ticks (p.registers.schedule.accesses bus).length (p, bus)).2 =
        (p.registers.schedule.run bus).2 := by
  obtain ⟨f, hf, hs⟩ := carries_schedule h
  have ht : (p.tick bus).2 = (f (Bus.read bus p.registers.pc).1, (Bus.read bus p.registers.pc).2) := by
    rw [tick_of_read hf]
  obtain ⟨hin, hend, hbus⟩ :=
    (hs (Bus.read bus p.registers.pc).1).ticks_eq (Bus.read bus p.registers.pc).2
  rw [← ht] at hin hend hbus
  refine ⟨⟨Nat.succ_pos _, ?_, hend.boundary⟩, hend, hbus⟩
  intro k hpos hk
  cases k with
  | zero => exact absurd hpos (Nat.lt_irrefl 0)
  | succ k => exact hin k (Nat.lt_of_succ_lt_succ hk)

/-- The accesses on the way are those of the schedule, in order. -/
theorem schedule_log (h : AtStart p) (bus : β) (log : List Access) (k : Nat)
    (hk : k ≤ (p.registers.schedule.accesses bus).length) :
    (ticks k (p, (⟨bus, log⟩ : Recorded β))).2.accesses =
      ((p.registers.schedule.accesses bus).take k).reverse ++ log := by
  obtain ⟨f, hf, hs⟩ := carries_schedule h
  cases k with
  | zero => rfl
  | succ k =>
    have ih := (hs (Bus.read bus p.registers.pc).1).log_ticks (Bus.read bus p.registers.pc).2
      (⟨.read, p.registers.pc, (Bus.read bus p.registers.pc).1⟩ :: log) k
      (Nat.le_of_succ_le_succ hk)
    show (ticks k (p.tick (⟨bus, log⟩ : Recorded β)).2).2.accesses = _
    rw [tick_of_read hf]
    have hcons : p.registers.schedule.accesses bus =
        ⟨.read, p.registers.pc, (Bus.read bus p.registers.pc).1⟩ ::
          (p.registers.course (decode (Bus.read bus p.registers.pc).1)).accesses
            (Bus.read bus p.registers.pc).2 := rfl
    rw [hcons, List.take_succ_cons, List.reverse_cons, List.append_assoc]
    exact ih

end

end Processor

end Famicom
