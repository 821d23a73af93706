/-
  How long an instruction takes, and what it shows on the bus.

  1. **The table** (`cycleTable`): the cycles of every opcode of the 6502, without the extra ones.
     `extraCycles` are those: one for a page crossed by an index on the way to a read, one for a branch
     that is taken and one more if it leaves the page.
  2. **By class and mode** (`Opcode.cycles`, `length_course`): the schedule of an instruction is counted by
     its class and the reads of its mode.
  3. **Against the table** (`cycleTable_eq`): the counts are those of the table for all opcodes but
     seventeen.  The five unstable stores (`unstableStores`) run as NOPs of the same length and mode, which
     read where the 6502 stores, and owe no cycle for it; twelve opcodes (`jams`) halt in their own fetch,
     and the table has no count for them.

  Main statement: `accesses_eq_schedule`.  On every bus, whatever it answers, the accesses of the
  processor from one boundary to the next are those of `Registers.schedule`, one to a tick, and their
  number is that of the table with the extra cycles, one less for an unstable store, and one for a jam.
-/
import Famicom.Proofs.Processor.Simulation

namespace Famicom

/-- Cycles of every opcode of the 6502, in rows of sixteen.  An opcode that halts has no count. -/
def cycleTable : Vector (Vector Nat 16) 16 := #v[
  #v[7, 6, 0, 8, 3, 3, 5, 5, 3, 2, 2, 2, 4, 4, 6, 6],
  #v[2, 5, 0, 8, 4, 4, 6, 6, 2, 4, 2, 7, 4, 4, 7, 7],
  #v[6, 6, 0, 8, 3, 3, 5, 5, 4, 2, 2, 2, 4, 4, 6, 6],
  #v[2, 5, 0, 8, 4, 4, 6, 6, 2, 4, 2, 7, 4, 4, 7, 7],
  #v[6, 6, 0, 8, 3, 3, 5, 5, 3, 2, 2, 2, 3, 4, 6, 6],
  #v[2, 5, 0, 8, 4, 4, 6, 6, 2, 4, 2, 7, 4, 4, 7, 7],
  #v[6, 6, 0, 8, 3, 3, 5, 5, 4, 2, 2, 2, 5, 4, 6, 6],
  #v[2, 5, 0, 8, 4, 4, 6, 6, 2, 4, 2, 7, 4, 4, 7, 7],
  #v[2, 6, 2, 6, 3, 3, 3, 3, 2, 2, 2, 2, 4, 4, 4, 4],
  #v[2, 6, 0, 6, 4, 4, 4, 4, 2, 5, 2, 5, 5, 5, 5, 5],
  #v[2, 6, 2, 6, 3, 3, 3, 3, 2, 2, 2, 2, 4, 4, 4, 4],
  #v[2, 5, 0, 5, 4, 4, 4, 4, 2, 4, 2, 4, 4, 4, 4, 4],
  #v[2, 6, 2, 8, 3, 3, 5, 5, 2, 2, 2, 2, 4, 4, 6, 6],
  #v[2, 5, 0, 8, 4, 4, 6, 6, 2, 4, 2, 7, 4, 4, 7, 7],
  #v[2, 6, 2, 8, 3, 3, 5, 5, 2, 2, 2, 2, 4, 4, 6, 6],
  #v[2, 5, 0, 8, 4, 4, 6, 6, 2, 4, 2, 7, 4, 4, 7, 7]
]

/-- The opcodes that store through an index what no one can foretell.  Here they do nothing. -/
def unstableStores : List UInt8 := [0x93, 0x9B, 0x9C, 0x9E, 0x9F]

/-- The opcodes that halt the processor. -/
def jams : List UInt8 := [0x02, 0x12, 0x22, 0x32, 0x42, 0x52, 0x62, 0x72, 0x92, 0xB2, 0xD2, 0xF2]

/-- The cycles of an opcode without the extra ones. -/
def baseCycles (opcode : UInt8) : Nat :=
  have := opcode_row_lt opcode
  have := opcode_column_lt opcode
  cycleTable[opcode.toNat / 16][opcode.toNat % 16]

/-- An index carries into the high byte, by the bytes that went over the data lines since the opcode. -/
def AddressingMode.carriesOver (m : AddressingMode) (r : Registers) (data : List UInt8) : Bool :=
  match m with
  | absoluteX => carries (data.getD 1 0) r.x
  | absoluteY => carries (data.getD 1 0) r.y
  | indirectIndexed => carries (data.getD 2 0) r.y
  | _ => false

/-- The extra cycles of an instruction, by the registers it starts with and the bytes that went over the
    data lines, the opcode first. -/
def extraCycles (r : Registers) (data : List UInt8) : Nat :=
  let op := decode (data.getD 0 0)
  match op.instruction with
  | .branch c =>
    let target := r.pc + 2 + Processor.branchOffset (data.getD 1 0)
    if c.holds r.status then if pageCrossed (r.pc + 2) target then 2 else 1 else 0
  | .read _ => if op.mode.carriesOver r data then 1 else 0
  | _ => 0

/-- The reads a mode takes at the least to come to its address. -/
def AddressingMode.reads : AddressingMode → Nat
  | implied | accumulator | immediate => 0
  | zeroPage | relative => 1
  | zeroPageX | zeroPageY | absolute | absoluteX | absoluteY => 2
  | indirectIndexed => 3
  | indexedIndirect | indirect => 4

/-- The cycles of an instruction, by its class and its mode. -/
def Opcode.cycles (op : Opcode) : Nat :=
  let owed := if op.mode.isIndexed then 1 else 0
  match op.instruction with
  | .read _ => 2 + op.mode.reads
  | .modify _ => if op.mode = .accumulator then 2 else 4 + op.mode.reads + owed
  | .store _ => 2 + op.mode.reads + owed
  | .implied _ | .branch _ => 2
  | .jmp => 1 + op.mode.reads
  | .pha | .php => 3
  | .pla | .plp => 4
  | .jsr | .rts | .rti => 6
  | .brk => 7
  | .hlt => 1

/-- The table counts the cycles of every opcode but the unstable stores, which are counted for one more
    than they take, and those that halt, which take their fetch. -/
theorem cycleTable_eq (opcode : UInt8) :
    (opcode ∉ unstableStores → opcode ∉ jams → (decode opcode).cycles = baseCycles opcode) ∧
      (opcode ∈ unstableStores → (decode opcode).cycles + 1 = baseCycles opcode) ∧
      (opcode ∈ jams → (decode opcode).instruction = .hlt) := by
  revert opcode
  exact forall_byte (by decide +kernel)

section

variable {α γ β : Type} [Bus β]

/-- The accesses of two parts are those of the first and then of the second. -/
theorem Script.accesses_bind (s : Script α) (k : α → Script γ) (bus : β) :
    (s >>= k).accesses bus = s.accesses bus ++ (k (s.run bus).1).accesses (s.run bus).2 := by
  show (s.bind k).accesses bus = _
  induction s generalizing bus with
  | done a => rfl
  | read addr next ih => exact congrArg _ (ih _ _)
  | write addr data next ih => exact congrArg _ (ih _)

/-- A schedule that begins with a fetch has this access first. -/
theorem Script.accesses_fetch_bind (addr : UInt16) (k : UInt8 → Script γ) (bus : β) :
    (fetch addr >>= k).accesses bus = ⟨.read, addr, (Bus.read bus addr).1⟩ ::
      (k (Bus.read bus addr).1).accesses (Bus.read bus addr).2 := rfl

theorem Script.run_fetch_bind (addr : UInt16) (k : UInt8 → Script γ) (bus : β) :
    (fetch addr >>= k).run bus = (k (Bus.read bus addr).1).run (Bus.read bus addr).2 := rfl

/-- An index costs one access more if the instruction writes or the index carries. -/
theorem length_indexed (w : Bool) (low high index : UInt8) (bus : β) :
    ((indexed w low high index).accesses bus).length = if w || carries low index then 1 else 0 := by
  unfold indexed
  cases w <;> cases carries low index <;> rfl

/-- The reads that find an operand are those of the mode, and one for a carry, which instructions that
    write take in any case. -/
theorem length_locate (r : Registers) (w : Bool) {mode : AddressingMode} (hm : mode ≠ .relative)
    (bus : β) (opcode : UInt8) (rest : List UInt8) :
    ((r.locate w mode).accesses bus).length = mode.reads +
      if mode.isIndexed && (w || mode.carriesOver r
        (opcode :: (((r.locate w mode).accesses bus).map Access.data ++ rest))) then 1 else 0 := by
  cases mode with
  | relative => exact absurd rfl hm
  | absoluteX =>
    show ((indexed w _ _ r.x).accesses (_ : β)).length + 2 = _
    rw [length_indexed, Nat.add_comm]
    rfl
  | absoluteY =>
    show ((indexed w _ _ r.y).accesses (_ : β)).length + 2 = _
    rw [length_indexed, Nat.add_comm]
    rfl
  | indirectIndexed =>
    show ((indexed w _ _ r.y).accesses (_ : β)).length + 3 = _
    rw [length_indexed, Nat.add_comm]
    rfl
  | _ => rfl

/-- Which extra cycles there are is told by the class of the opcode. -/
theorem extraCycles_cons (r : Registers) {op : Opcode} {opcode : UInt8} (hd : decode opcode = op)
    (data : List UInt8) : extraCycles r (opcode :: data) = match op.instruction with
      | .branch c =>
        let target := r.pc + 2 + Processor.branchOffset (data.getD 0 0)
        if c.holds r.status then if pageCrossed (r.pc + 2) target then 2 else 1 else 0
      | .read _ => if op.mode.carriesOver r (opcode :: data) then 1 else 0
      | _ => 0 := by
  unfold extraCycles
  rw [show (opcode :: data).getD 0 0 = opcode from rfl, hd]
  rfl

/-- A branch fetches its offset.  If it is taken it reads once more, and again if it leaves the page. -/
theorem length_course_branch (r : Registers) (c : Condition) (bus : β) :
    let trace := (r.course ⟨.branch c, .relative⟩).accesses bus
    let target := r.pc + 2 + Processor.branchOffset ((trace.map Access.data).getD 0 0)
    trace.length = 1 +
      if c.holds r.status then if pageCrossed (r.pc + 2) target then 2 else 1 else 0 := by
  by_cases hc : c.holds r.status = true
  · simp only [Registers.course, hc, if_true, Script.accesses_fetch_bind, List.length_cons,
      List.map_cons, List.getD_cons_zero]
    by_cases hx : pageCrossed (r.pc + 2)
        (r.pc + 2 + Processor.branchOffset (Bus.read bus (r.pc + 1)).1) = true
    · simp only [hx, if_true]
      rfl
    · simp only [hx, if_false, Bool.false_eq_true]
      rfl
  · simp only [Registers.course, hc, if_false, Bool.false_eq_true]
    rfl

/-- The course of an instruction has as many accesses as its opcode takes cycles, less the fetch of the
    opcode. -/
theorem length_course (r : Registers) {op : Opcode} (hop : op.Regular = true) (opcode : UInt8)
    (hd : decode opcode = op) (bus : β) :
    ((r.course op).accesses bus).length + 1 = op.cycles +
      extraCycles r (opcode :: ((r.course op).accesses bus).map Access.data) := by
  rw [extraCycles_cons r hd]
  -- every course is that of finding the operand and a fixed number of accesses after it
  obtain ⟨i, mode⟩ := op
  have hmode : i.isBranch = false → mode ≠ .relative := by
    rintro hi rfl
    cases i <;> simp [Opcode.Regular, AddressingMode.inMemory, Instruction.isBranch] at hop hi
  have hindexed : mode.isIndexed = false → ∀ l, mode.carriesOver r l = false := by
    intro h l
    cases mode <;> first | rfl | exact absurd h (by decide)
  cases i with
  | read o =>
    have hacc : ∃ a, (r.course ⟨.read o, mode⟩).accesses bus =
        (r.locate false mode).accesses bus ++ [a] := ⟨_, Script.accesses_bind _ _ bus⟩
    obtain ⟨a, hacc⟩ := hacc
    have hl := length_locate r false (hmode rfl) bus opcode [a.data]
    simp only [hacc, List.length_append, List.map_append, List.length_singleton, List.map_cons,
      List.map_nil, Opcode.cycles, hl, Bool.false_or]
    cases hx : mode.isIndexed with
    | true => simp only [Bool.true_and]; omega
    | false => simp only [Bool.false_and, hindexed hx]; omega
  | modify o =>
    by_cases ha : mode = .accumulator
    · simp only [Registers.course, Opcode.cycles, ha, if_true]
      rfl
    · have hacc : ∃ a b c, (r.course ⟨.modify o, mode⟩).accesses bus =
          (r.locate true mode).accesses bus ++ [a, b, c] := by
        simp only [Registers.course, ha, if_false]
        exact ⟨_, _, _, Script.accesses_bind _ _ bus⟩
      obtain ⟨a, b, c, hacc⟩ := hacc
      have hl := length_locate r true (hmode rfl) bus opcode []
      simp only [hacc, List.length_append, List.length_cons, List.length_nil, Opcode.cycles, ha,
        if_false, hl, Bool.true_or, Bool.and_true]
      omega
  | store o =>
    have hacc : ∃ a, (r.course ⟨.store o, mode⟩).accesses bus =
        (r.locate true mode).accesses bus ++ [a] := ⟨_, Script.accesses_bind _ _ bus⟩
    obtain ⟨a, hacc⟩ := hacc
    have hl := length_locate r true (hmode rfl) bus opcode []
    simp only [hacc, List.length_append, List.length_singleton, Opcode.cycles, hl, Bool.true_or,
      Bool.and_true]
    omega
  | branch c =>
    obtain rfl : mode = .relative := by simpa [Opcode.Regular] using hop
    have hl := length_course_branch r c bus
    dsimp only [Opcode.cycles] at hl ⊢
    omega
  | jmp =>
    have hm : mode = .absolute ∨ mode = .indirect := by simpa [Opcode.Regular] using hop
    rcases hm with rfl | rfl <;> rfl
  | jsr =>
    obtain rfl : mode = .absolute := by simpa [Opcode.Regular] using hop
    rfl
  | implied | rts | rti | pha | php | pla | plp | brk | hlt => rfl

/-- A recording bus answers as the bus within does. -/
theorem Script.accesses_recorded (s : Script α) (bus : β) (log : List Access) :
    s.accesses (⟨bus, log⟩ : Recorded β) = s.accesses bus := by
  induction s generalizing bus log with
  | done a => rfl
  | read addr next ih => exact congrArg _ (ih _ _ _)
  | write addr data next ih => exact congrArg _ (ih _ _)

namespace Processor

/-- The accesses of an instruction are those of its schedule, one to a tick. -/
theorem ticks_accesses {p : Processor} (h : AtStart p) (bus : β) :
    let trace := p.registers.schedule.accesses bus
    ReachesBoundary p (⟨bus, []⟩ : Recorded β) trace.length ∧
      ∀ k ≤ trace.length, (ticks k (p, (⟨bus, []⟩ : Recorded β))).2.accesses.reverse = trace.take k := by
  have hbound := (schedule_ticks h (⟨bus, []⟩ : Recorded β)).1
  rw [Script.accesses_recorded] at hbound
  refine ⟨hbound, fun k hk => ?_⟩
  rw [schedule_log h bus [] k hk, List.append_nil, List.reverse_reverse]

/-- The accesses of an instruction, on every bus: those of its schedule, one to a tick, and as many as
    the cycle table has for its opcode with the extra cycles for crossed pages and taken branches.  Of the
    unstable stores they are one less, and of the opcodes that halt only the fetch. -/
theorem accesses_eq_schedule (p : Processor) (bus : β) (h : AtStart p) :
    let opcode := (Bus.read bus p.registers.pc).1
    let trace := p.registers.schedule.accesses bus
    let counted := baseCycles opcode + extraCycles p.registers (trace.map Access.data)
    (ReachesBoundary p (⟨bus, []⟩ : Recorded β) trace.length ∧
      ∀ k ≤ trace.length,
        (ticks k (p, (⟨bus, []⟩ : Recorded β))).2.accesses.reverse = trace.take k) ∧
    (opcode ∉ unstableStores → opcode ∉ jams → trace.length = counted) ∧
    (opcode ∈ unstableStores → trace.length + 1 = counted) ∧
    (opcode ∈ jams → trace = [⟨.read, p.registers.pc, opcode⟩]) := by
  intro opcode trace counted
  obtain ⟨hcounted, hstore, hjam⟩ := cycleTable_eq opcode
  have hlen : trace.length = (decode opcode).cycles +
      extraCycles p.registers (trace.map Access.data) :=
    length_course _ (decode_regular _) _ rfl _
  refine ⟨ticks_accesses h bus, fun hs hj => ?_, fun hs => ?_, fun hj => ?_⟩
  · rw [hlen, hcounted hs hj]
  · have hcycles := hstore hs
    show trace.length + 1 = baseCycles opcode + extraCycles p.registers (trace.map Access.data)
    omega
  · have hhalt : decode opcode = ⟨.hlt, (decode opcode).mode⟩ := by
      rw [← hjam hj]
    show (p.registers.schedule).accesses bus = _
    unfold Registers.schedule
    rw [Script.accesses_fetch_bind]
    show ⟨.read, p.registers.pc, opcode⟩ :: ((p.registers.course (decode opcode)).accesses _) = _
    rw [hhalt]
    rfl

/-- At power-on, in a memory of nothing but `$D0`: a branch that is taken back into another page. -/
theorem accesses_eq_schedule_branch :
    AtStart new ∧ ReachesBoundary new (⟨Memory.filled 0xD0, []⟩ : Recorded Memory) 4 ∧
      (ticks 4 (new, (⟨Memory.filled 0xD0, []⟩ : Recorded Memory))).2.accesses.reverse =
        [⟨.read, 0x0000, 0xD0⟩, ⟨.read, 0x0001, 0xD0⟩, ⟨.read, 0x0002, 0xD0⟩,
          ⟨.read, 0x00D2, 0xD0⟩] ∧
      4 = baseCycles 0xD0 + extraCycles new.registers [0xD0, 0xD0, 0xD0, 0xD0] := by
  have h : AtStart new := ⟨rfl, rfl, rfl, rfl⟩
  have hread : ∀ addr, Bus.read (Memory.filled 0xD0) addr = (0xD0, Memory.filled 0xD0) := by
    intro addr
    exact congrArg (·, Memory.filled 0xD0) (Memory.get_filled 0xD0 addr)
  have hop : decode 0xD0 = ⟨.branch .notEqual, .relative⟩ := rfl
  have htrace : new.registers.schedule.accesses (Memory.filled 0xD0) =
      [⟨.read, 0x0000, 0xD0⟩, ⟨.read, 0x0001, 0xD0⟩, ⟨.read, 0x0002, 0xD0⟩,
        ⟨.read, 0x00D2, 0xD0⟩] := by
    simp only [Registers.schedule, Script.accesses_fetch_bind, hread, hop, Registers.course]
    rfl
  have key := accesses_eq_schedule new (Memory.filled 0xD0) h
  simp only [htrace, hread] at key
  obtain ⟨⟨hbound, hlog⟩, hcounted, -, -⟩ := key
  exact ⟨h, hbound, hlog 4 (Nat.le_refl 4), hcounted (by decide) (by decide)⟩

/-- In a memory of nothing but `$9C`, an unstable store, whose table entry is 5: no index carries, and it
    takes 4 ticks, of which none writes. -/
theorem unstableStore_short :
    AtStart new ∧ ReachesBoundary new (⟨Memory.filled 0x9C, []⟩ : Recorded Memory) 4 ∧
      (ticks 4 (new, (⟨Memory.filled 0x9C, []⟩ : Recorded Memory))).2.accesses.reverse =
        [⟨.read, 0x0000, 0x9C⟩, ⟨.read, 0x0001, 0x9C⟩, ⟨.read, 0x0002, 0x9C⟩,
          ⟨.read, 0x9C9C, 0x9C⟩] ∧
      baseCycles 0x9C + extraCycles new.registers [0x9C, 0x9C, 0x9C, 0x9C] = 5 := by
  have h : AtStart new := ⟨rfl, rfl, rfl, rfl⟩
  have hread : ∀ addr, Bus.read (Memory.filled 0x9C) addr = (0x9C, Memory.filled 0x9C) := by
    intro addr
    exact congrArg (·, Memory.filled 0x9C) (Memory.get_filled 0x9C addr)
  have hop : decode 0x9C = ⟨.read .nop, .absoluteX⟩ := rfl
  have htrace : new.registers.schedule.accesses (Memory.filled 0x9C) =
      [⟨.read, 0x0000, 0x9C⟩, ⟨.read, 0x0001, 0x9C⟩, ⟨.read, 0x0002, 0x9C⟩,
        ⟨.read, 0x9C9C, 0x9C⟩] := by
    have hindexed : indexed false 0x9C 0x9C new.registers.x = .done 0x9C9C := rfl
    have hlocated : (new.registers.locate false .absoluteX).accesses (Memory.filled 0x9C) =
        [⟨.read, 0x0001, 0x9C⟩, ⟨.read, 0x0002, 0x9C⟩] ∧
        (new.registers.locate false .absoluteX).run (Memory.filled 0x9C) =
          (0x9C9C, Memory.filled 0x9C) := by
      unfold Registers.locate
      simp only [Script.accesses_fetch_bind, Script.run_fetch_bind, hread, hindexed]
      exact ⟨rfl, rfl⟩
    simp only [Registers.schedule, Script.accesses_fetch_bind, hread, hop, Registers.course]
    rw [Script.accesses_bind, hlocated.1, hlocated.2]
    simp only [Script.accesses_fetch_bind, hread]
    rfl
  have key := ticks_accesses h (Memory.filled 0x9C)
  simp only [htrace] at key
  exact ⟨h, key.1, key.2 4 (Nat.le_refl 4), by decide⟩

end Processor

end

end Famicom
