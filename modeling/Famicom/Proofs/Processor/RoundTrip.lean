/-
  There and back: interrupts, breaks, subroutines and the stack.

  What one instruction pushes another pulls, each in several cycles of its own, with the return address
  a byte short in one pair and exact in the other, and the status pushed in two ways.

  1. **The stack** (`Memory.pushes`): bytes pushed one below the other, around the page if need be.  They
     are read back where they were pushed (`stack_pushes`), and nothing else changes (`get_pushes`).
  2. **The status** (`Status.returned`): pushed in whatever way and pulled again, it has the break bit
     clear and the unused bit set (`pulled_pushed`).
  3. **Legs** (`Arrives`): from one boundary to the next, in so many ticks.  An instruction is a leg by
     its semantics (`AtStart.arrives`), an interrupt by its course (`Interrupted.arrives`).  A leg that
     pushes and a leg that only pulls are a trip (`Arrives.comesBack`).
  4. **The trips** (`round_trips`): interrupt and return, break and return, subroutine and return,
     status and accumulator pushed and pulled.
-/
import Famicom.Proofs.Processor.InterruptSequence
import Famicom.Proofs.Processor.Semantics
import Famicom.Proofs.Processor.Snapshot
import Famicom.Proofs.Processor.Timing

namespace Famicom

open Script Processor

/-! ## The stack -/

/-- The places on the stack that `n` pushes write, from a stack pointer on. -/
def stackBytes (sp : UInt8) : Nat → List UInt16
  | 0 => []
  | n + 1 => stackAddress sp :: stackBytes (sp - 1) n

theorem stackAddress_inj {s t : UInt8} (h : stackAddress s = stackAddress t) : s = t := by
  have hn := congrArg UInt16.toNat h
  rw [stackAddress_toNat, stackAddress_toNat] at hn
  exact UInt8.toNat_inj.mp (Nat.add_left_cancel hn)

/-- The pushes that follow do not come around to a place within 256 bytes. -/
theorem stackAddress_notMem {sp : UInt8} {k n : Nat} (hk : 0 < k) (hn : k + n ≤ 256) :
    stackAddress sp ∉ stackBytes (sp - UInt8.ofNat k) n := by
  induction n generalizing k with
  | zero => exact List.not_mem_nil
  | succ n ih =>
    have hne : sp ≠ sp - UInt8.ofNat k := by
      intro h
      have hz : UInt8.ofNat k = 0 := by grind
      have hk' : k % 256 = 0 := congrArg UInt8.toNat hz
      omega
    have hnext : sp - UInt8.ofNat k - 1 = sp - UInt8.ofNat (k + 1) := by
      rw [UInt8.ofNat_add]
      grind
    intro h
    rcases List.mem_cons.mp h with h | h
    · exact hne (stackAddress_inj h)
    · rw [hnext] at h
      exact ih (Nat.succ_pos k) (by omega) h

namespace Memory

/-- Memory after some bytes are pushed. -/
def pushes (m : Memory) (sp : UInt8) : List UInt8 → Memory
  | [] => m
  | v :: rest => (m.push sp v).pushes (sp - 1) rest

/-- Pushes change nothing but the bytes they write. -/
theorem get_pushes (m : Memory) (sp : UInt8) (values : List UInt8) {addr : UInt16}
    (h : addr ∉ stackBytes sp values.length) : (m.pushes sp values).get addr = m.get addr := by
  induction values generalizing m sp with
  | nil => rfl
  | cons v rest ih =>
    have hne : stackAddress sp ≠ addr := fun e => h (List.mem_cons.mpr (.inl e.symm))
    have hrest := ih (m.push sp v) (sp - 1) fun hr => h (List.mem_cons_of_mem _ hr)
    exact hrest.trans (m.get_set_of_ne v hne)

/-- What was pushed is found where it was pushed. -/
theorem stack_pushes (m : Memory) (sp : UInt8) {values : List UInt8} (hn : values.length ≤ 256)
    {k : Nat} (hk : k < values.length) :
    (m.pushes sp values).stack (sp - UInt8.ofNat k) = values[k] := by
  induction values generalizing m sp k with
  | nil => cases hk
  | cons v rest ih =>
    rw [List.length_cons] at hn hk
    cases k with
    | zero =>
      have hkept : (m.pushes sp (v :: rest)).stack sp = (m.push sp v).stack sp :=
        get_pushes _ (sp - 1) rest (stackAddress_notMem (k := 1) Nat.one_pos (by omega))
      rw [show sp - UInt8.ofNat 0 = sp by grind, hkept]
      exact m.get_set_self _ v
    | succ k =>
      have hsp : sp - UInt8.ofNat (k + 1) = sp - 1 - UInt8.ofNat k := by
        rw [UInt8.ofNat_add]
        grind
      rw [hsp]
      exact ih (m.push sp v) (sp - 1) (by omega) (by omega)

/-- From where the pushes left the stack pointer, the bytes are found upwards, the last one first. -/
theorem stack_pushes_above (m : Memory) {sp low : UInt8} {values : List UInt8}
    (hn : values.length ≤ 256) (hlow : low = sp - UInt8.ofNat values.length) {k : Nat}
    (hk : k < values.length) :
    (m.pushes sp values).stack (low + UInt8.ofNat (values.length - k)) = values[k] := by
  have hplace : low + UInt8.ofNat (values.length - k) = sp - UInt8.ofNat k := by
    have hsum : UInt8.ofNat values.length = UInt8.ofNat (values.length - k) + UInt8.ofNat k := by
      rw [← UInt8.ofNat_add, Nat.sub_add_cancel (Nat.le_of_lt hk)]
    rw [hlow, hsum]
    grind
  rw [hplace]
  exact m.stack_pushes sp hn hk

end Memory

/-! ## Addresses and the status, in bytes -/

theorem address_of_bytes (pc : UInt16) : address pc.toUInt8 (highByte pc) = pc := by
  have h := pc.toNat_lt
  apply UInt16.toNat_inj.mp
  rw [address_toNat, highByte, UInt16.toNat_toUInt8, UInt16.toNat_toUInt8, UInt16.toNat_shiftRight]
  show pc.toNat % 256 + pc.toNat >>> 8 % 256 * 256 = _
  rw [Nat.shiftRight_eq_div_pow]
  omega

/-- The status after it is pushed and pulled. -/
def Status.returned (s : Status) : Status := (s.set .brk false).set .unused true

theorem Status.pulled_pushed (s : Status) (brk : Bool) : Status.pulled (s.pushed brk) = s.returned := by
  have h : ∀ (brk : Bool) (bits : UInt8),
      Status.pulled ((⟨bits⟩ : Status).pushed brk) = (⟨bits⟩ : Status).returned := by
    intro brk
    cases brk with
    | false => exact forall_byte (by decide +kernel)
    | true => exact forall_byte (by decide +kernel)
  exact h brk s.bits

/-- The break bit of the byte that is pushed does not come from the status. -/
theorem Status.pushed_set_brk (s : Status) (on brk : Bool) : (s.set .brk on).pushed brk = s.pushed brk := by
  have h : ∀ (on brk : Bool) (bits : UInt8),
      ((⟨bits⟩ : Status).set .brk on).pushed brk = (⟨bits⟩ : Status).pushed brk := by
    intro on brk
    cases on with
    | false =>
      cases brk with
      | false => exact forall_byte (by decide +kernel)
      | true => exact forall_byte (by decide +kernel)
    | true =>
      cases brk with
      | false => exact forall_byte (by decide +kernel)
      | true => exact forall_byte (by decide +kernel)
  exact h on brk s.bits

namespace Processor

variable {p : Processor} {m m' : Memory} {r : Registers} {n k : Nat}

/-! ## Legs -/

/-- The processor comes to its next boundary in `n` ticks, to start an instruction there. -/
structure Arrives (p : Processor) (m : Memory) (n : Nat) (r : Registers) (m' : Memory) : Prop where
  bound : ReachesBoundary p m n
  start : AtStart (ticks n (p, m)).1
  registers : (ticks n (p, m)).1.registers = r
  memory : (ticks n (p, m)).2 = m'

theorem atStart_iff : AtStart p ↔ p.phase = .fetch ∧ p.Unlatched := by
  constructor
  · intro h
    exact ⟨h.phase, by rw [Unlatched, latches, h.noReset, h.noNmi, h.noIrq]⟩
  · rintro ⟨hp, hl⟩
    exact ⟨hp, congrArg Latches.reset hl, congrArg Latches.nmi hl, congrArg Latches.irq hl⟩

/-- A tick latches nothing. -/
theorem Unlatched.tick {β : Type} [Bus β] (h : p.Unlatched) (bus : β) : (p.tick bus).2.1.Unlatched := by
  have hn : p.nmiLatch = false := congrArg Latches.nmi h
  rw [Unlatched, (p.tick_ticked bus).latches, counted_latchesAfter, latchesAfter,
    show p.latches = ⟨false, false, false⟩ from h, hn]
  cases p.phase with
  | fetch => cases p.polls <;> rfl
  | halted => rfl
  | interrupt kind step | operand step | dummyRead | execute step =>
    dsimp only
    rw [Bool.and_false]

theorem Unlatched.ticks {β : Type} [Bus β] (h : p.Unlatched) (bus : β) (n : Nat) :
    (ticks n (p, bus)).1.Unlatched := by
  induction n generalizing p bus with
  | zero => exact h
  | succ n ih => exact ih (h.tick bus) (p.tick bus).2.2

theorem ticks_add {β : Type} [Bus β] (n k : Nat) (s : Processor × β) :
    ticks (n + k) s = ticks k (ticks n s) := by
  induction n generalizing s with
  | zero => rw [Nat.zero_add]; rfl
  | succ n ih =>
    rw [Nat.succ_add]
    exact ih _

/-- The instruction takes the same time wherever it stands and whatever it finds. -/
def fixedTime : Instruction → Bool
  | .read _ | .branch _ => false
  | _ => true

theorem extraCycles_of_fixedTime {opcode : UInt8} (h : fixedTime (decode opcode).instruction = true)
    (r : Registers) (l : List UInt8) : extraCycles r (opcode :: l) = 0 := by
  unfold extraCycles
  rw [List.getD_cons_zero]
  generalize decode opcode = op at h ⊢
  obtain ⟨i, mode⟩ := op
  cases i with
  | read o | branch c => cases h
  | _ => rfl

/-- An instruction is a leg. -/
theorem AtStart.arrives {op : Opcode} (h : AtStart p) (hop : decode (m.get p.registers.pc) = op)
    (hf : fixedTime op.instruction = true)
    (he : p.registers.execute m = ({ registers := r }, m')) : Arrives p m op.cycles r m' := by
  subst hop
  obtain ⟨hb, hend, hm⟩ := schedule_ticks h m
  have hlength : (p.registers.schedule.accesses m).length = (decode (m.get p.registers.pc)).cycles :=
    (length_course p.registers (decode_regular _) _ rfl m).trans
      (congrArg (_ + ·) (extraCycles_of_fixedTime hf p.registers _))
  rw [schedule_run, he, hlength] at hend hm
  rw [hlength] at hb
  have hphase := phase_of_boundary hend.boundary hend.halted
  have hl := (atStart_iff.mp h).2.ticks m (decode (m.get p.registers.pc)).cycles
  exact ⟨hb, atStart_iff.mpr ⟨hphase, hl⟩, hend.registers, hm⟩

/-- A steady processor keeps to its script if nothing is requested. -/
theorem Steady.carries {α : Type} {post : α → Processor → Prop} {s : Script α} (h : Steady post s p) :
    Carries (fun q a => post a q) s p := by
  induction s generalizing p with
  | done a => exact h p.latches
  | read addr next ih =>
    obtain ⟨hb, hl⟩ := h
    obtain ⟨f, hf, hn⟩ := hl p.latches
    exact ⟨hb, f, hf, fun v => ih v (hn v)⟩
  | write addr data next ih =>
    obtain ⟨hb, hl⟩ := h
    obtain ⟨q, hq, hn⟩ := hl p.latches
    exact ⟨hb, q, hq, ih hn⟩

/-- A processor that begins a script comes to where it ends, and to no boundary before. -/
theorem Begins.ticks_eq {α β : Type} [Bus β] {post : α → Processor → Prop} {s : Script α}
    (h : Begins post s p) (bus : β) :
    0 < (s.accesses bus).length ∧
      (∀ k, 0 < k → k < (s.accesses bus).length → (ticks k (p, bus)).1.atBoundary = false) ∧
      post (s.run bus).1 (ticks (s.accesses bus).length (p, bus)).1 ∧
      (ticks (s.accesses bus).length (p, bus)).2 = (s.run bus).2 := by
  -- after the first access the processor is inside the script and carries the rest of it
  cases s with
  | done a => cases h
  | read addr next =>
    obtain ⟨f, hf, hn⟩ := h
    obtain ⟨hin, hend, hbus⟩ :=
      (hn (Bus.read bus addr).1).carries.ticks_eq (Bus.read bus addr).2
    have ht : (p.tick bus).2 = (f (Bus.read bus addr).1, (Bus.read bus addr).2) := by
      rw [tick_of_read hf]
    rw [← ht] at hin hend hbus
    refine ⟨Nat.succ_pos _, fun k hk hlt => ?_, hend, hbus⟩
    obtain ⟨k, rfl⟩ := Nat.exists_eq_succ_of_ne_zero (Nat.ne_of_gt hk)
    exact hin k (Nat.lt_of_succ_lt_succ hlt)
  | write addr data next =>
    obtain ⟨q, hq, hn⟩ := h
    obtain ⟨hin, hend, hbus⟩ := hn.carries.ticks_eq (Bus.write bus addr data)
    have ht : (p.tick bus).2 = (q, Bus.write bus addr data) := by
      rw [tick_of_write hq]
    rw [← ht] at hin hend hbus
    refine ⟨Nat.succ_pos _, fun k hk hlt => ?_, hend, hbus⟩
    obtain ⟨k, rfl⟩ := Nat.exists_eq_succ_of_ne_zero (Nat.ne_of_gt hk)
    exact hin k (Nat.lt_of_succ_lt_succ hlt)

/-- The processor stands at a boundary that looks at the latches, and this interrupt is latched and no
    other.  If it can be masked, it is not. -/
structure Interrupted (kind : Interrupt) (p : Processor) : Prop where
  notReset : kind ≠ .reset
  phase : p.phase = .fetch
  polls : p.polls = true
  only : p.latches = (⟨false, false, false⟩ : Latches).raise kind
  unmasked : kind = .irq → p.registers.status.get .interruptDisable = false

variable {kind : Interrupt}

theorem Interrupted.due (h : Interrupted kind p) : p.due = some kind := by
  have hr : p.resetLatch = _ := congrArg Latches.reset h.only
  have hn : p.nmiLatch = _ := congrArg Latches.nmi h.only
  have hi : p.irqLatch = _ := congrArg Latches.irq h.only
  unfold Processor.due
  rw [hr, hn, hi]
  cases kind with
  | reset => exact absurd rfl h.notReset
  | nmi => rfl
  | irq =>
    rw [h.unmasked rfl]
    rfl

/-- The tick that begins its sequence takes it off its latch. -/
theorem Interrupted.unlatched {β : Type} [Bus β] (h : Interrupted kind p) (bus : β) :
    (p.tick bus).2.1.Unlatched := by
  have hpolled := (polled_of_due h.due).2
  rw [Unlatched, (p.tick_ticked bus).latches, counted_latchesAfter, latchesAfter, h.phase, h.polls]
  refine hpolled.trans ?_
  rw [h.only]
  cases kind <;> rfl

/-- The sequence of an interrupt on plain memory. -/
theorem course_run (hk : kind ≠ .reset) (r : Registers) (m : Memory) :
    (kind.course r).run m =
      ({ r with
          pc := m.word kind.vector, sp := r.sp - 3
          status := (r.status.set .brk false).set .interruptDisable true },
        m.pushes r.sp [highByte r.pc, r.pc.toUInt8, r.status.pushed false]) := by
  have hv : 0x200 ≤ kind.vector.toNat ∧ 0x200 ≤ (kind.vector + 1).toNat := by
    cases kind <;> decide
  have hkept (addr : UInt16) (h : 0x200 ≤ addr.toNat) (a b c : UInt8) :
      (((m.push r.sp a).push (r.sp - 1) b).push (r.sp - 2) c).get addr = m.get addr := by
    rw [Memory.get_push _ _ _ h, Memory.get_push _ _ _ h, Memory.get_push _ _ _ h]
  have hpush (sp data : UInt8) (m : Memory) : (kind.push sp data).run m = ((), m.push sp data) := by
    cases kind with
    | reset => exact absurd rfl hk
    | nmi | irq => rfl
  have hsp : r.sp - 1 - 1 = r.sp - 2 := by grind
  unfold Interrupt.course enterHandler
  simp only [Script.run_bind, Script.run_fetch, Script.run_pure, hpush, Registers.setFlag,
    Status.pushed_set_brk, hkept _ hv.1, hkept _ hv.2, Memory.pushes, hsp, Memory.word]

/-- An interrupt that is taken is a leg. -/
theorem Interrupted.arrives (h : Interrupted kind p) (m : Memory) :
    Arrives p m 7
      { p.registers with
        pc := m.word kind.vector, sp := p.registers.sp - 3
        status := (p.registers.status.set .brk false).set .interruptDisable true }
      (m.pushes p.registers.sp [highByte p.registers.pc, p.registers.pc.toUInt8,
        p.registers.status.pushed false]) := by
  have hbegins := interruptCycle_begins (cycle_due (p := p.counted) h.phase h.polls h.due)
  obtain ⟨-, hin, hend, hm⟩ := hbegins.ticks_eq m
  rw [length_interruptCourse] at hin hend hm
  rw [course_run h.notReset] at hend hm
  have hb : (ticks 7 (p, m)).1.atBoundary = true := by
    rw [atBoundary, hend.phase]
  have hl : (ticks 7 (p, m)).1.Unlatched := (h.unlatched m).ticks (p.tick m).2.2 6
  exact ⟨⟨by decide, hin, hb⟩, atStart_iff.mpr ⟨hend.phase, hl⟩, hend.registers, hm⟩

/-! ## Trips -/

/-- The processor is back after a leg of `n` ticks and one of `k`: the registers are as given, and memory
    is as it was but for the bytes that were pushed. -/
structure ComesBack (p : Processor) (m : Memory) (n k : Nat) (r : Registers) (pushed : List UInt16) :
    Prop where
  leaves : ReachesBoundary p m n
  returns : ReachesBoundary (ticks n (p, m)).1 (ticks n (p, m)).2 k
  start : AtStart (ticks (n + k) (p, m)).1
  registers : (ticks (n + k) (p, m)).1.registers = r
  memory : ∀ addr, addr ∉ pushed → (ticks (n + k) (p, m)).2.get addr = m.get addr

/-- A leg that pushes, but not over the instruction it comes to, and one from there that leaves memory
    alone. -/
theorem Arrives.comesBack {out back : Registers} {values : List UInt8} {sp opcode : UInt8}
    (h : Arrives p m n out (m.pushes sp values)) (hop : m.get out.pc = opcode)
    (ho : out.pc ∉ stackBytes sp values.length)
    (hback : ∀ q : Processor, AtStart q → q.registers = out →
      (m.pushes sp values).get q.registers.pc = opcode →
      Arrives q (m.pushes sp values) k back (m.pushes sp values)) :
    ComesBack p m n k back (stackBytes sp values.length) := by
  have hmid : ticks n (p, m) = ((ticks n (p, m)).1, m.pushes sp values) := Prod.ext rfl h.memory
  have hopcode : (m.pushes sp values).get (ticks n (p, m)).1.registers.pc = opcode := by
    rw [h.registers]
    exact (m.get_pushes sp values ho).trans hop
  have harrives := hback _ h.start h.registers hopcode
  have hend : ticks (n + k) (p, m) = ticks k ((ticks n (p, m)).1, m.pushes sp values) := by
    rw [ticks_add, ← hmid]
  constructor
  · exact h.bound
  · rw [h.memory]
    exact harrives.bound
  · rw [hend]
    exact harrives.start
  · rw [hend]
    exact harrives.registers
  · intro addr ha
    rw [hend, harrives.memory]
    exact m.get_pushes sp values ha

/-! ### Out -/

theorem AtStart.brk (h : AtStart p) (hop : m.get p.registers.pc = 0x00) :
    Arrives p m 7
      { p.registers with
        pc := m.word Interrupt.irq.vector, sp := p.registers.sp - 3
        status := (p.registers.status.set .brk true).set .interruptDisable true }
      (m.pushes p.registers.sp [highByte (p.registers.pc + 2), (p.registers.pc + 2).toUInt8,
        p.registers.status.pushed true]) := by
  have hd : decode (m.get p.registers.pc) = ⟨.brk, .implied⟩ := by rw [hop]; rfl
  have hsp : p.registers.sp - 1 - 1 = p.registers.sp - 2 := by grind
  refine h.arrives hd rfl ?_
  simp only [Registers.execute, hd, Status.pushed_set_brk, Memory.pushes, hsp]

theorem AtStart.jsr (h : AtStart p) (hop : m.get p.registers.pc = 0x20) :
    Arrives p m 6
      { p.registers with pc := m.word (p.registers.pc + 1), sp := p.registers.sp - 2 }
      (m.pushes p.registers.sp
        [highByte (p.registers.pc + 2), (p.registers.pc + 2).toUInt8]) := by
  have hd : decode (m.get p.registers.pc) = ⟨.jsr, .absolute⟩ := by rw [hop]; rfl
  refine h.arrives hd rfl ?_
  simp only [Registers.execute, hd, Registers.effectiveAddress, Memory.pushes]

theorem AtStart.php (h : AtStart p) (hop : m.get p.registers.pc = 0x08) :
    Arrives p m 3 { p.registers with pc := p.registers.pc + 1, sp := p.registers.sp - 1 }
      (m.pushes p.registers.sp [p.registers.status.pushed true]) := by
  have hd : decode (m.get p.registers.pc) = ⟨.php, .implied⟩ := by rw [hop]; rfl
  refine h.arrives hd rfl ?_
  simp only [Registers.execute, hd, AddressingMode.size, Memory.pushes]

theorem AtStart.pha (h : AtStart p) (hop : m.get p.registers.pc = 0x48) :
    Arrives p m 3 { p.registers with pc := p.registers.pc + 1, sp := p.registers.sp - 1 }
      (m.pushes p.registers.sp [p.registers.a]) := by
  have hd : decode (m.get p.registers.pc) = ⟨.pha, .implied⟩ := by rw [hop]; rfl
  refine h.arrives hd rfl ?_
  simp only [Registers.execute, hd, AddressingMode.size, Memory.pushes]

/-! ### And back -/

variable {sp v0 v1 v2 : UInt8}

theorem AtStart.rti (h : AtStart p) (hsp : p.registers.sp = sp - 3)
    (hop : (m.pushes sp [v0, v1, v2]).get p.registers.pc = 0x40) :
    Arrives p (m.pushes sp [v0, v1, v2]) 6
      { p.registers with pc := address v1 v0, sp, status := .pulled v2 }
      (m.pushes sp [v0, v1, v2]) := by
  have hd : decode ((m.pushes sp [v0, v1, v2]).get p.registers.pc) = ⟨.rti, .implied⟩ := by
    rw [hop]; rfl
  have hn : [v0, v1, v2].length ≤ 256 := Nat.le_of_ble_eq_true rfl
  have h0 : (m.pushes sp [v0, v1, v2]).stack (p.registers.sp + 3) = v0 :=
    m.stack_pushes_above hn hsp (k := 0) (Nat.succ_pos _)
  have h1 : (m.pushes sp [v0, v1, v2]).stack (p.registers.sp + 2) = v1 :=
    m.stack_pushes_above hn hsp (k := 1) (Nat.lt_add_one_of_lt Nat.one_lt_two)
  have h2 : (m.pushes sp [v0, v1, v2]).stack (p.registers.sp + 1) = v2 :=
    m.stack_pushes_above hn hsp (k := 2) (Nat.lt_add_one 2)
  have hback : p.registers.sp + 3 = sp := by grind
  refine h.arrives hd rfl ?_
  simp only [Registers.execute, hd, h1, h2]
  rw [h0, hback]

theorem AtStart.rts (h : AtStart p) (hsp : p.registers.sp = sp - 2)
    (hop : (m.pushes sp [v0, v1]).get p.registers.pc = 0x60) :
    Arrives p (m.pushes sp [v0, v1]) 6 { p.registers with pc := address v1 v0 + 1, sp }
      (m.pushes sp [v0, v1]) := by
  have hd : decode ((m.pushes sp [v0, v1]).get p.registers.pc) = ⟨.rts, .implied⟩ := by
    rw [hop]; rfl
  have hn : [v0, v1].length ≤ 256 := Nat.le_of_ble_eq_true rfl
  have h0 : (m.pushes sp [v0, v1]).stack (p.registers.sp + 2) = v0 :=
    m.stack_pushes_above hn hsp (k := 0) Nat.two_pos
  have h1 : (m.pushes sp [v0, v1]).stack (p.registers.sp + 1) = v1 :=
    m.stack_pushes_above hn hsp (k := 1) Nat.one_lt_two
  have hback : p.registers.sp + 2 = sp := by grind
  refine h.arrives hd rfl ?_
  simp only [Registers.execute, hd, h1]
  rw [h0, hback]

/-- One byte is pulled where it was pushed. -/
theorem stack_push_above (m : Memory) (v0 : UInt8) (hsp : p.registers.sp = sp - 1) :
    (m.pushes sp [v0]).stack (p.registers.sp + 1) = v0 ∧ p.registers.sp + 1 = sp :=
  have hn : [v0].length ≤ 256 := Nat.le_of_ble_eq_true rfl
  ⟨m.stack_pushes_above hn hsp (k := 0) Nat.one_pos, by grind⟩

theorem AtStart.plp (h : AtStart p) (hsp : p.registers.sp = sp - 1)
    (hop : (m.pushes sp [v0]).get p.registers.pc = 0x28) :
    Arrives p (m.pushes sp [v0]) 4
      { p.registers with pc := p.registers.pc + 1, sp, status := .pulled v0 }
      (m.pushes sp [v0]) := by
  have hd : decode ((m.pushes sp [v0]).get p.registers.pc) = ⟨.plp, .implied⟩ := by rw [hop]; rfl
  obtain ⟨h0, hback⟩ := stack_push_above m v0 hsp
  refine h.arrives hd rfl ?_
  simp only [Registers.execute, hd, AddressingMode.size]
  rw [h0, hback]

theorem AtStart.pla (h : AtStart p) (hsp : p.registers.sp = sp - 1)
    (hop : (m.pushes sp [v0]).get p.registers.pc = 0x68) :
    Arrives p (m.pushes sp [v0]) 4
      ({ p.registers with pc := p.registers.pc + 1, sp }.loadA v0) (m.pushes sp [v0]) := by
  have hd : decode ((m.pushes sp [v0]).get p.registers.pc) = ⟨.pla, .implied⟩ := by rw [hop]; rfl
  obtain ⟨h0, hback⟩ := stack_push_above m v0 hsp
  refine h.arrives hd rfl ?_
  simp only [Registers.execute, hd, AddressingMode.size]
  rw [h0, hback]

/-! ## The trips -/

/-- What a processor on plain memory comes back from, and how, from wherever its stack pointer stands. -/
structure RoundTrips (p : Processor) (m : Memory) : Prop where
  /-- An interrupt whose handler returns at once. -/
  interrupt : ∀ kind, Interrupted kind p → m.get (m.word kind.vector) = 0x40 →
    m.word kind.vector ∉ stackBytes p.registers.sp 3 →
    ComesBack p m 7 6 { p.registers with status := p.registers.status.returned }
      (stackBytes p.registers.sp 3)
  /-- A software break, to the instruction after the byte that follows it. -/
  brk : AtStart p → m.get p.registers.pc = 0x00 → m.get (m.word Interrupt.irq.vector) = 0x40 →
    m.word Interrupt.irq.vector ∉ stackBytes p.registers.sp 3 →
    ComesBack p m 7 6
      { p.registers with pc := p.registers.pc + 2, status := p.registers.status.returned }
      (stackBytes p.registers.sp 3)
  /-- A subroutine that returns at once. -/
  jsr : AtStart p → m.get p.registers.pc = 0x20 → m.get (m.word (p.registers.pc + 1)) = 0x60 →
    m.word (p.registers.pc + 1) ∉ stackBytes p.registers.sp 2 →
    ComesBack p m 6 6 { p.registers with pc := p.registers.pc + 3 } (stackBytes p.registers.sp 2)
  /-- The status. -/
  php : AtStart p → m.get p.registers.pc = 0x08 → m.get (p.registers.pc + 1) = 0x28 →
    p.registers.pc + 1 ∉ stackBytes p.registers.sp 1 →
    ComesBack p m 3 4
      { p.registers with pc := p.registers.pc + 2, status := p.registers.status.returned }
      (stackBytes p.registers.sp 1)
  /-- The accumulator, which sets two flags on its way back. -/
  pha : AtStart p → m.get p.registers.pc = 0x48 → m.get (p.registers.pc + 1) = 0x68 →
    p.registers.pc + 1 ∉ stackBytes p.registers.sp 1 →
    ComesBack p m 3 4
      { p.registers with
        pc := p.registers.pc + 2, status := p.registers.status.setZeroNegative p.registers.a }
      (stackBytes p.registers.sp 1)

/-- Interrupts, breaks, subroutines and pushes are taken back exactly by what returns from them, for all
    registers, all memories and every place of the stack, as long as what is pushed does not fall on
    the instruction that returns. -/
theorem round_trips (p : Processor) (m : Memory) : RoundTrips p m where
  interrupt kind h hop ho := by
    refine (h.arrives m).comesBack hop ho fun q hq hr hrti => ?_
    have hback := hq.rti (congrArg Registers.sp hr) hrti
    rw [hr, address_of_bytes, Status.pulled_pushed] at hback
    exact hback
  brk h hbrk hop ho := by
    refine (h.brk hbrk).comesBack hop ho fun q hq hr hrti => ?_
    have hback := hq.rti (congrArg Registers.sp hr) hrti
    rw [hr, address_of_bytes, Status.pulled_pushed] at hback
    exact hback
  jsr h hjsr hop ho := by
    refine (h.jsr hjsr).comesBack hop ho fun q hq hr hrts => ?_
    have hback := hq.rts (congrArg Registers.sp hr) hrts
    rw [hr, address_of_bytes, show p.registers.pc + 2 + 1 = p.registers.pc + 3 by grind] at hback
    exact hback
  php h hphp hop ho := by
    refine (h.php hphp).comesBack hop ho fun q hq hr hplp => ?_
    have hback := hq.plp (congrArg Registers.sp hr) hplp
    rw [hr, Status.pulled_pushed, add_one_one] at hback
    exact hback
  pha h hpha hop ho := by
    refine (h.pha hpha).comesBack hop ho fun q hq hr hpla => ?_
    have hback := hq.pla (congrArg Registers.sp hr) hpla
    rw [hr, add_one_one] at hback
    exact hback

/-- At power-on the stack pointer is zero, so what is pushed goes around the page. -/
theorem round_trips_new :
    ComesBack new.requestNmi (Memory.filled 0x40) 7 6 new.registers [0x0100, 0x01FF, 0x01FE] ∧
    ComesBack { new with registers := { status := ⟨0x30⟩ }, irqLatch := true } (Memory.filled 0x40) 7 6
      { status := ⟨0x20⟩ } [0x0100, 0x01FF, 0x01FE] ∧
    ComesBack new ((Memory.filled 0x40).set 0 0x00) 7 6 { new.registers with pc := 2 }
      [0x0100, 0x01FF, 0x01FE] ∧
    ComesBack new ((Memory.filled 0x60).set 0 0x20) 6 6 { new.registers with pc := 3 }
      [0x0100, 0x01FF] ∧
    ComesBack new ((Memory.filled 0x28).set 0 0x08) 3 4 { new.registers with pc := 2 } [0x0100] ∧
    ComesBack new ((Memory.filled 0x68).set 0 0x48) 3 4
      { new.registers with pc := 2, status := ⟨0x26⟩ } [0x0100] := by
  have hword (v : UInt8) (addr : UInt16) : (Memory.filled v).word addr = address v v := by
    rw [Memory.word, Memory.get_filled, Memory.get_filled]
  have hget (v w : UInt8) {addr : UInt16} (h : 0 ≠ addr) :
      ((Memory.filled v).set 0 w).get addr = v := by
    rw [Memory.get_set_of_ne _ _ h, Memory.get_filled]
  have hword' (v w : UInt8) (addr : UInt16) (h : 0 ≠ addr) (h1 : 0 ≠ addr + 1) :
      ((Memory.filled v).set 0 w).word addr = address v v := by
    rw [Memory.word, hget v w h, hget v w h1]
  have hstart : AtStart new := ⟨rfl, rfl, rfl, rfl⟩
  refine ⟨?_, ?_, ?_, ?_, ?_, ?_⟩
  · refine (round_trips _ _).interrupt .nmi ⟨by decide, rfl, rfl, rfl, by decide⟩ (Memory.get_filled _ _) ?_
    rw [hword]
    decide
  · refine (round_trips _ _).interrupt .irq ⟨by decide, rfl, rfl, rfl, fun _ => rfl⟩
      (Memory.get_filled _ _) ?_
    rw [hword]
    decide
  · have hvector := hword' 0x40 0x00 Interrupt.irq.vector (by decide) (by decide)
    refine (round_trips _ _).brk hstart (Memory.get_set_self _ _ _) ?_ ?_
    · rw [hvector]
      exact hget _ _ (by decide)
    · rw [hvector]
      decide
  · have htarget := hword' 0x60 0x20 (new.registers.pc + 1) (by decide) (by decide)
    refine (round_trips _ _).jsr hstart (Memory.get_set_self _ _ _) ?_ ?_
    · rw [htarget]
      exact hget _ _ (by decide)
    · rw [htarget]
      decide
  · exact (round_trips _ _).php hstart (Memory.get_set_self _ _ _) (hget _ _ (by decide)) (by decide)
  · exact (round_trips _ _).pha hstart (Memory.get_set_self _ _ _) (hget _ _ (by decide)) (by decide)

end Processor

end Famicom
