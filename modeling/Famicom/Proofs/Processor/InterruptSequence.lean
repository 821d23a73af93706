/-
  What interrupts do: which one is taken, and the seven ticks it takes.

  1. **Scripts** (`Interrupt.course`, `breakCourse`): the accesses of an interrupt sequence and of the second
     half of a software break, said without phases and steps.
  2. **Steadiness** (`Steady`): a processor makes the accesses of a script whatever is requested while
     it does.  `Steady.run` carries this over any run, by induction on the acts.
  3. **The protocol** (`LatchProtocol`): what every tick does with the latches, at a boundary, in a
     sequence, in a software break and where the processor is halted.
-/
import Famicom.Proofs.Processor.Latches

namespace Famicom

open Script Processor

/-! ## Scripts -/

/-- A byte goes to the stack in the course of an interrupt.  A reset only reads from there. -/
def Interrupt.push (kind : Interrupt) (sp data : UInt8) : Script Unit :=
  match kind with
  | .reset => (fetch (stackAddress sp)).bind fun _ => .done ()
  | .nmi | .irq => store (stackAddress sp) data

/-- The end of an interrupt: the handler's address is taken from the vector. -/
def enterHandler (r : Registers) (vector : UInt16) : Script Registers := do
  let low ← fetch vector
  let high ← fetch (vector + 1)
  return { r with pc := address low high, status := r.status.set .interruptDisable true }

/-- The course of an interrupt that is taken: two reads for nothing, three pushes, the vector. -/
def Interrupt.course (kind : Interrupt) (r : Registers) : Script Registers := do
  let _ ← fetch r.pc
  let _ ← fetch r.pc
  let r := r.setFlag .brk false
  kind.push r.sp (highByte r.pc)
  kind.push (r.sp - 1) r.pc.toUInt8
  kind.push (r.sp - 2) (r.status.pushed false)
  enterHandler { r with sp := r.sp - 3 } kind.vector

/-- The course of a software break from its push of the status on, with the vector it goes by. -/
def breakCourse (r : Registers) (vector : UInt16) : Script Registers := do
  store (stackAddress r.sp) (r.status.pushed true)
  enterHandler { r with sp := r.sp - 1 } vector

namespace Processor

variable {α γ β : Type} {p q : Processor}

/-! ## Steadiness -/

/-- The processor makes the accesses of a script, one to a tick and never at a boundary before the last,
    whatever is latched before each tick, and then meets what is asked of it. -/
def Steady (post : α → Processor → Prop) : Script α → Processor → Prop
  | .done a, p => ∀ l, post a (p.latch l)
  | .read addr next, p => p.atBoundary = false ∧ ∀ l, ∃ f,
      (p.latch l).counted.cycle = .read addr f ∧ ∀ v, Steady post (next v) (f v)
  | .write addr data next, p => p.atBoundary = false ∧ ∀ l, ∃ q,
      (p.latch l).counted.cycle = .write addr data q ∧ Steady post next q

/-- The next tick makes the first access of a script, and the processor is steady in the rest. -/
def Begins (post : α → Processor → Prop) : Script α → Processor → Prop
  | .done _, _ => False
  | .read addr next, p =>
    ∃ f, p.counted.cycle = .read addr f ∧ ∀ v, Steady post (next v) (f v)
  | .write addr data next, p =>
    ∃ q, p.counted.cycle = .write addr data q ∧ Steady post next q

section

variable {post : α → Processor → Prop} {s : Script α}

theorem Steady.latch (h : Steady post s p) (l : Latches) : Steady post s (p.latch l) := by
  cases s with
  | done a => exact fun l' => h l'
  | read addr next => exact ⟨h.1, fun l' => h.2 l'⟩
  | write addr data next => exact ⟨h.1, fun l' => h.2 l'⟩

theorem Steady.request (h : Steady post s p) (kind : Interrupt) : Steady post s (p.request kind) := by
  rw [request_eq]
  exact h.latch _

/-- A schedule that is carried whatever is latched begins with the next cycle. -/
theorem Steady.begins [Bus β] {bus : β} (h : Steady post s p) (hs : 0 < (s.accesses bus).length) :
    Begins post s p := by
  cases s with
  | done a => cases hs
  | read addr next => exact h.2 p.latches
  | write addr data next => exact h.2 p.latches

/-- Inside a sequence there is no boundary. -/
theorem Steady.atBoundary [Bus β] {bus : β} (h : Steady post s p)
    (hs : 0 < (s.accesses bus).length) : p.atBoundary = false := by
  cases s with
  | done a => cases hs
  | read addr next => exact h.1
  | write addr data next => exact h.1

/-- A cycle that reads carries a fetch whatever is latched meanwhile. -/
theorem Steady.fetch_bind {addr : UInt16} {k : UInt8 → Script α} {f : Latches → UInt8 → Processor}
    (hb : p.atBoundary = false) (hf : ∀ l, (p.latch l).counted.cycle = .read addr (f l))
    (h : ∀ l v, Steady post (k v) (f l v)) : Steady post (fetch addr >>= k) p :=
  ⟨hb, fun l => ⟨f l, hf l, h l⟩⟩

/-- A cycle that writes carries a store. -/
theorem Steady.store_bind {addr : UInt16} {data : UInt8} {k : Unit → Script α}
    {f : Latches → Processor} (hb : p.atBoundary = false)
    (hf : ∀ l, (p.latch l).counted.cycle = .write addr data (f l))
    (h : ∀ l, Steady post (k ()) (f l)) : Steady post (store addr data >>= k) p :=
  ⟨hb, fun l => ⟨f l, hf l, h l⟩⟩

/-- One tick makes one access, and what is left of the script follows. -/
theorem Begins.tick [Bus β] (h : Begins post s p) (bus : β) (log : List Access) :
    ∃ (access : Access) (rest : Script α) (bus' : β),
      Steady post rest (p.tick (⟨bus, log⟩ : Recorded β)).2.1 ∧
      (p.tick (⟨bus, log⟩ : Recorded β)).2.2 = ⟨bus', access :: log⟩ ∧
      s.accesses bus = access :: rest.accesses bus' ∧ s.run bus = rest.run bus' := by
  cases s with
  | done a => cases h
  | read addr next =>
    obtain ⟨f, hf, hn⟩ := h
    rw [tick_of_read hf]
    exact ⟨_, _, _, hn _, rfl, rfl, rfl⟩
  | write addr data next =>
    obtain ⟨q, hq, hn⟩ := h
    rw [tick_of_write hq]
    exact ⟨_, _, _, hn, rfl, rfl, rfl⟩

end

/-- The ticks among the acts. -/
def ticksIn (acts : List Act) : Nat := acts.count .tick

/-- Where a run stands after `n` accesses of a script, with what had been recorded before it. -/
structure Along [Bus β] (post : α → Processor → Prop) (s : Script α) (bus : β) (log : List Access)
    (n : Nat) (t : Processor × Recorded β) : Prop where
  accesses : t.2.accesses = ((s.accesses bus).take n).reverse ++ log
  inside : n < (s.accesses bus).length → t.1.atBoundary = false
  ends : n = (s.accesses bus).length → post (s.run bus).1 t.1 ∧ t.2.bus = (s.run bus).2

/-- The access of the tick before comes first. -/
theorem Along.cons [Bus β] {post : α → Processor → Prop} {s rest : Script α} {bus bus' : β}
    {access : Access} {log : List Access} {n : Nat} {t : Processor × Recorded β}
    (h : Along post rest bus' (access :: log) n t)
    (ha : s.accesses bus = access :: rest.accesses bus') (he : s.run bus = rest.run bus') :
    Along post s bus log (n + 1) t := by
  constructor
  · rw [h.accesses, ha, List.take_succ_cons, List.reverse_cons, List.append_assoc]
    rfl
  · intro hn
    rw [ha, List.length_cons] at hn
    exact h.inside (Nat.lt_of_succ_lt_succ hn)
  · intro hn
    rw [ha, List.length_cons] at hn
    rw [he]
    exact h.ends (Nat.succ.inj hn)

theorem run_tick [Bus β] {p : Processor} {t : Recorded β} {bus : Recorded β}
    (hb : (p.tick bus).2.2 = t) (acts : List Act) :
    run (p, bus) (.tick :: acts) = run ((p.tick bus).2.1, t) acts := by
  rw [← hb]
  rfl

/-- A steady processor makes its accesses in any run, one to a tick. -/
theorem Steady.run [Bus β] {post : α → Processor → Prop} {s : Script α} (h : Steady post s p)
    (bus : β) (log : List Access) (acts : List Act) (hn : ticksIn acts ≤ (s.accesses bus).length) :
    Along post s bus log (ticksIn acts) (run (p, ⟨bus, log⟩) acts) := by
  induction acts generalizing s p bus log with
  | nil =>
    refine ⟨rfl, h.atBoundary, fun he => ?_⟩
    cases s with
    | done a => exact ⟨h p.latches, rfl⟩
    | read addr next => cases he
    | write addr data next => cases he
  | cons act acts ih =>
    cases act with
    | request kind =>
      have ht : ticksIn (.request kind :: acts) = ticksIn acts :=
        List.count_cons_of_ne (show Act.request kind ≠ .tick from nofun)
      rw [ht] at hn ⊢
      exact ih (h.request kind) bus log hn
    | tick =>
      have ht : ticksIn (.tick :: acts) = ticksIn acts + 1 := List.count_cons_self
      rw [ht] at hn ⊢
      obtain ⟨access, rest, bus', hr, hb, ha, he⟩ :=
        (h.begins (Nat.lt_of_lt_of_le (Nat.succ_pos _) hn)).tick bus log
      rw [ha, List.length_cons] at hn
      rw [run_tick hb]
      exact (ih hr bus' (access :: log) (Nat.le_of_succ_le_succ hn)).cons ha he

/-- From its next tick on, the processor makes the `n` accesses of a script, one to a tick, whatever is
    requested meanwhile; it is at no boundary before the last and then meets what is asked of it. -/
structure Performs (p : Processor) (n : Nat) (s : Script α) (post : α → Processor → Prop) : Prop where
  length : ∀ {β : Type} [Bus β] (bus : β), (s.accesses bus).length = n
  along : ∀ {β : Type} [Bus β] (bus : β) (log : List Access) (acts : List Act), ticksIn acts < n →
    Along post s bus log (ticksIn acts + 1) (run (p, ⟨bus, log⟩) (.tick :: acts))

/-- A schedule that begins is performed in as many ticks as it has accesses, with requests in between.
    -/
theorem Begins.performs {post : α → Processor → Prop} {s : Script α} {n : Nat} (h : Begins post s p)
    (hn : ∀ {β : Type} [Bus β] (bus : β), (s.accesses bus).length = n) : Performs p n s post := by
  refine ⟨hn, fun bus log acts hacts => ?_⟩
  obtain ⟨access, rest, bus', hr, hb, ha, he⟩ := h.tick bus log
  have hlen : (rest.accesses bus').length + 1 = n := by rw [← hn bus, ha, List.length_cons]
  rw [run_tick hb]
  exact (hr.run bus' (access :: log) acts (by omega)).cons ha he

/-! ## The sequences -/

/-- A processor that has come to the handler of an interrupt. -/
structure Serviced (polls : Bool) (r : Registers) (p : Processor) : Prop where
  registers : p.registers = r
  phase : p.phase = .fetch
  polls : p.polls = polls

variable {kind : Interrupt} {r : Registers}

/-- The last two cycles of a sequence read the vector. -/
theorem steady_enterHandler (hp : p.phase = .interrupt kind 5) (hr : p.registers = r) :
    Steady (Serviced false) (enterHandler r kind.vector) p := by
  obtain ⟨_, cycles, phase, polls, opcode, operand, pointer, data, vector, _, _, _⟩ := p
  subst hp hr
  refine .fetch_bind rfl (fun l => rfl) fun l low => ?_
  refine .fetch_bind rfl (fun l => rfl) fun l high => ?_
  exact fun l => ⟨rfl, rfl, rfl⟩

/-- One of the three pushes, of a byte that the registers give. -/
theorem steady_push (step : Nat) (data : Registers → UInt8) {k : Unit → Script Registers}
    (hc : ∀ q : Processor, q.interruptCycle kind step =
      q.interruptPush kind (data q.registers) (step + 1))
    (hp : p.phase = .interrupt kind step) (hr : p.registers = r)
    (h : ∀ q : Processor, q.phase = .interrupt kind (step + 1) →
      q.registers = { r with sp := r.sp - 1 } → Steady (Serviced false) (k ()) q) :
    Steady (Serviced false) (kind.push r.sp (data r) >>= k) p := by
  subst hr
  have hb : p.atBoundary = false := by unfold atBoundary; rw [hp]
  have hc' : ∀ l, (p.latch l).counted.cycle =
      (p.latch l).counted.interruptPush kind (data p.registers) (step + 1) := fun l =>
    (cycle_interrupt (p := (p.latch l).counted) hp).trans (hc _)
  cases kind with
  | reset => exact ⟨hb, fun l => ⟨_, hc' l, fun _ => h _ rfl rfl⟩⟩
  | nmi | irq => exact .store_bind hb hc' fun l => h _ rfl rfl

/-- The three before them push the address and the status, or read in their place. -/
theorem steady_pushes (hp : p.phase = .interrupt kind 2) (hr : p.registers = r) :
    Steady (Serviced false) (do
      kind.push r.sp (highByte r.pc)
      kind.push (r.sp - 1) r.pc.toUInt8
      kind.push (r.sp - 1 - 1) (r.status.pushed false)
      enterHandler { r with sp := r.sp - 1 - 1 - 1 } kind.vector) p := by
  refine steady_push 2 (fun r => highByte r.pc) (fun _ => rfl) hp hr ?_
  intro q hq hr
  refine steady_push 3 (r := { r with sp := r.sp - 1 }) (fun r => r.pc.toUInt8) (fun _ => rfl) hq
    hr ?_
  intro q hq hr
  refine steady_push 4 (r := { r with sp := r.sp - 1 - 1 }) (fun r => r.status.pushed false)
    (fun _ => rfl) hq hr ?_
  intro q hq hr
  exact steady_enterHandler hq hr

/-- So the first cycle begins a sequence of all of them. -/
theorem interruptCycle_begins (hc : p.counted.cycle = q.interruptCycle kind 0) :
    Begins (Serviced false) (kind.course q.registers) p := by
  have two : ∀ sp : UInt8, sp - 2 = sp - 1 - 1 := fun sp => by grind
  have three : ∀ sp : UInt8, sp - 3 = sp - 1 - 1 - 1 := fun sp => by grind
  obtain ⟨r, cycles, phase, polls, opcode, operand, pointer, data, vector, _, _, _⟩ := q
  unfold Interrupt.course
  dsimp only
  simp only [two, three]
  refine ⟨_, hc, fun _ => ?_⟩
  refine .fetch_bind rfl (fun l => rfl) fun l _ => ?_
  exact steady_pushes rfl rfl

/-- An interrupt takes seven accesses. -/
theorem length_interruptCourse {β : Type} [Bus β] (kind : Interrupt) (r : Registers) (bus : β) :
    ((kind.course r).accesses bus).length = 7 := by
  cases kind <;> rfl

/-- From the status push of a software break on there are three. -/
theorem length_breakCourse {β : Type} [Bus β] (r : Registers) (vector : UInt16) (bus : β) :
    ((breakCourse r vector).accesses bus).length = 3 := rfl

/-- The vector of a software break, as it stands when the status is about to be pushed. -/
def breakVector (p : Processor) : UInt16 :=
  if p.nmiLatch then Interrupt.nmi.vector else Interrupt.irq.vector

theorem steady_breakHandler (hp : p.phase = .execute 4) (hi : p.opcode.instruction = .brk) :
    Steady (Serviced p.polls) (enterHandler p.registers p.vector) p := by
  obtain ⟨_, cycles, phase, polls, ⟨i, mode⟩, operand, pointer, data, vector, _, _, _⟩ := p
  subst hp hi
  refine .fetch_bind rfl (fun l => rfl) fun l low => ?_
  refine .fetch_bind rfl (fun l => rfl) fun l high => ?_
  exact fun l => ⟨rfl, rfl, rfl⟩

/-- The status push of a break chooses the vector and begins the rest. -/
theorem brkCycle_begins (hs : p.atStatusPush = true) :
    Begins (Serviced p.polls) (breakCourse p.registers p.breakVector) p := by
  have hc : p.counted.cycle = p.counted.brkCycle 3 := cycle_statusPush (p := p.counted) hs
  have hv : p.breakVector = (if p.nmiLatch then Interrupt.nmi else .irq : Interrupt).vector := by
    unfold breakVector
    split <;> rfl
  have hi : p.opcode.instruction = .brk := (break_of_statusPush hs).2
  rw [hv]
  exact ⟨_, hc, steady_breakHandler rfl hi⟩

/-! ## Where a script begins -/

section

variable {β : Type} [Bus β]

/-- At a boundary an interrupt that is due is served in seven ticks. -/
theorem performs_due (hf : p.phase = .fetch) (hp : p.polls = true) (hd : p.due = some kind) :
    Performs p 7 (kind.course p.registers) (Serviced false) :=
  (interruptCycle_begins (cycle_due (p := p.counted) hf hp hd)).performs (length_interruptCourse kind _)

/-- So is a reset of a halted processor. -/
theorem performs_reset (hh : p.phase = .halted) (hr : p.resetLatch = true) :
    Performs p 7 (Interrupt.reset.course p.registers) (Serviced false) :=
  (interruptCycle_begins (cycle_halted (p := p.counted) hh hr)).performs (length_interruptCourse .reset _)

theorem Coherent.polls_of_ne (h : Coherent p) (hf : p.phase ≠ .fetch) : p.polls = true := by
  cases hp : p.polls with
  | true => rfl
  | false => exact absurd (h.polls hp) hf

/-- A break is served in three ticks from its status push on. -/
theorem Coherent.performs_break (h : Coherent p) (hs : p.atStatusPush = true) :
    Performs p 3 (breakCourse p.registers p.breakVector) (Serviced true) := by
  have hp : p.polls = true := h.polls_of_ne (by rw [(break_of_statusPush hs).1]; nofun)
  have hb := brkCycle_begins hs
  rw [hp] at hb
  exact hb.performs (length_breakCourse _ _)

/-- A tick within a sequence goes one step on. -/
theorem tick_interrupt {step : Nat} (hp : p.phase = .interrupt kind step) (bus : β) :
    Interrupts p.counted kind step (p.tick bus).2.1 :=
  tick_of_leads (cycle_interrupt (p := p.counted) hp ▸ interruptCycle_leads _ kind step) bus

/-- Only the end of an interrupt sequence has the next boundary pass the latches over. -/
theorem Coherent.unpolled_iff (h : Coherent p) (bus : β) : (p.tick bus).2.1.polls = false ↔
    (∃ kind step, p.phase = .interrupt kind step) ∧ (p.tick bus).2.1.phase = .fetch := by
  have hpolls : (p.tick bus).2.1.polls = p.pollsAfter := (p.tick_ticked bus).polls
  rw [hpolls]
  constructor
  · intro hq
    cases hp : p.phase with
    | fetch => simp only [pollsAfter, hp, Bool.true_eq_false] at hq
    | interrupt kind step =>
      have hs : p.polls = true := h.polls_of_ne (by simp [hp])
      simp only [pollsAfter, hp, hs, Bool.and_true, decide_eq_false_iff_not] at hq
      refine ⟨⟨kind, step, rfl⟩, ?_⟩
      rw [(tick_interrupt hp bus).phase, if_neg hq]
    | halted | operand step | dummyRead | execute step =>
      have hs : p.polls = true := h.polls_of_ne (by simp [hp])
      simp only [pollsAfter, hp, hs, Bool.true_eq_false] at hq
  · rintro ⟨⟨kind, step, hp⟩, hq⟩
    have hstep : ¬ step < 6 := by
      intro hlt
      rw [(tick_interrupt hp bus).phase, if_pos hlt] at hq
      cases hq
    simp only [pollsAfter, hp, decide_eq_false hstep, Bool.false_and]

/-- A tick that begins the sequence of a non-maskable interrupt does so because one is due. -/
theorem due_of_beginsNmi {bus : β} (h : beginsNmi p (p.tick bus).2.1 = true) :
    p.phase = .fetch ∧ p.polls = true ∧ p.due = some .nmi := by
  simp only [beginsNmi, Bool.and_eq_true, beq_iff_eq] at h
  obtain ⟨hf, hq⟩ := h
  have reads : ∀ (q : Processor) (v : UInt8), (q.opened v).phase ≠ .interrupt .nmi 1 := by
    intro q v
    unfold opened
    cases (decode v).instruction <;> simp [phaseAfter]
  cases hp : p.polls with
  | false =>
    rw [tick_unpolled hf hp] at hq
    exact absurd hq (reads _ _)
  | true =>
    cases hd : p.due with
    | none =>
      rw [tick_not_due hf hp hd] at hq
      exact absurd hq (reads _ _)
    | some kind =>
      have hk : (p.tick bus).2.1.phase = .interrupt kind 1 :=
        (tick_of_leads (cycle_due (p := p.counted) hf hp hd ▸ interruptCycle_leads _ kind 0) bus :
          Interrupts _ kind 0 _).phase
      rw [hk] at hq
      cases hq
      exact ⟨hf, rfl, rfl⟩

end

/-! ## The protocol -/

/-- What a tick does with the latches of a processor, and what runs make of its non-maskable interrupts. -/
structure LatchProtocol (p : Processor) : Prop where
  /-- A boundary that looks at the latches begins the interrupt that is due. -/
  begins : p.phase = .fetch → p.polls = true → ∀ kind, p.due = some kind →
    Performs p 7 (kind.course p.registers) (Serviced false) ∧ p.latches.raised kind = true ∧
    ∀ {β : Type} [Bus β] (bus : β), (p.tick bus).2.1.latches = p.latches.clear kind
  /-- Where none is due it reads an opcode, and no latch is left raised. -/
  fetches : p.phase = .fetch → p.polls = true → p.due = none →
    ∀ {β : Type} [Bus β] (bus : β), p.tick bus =
      (.read, (p.latch ⟨false, false, false⟩).opened (Bus.read bus p.registers.pc).1,
        (Bus.read bus p.registers.pc).2)
  /-- A maskable interrupt with none before it is off its latch then, taken or masked. -/
  irq : p.phase = .fetch → p.polls = true → p.resetLatch = false → p.nmiLatch = false →
    ∀ {β : Type} [Bus β] (bus : β), (p.tick bus).2.1.irqLatch = false
  /-- A boundary that passes the latches over reads an opcode and leaves them as they are; the next
      boundary looks at them. -/
  passes : p.phase = .fetch → p.polls = false →
    ∀ {β : Type} [Bus β] (bus : β), p.tick bus =
      (.read, p.opened (Bus.read bus p.registers.pc).1, (Bus.read bus p.registers.pc).2)
  /-- The latches will be passed over exactly where an interrupt sequence has just ended. -/
  unpolled : ∀ {β : Type} [Bus β] (bus : β), (p.tick bus).2.1.polls = false ↔
    (∃ kind step, p.phase = .interrupt kind step) ∧ (p.tick bus).2.1.phase = .fetch
  /-- A halted processor takes a reset and nothing else. -/
  resets : p.phase = .halted → p.resetLatch = true →
    Performs p 7 (Interrupt.reset.course p.registers) (Serviced false) ∧
    ∀ {β : Type} [Bus β] (bus : β), (p.tick bus).2.1.latches = p.latches.clear .reset
  waits : p.phase = .halted → p.resetLatch = false →
    ∀ {β : Type} [Bus β] (bus : β), p.tick bus = (.read, p.counted, bus)
  /-- A software break that pushes the status goes by the vector of a non-maskable interrupt if one is
      latched, and takes it. -/
  breaks : p.atStatusPush = true →
    Performs p 3 (breakCourse p.registers p.breakVector) (Serviced true) ∧
    ∀ {β : Type} [Bus β] (bus : β), (p.tick bus).2.1.latches = p.latches.clear .nmi
  /-- No other tick touches a latch. -/
  keeps : p.atBoundary = false → p.atStatusPush = false →
    ∀ {β : Type} [Bus β] (bus : β), (p.tick bus).2.1.latches = p.latches
  /-- A non-maskable interrupt that a tick takes is taken off its latch, and off no other, for its own
      sequence or for the break that it diverts. -/
  takes : ∀ {β : Type} [Bus β] (bus : β), takesNmi p (p.tick bus).2.1 = true →
    p.nmiLatch = true ∧ (p.tick bus).2.1.latches = p.latches.clear .nmi ∧
    ((p.phase = .fetch ∧ p.polls = true ∧
        Performs p 7 (Interrupt.nmi.course p.registers) (Serviced false)) ∨
      (p.atStatusPush = true ∧
        Performs p 3 (breakCourse p.registers Interrupt.nmi.vector) (Serviced true)))
  /-- Over every run none is lost and none is taken twice. -/
  account : ∀ {β : Type} [Bus β] (bus : β) (acts : List Act),
    nmisTaken (p, bus) acts + (run (p, bus) acts).1.nmiLatch.toNat =
      nmisRaised (p, bus) acts + p.nmiLatch.toNat
  /-- Until one is taken, a latched one stays latched. -/
  stays : ∀ {β : Type} [Bus β] (bus : β) (acts : List Act), p.nmiLatch = true →
    nmisTaken (p, bus) acts = 0 → (run (p, bus) acts).1.nmiLatch = true

theorem latch_protocol (h : Reachable p) : LatchProtocol p where
  begins hf hp kind hd := by
    refine ⟨performs_due hf hp hd, (polled_of_due hd).1, fun bus => ?_⟩
    rw [(p.tick_ticked bus).latches, ← (polled_of_due hd).2, counted_latchesAfter]
    simp only [latchesAfter, hf, hp, if_pos]
  fetches hf hp hd := tick_not_due hf hp hd
  irq hf hp hr hn := by
    intro β _ bus
    show (p.tick bus).2.1.latches.irq = false
    rw [(p.tick_ticked bus).latches, counted_latchesAfter]
    simp only [latchesAfter, Latches.polled, latches, hf, hp, hr, hn, if_pos, Bool.false_eq_true,
      if_false]
  passes hf hp := tick_unpolled hf hp
  unpolled := h.coherent.unpolled_iff
  resets hh hr := by
    refine ⟨performs_reset hh hr, fun bus => ?_⟩
    rw [(p.tick_ticked bus).latches, counted_latchesAfter]
    simp only [latchesAfter, hh]
    rfl
  waits hh hr := tick_waiting hh hr
  breaks hs := by
    refine ⟨h.coherent.performs_break hs, fun bus => ?_⟩
    rw [(p.tick_ticked bus).latches, counted_latchesAfter]
    simp only [latchesAfter, (break_of_statusPush hs).1, hs]
    rfl
  keeps hb hs := by
    intro β _ bus
    rw [(p.tick_ticked bus).latches, counted_latchesAfter]
    cases hp : p.phase with
    | fetch | halted => simp only [atBoundary, hp, Bool.true_eq_false] at hb
    | interrupt kind step | operand step | dummyRead | execute step =>
      simp only [latchesAfter, hp, hs]
      rfl
  takes bus ht := by
    obtain ⟨hn, hl⟩ := (p.tick_spends bus).taken ht
    have hn : p.nmiLatch = true := hn
    refine ⟨hn, hl, ?_⟩
    rcases Bool.or_eq_true_iff.mp ht with hb | hv
    · obtain ⟨hf, hp, hd⟩ := due_of_beginsNmi hb
      exact .inl ⟨hf, hp, performs_due hf hp hd⟩
    · have hs : p.atStatusPush = true := (Bool.and_eq_true_iff.mp hv).1
      have hbreak := h.coherent.performs_break hs
      rw [breakVector, if_pos hn] at hbreak
      exact .inr ⟨hs, hbreak⟩
  account bus acts := nmisTaken_add_latched (p, bus) acts
  stays bus acts hn ht := by
    have h := nmisTaken_add_latched (p, bus) acts
    rw [ht, hn] at h
    cases hl : (run (p, bus) acts).1.nmiLatch with
    | true => rfl
    | false =>
      rw [hl] at h
      simp only [Bool.toNat_true, Bool.toNat_false] at h
      omega

theorem latch_protocol_latched :
    Reachable new.requestNmi ∧ new.requestNmi.due = some .nmi ∧ LatchProtocol new.requestNmi :=
  ⟨.request .nmi .new, rfl, latch_protocol (.request .nmi .new)⟩

end Processor

end Famicom
