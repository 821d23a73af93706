/-
  What is heard has no part in what is seen.

  How many samples are made of the sound, how many of them are kept and when they are taken is a matter
  of the mixer, and the mixer has no part in the rest of the console, except that it can refuse an audio
  frame.  So of two consoles that differ in these alone, each does what the other does for as long as
  neither refuses anything.

  1. **Two runs** (`Meet`): calls that both succeed leave related states.  What both turns of two systems
     keep related, a run of the clock keeps related (`Clock.meet_run`).
  2. **Board and machine** (`Mainboard.Agree`, `Machine.Agree`): everything is equal but the mixers.  Reads
     give equal bytes, so the processors do the same, and so do the transfers.
  3. **The console** (`Agree.perform`): one case for each operation.

  Main statement: two consoles of one region and one length of audio frames agree after the same
  operations, wherever samples are taken in between (`performAll_agree`).
-/
import Famicom.Cartridge.Nrom
import Famicom.Proofs.Console.PowerOn
import Famicom.Proofs.Sound.MixerIndependence

namespace Famicom

/-! ## Two runs

  The clock is told as a sequence of actions, each of which can fail.  A relation that every action
  keeps is kept by all of them, up to the first failure on either side. -/

/-- Where both calls succeed, they leave related states. -/
def Meet {ε α : Type} (R : α → α → Prop) (x y : Except ε Unit × α) : Prop :=
  x.1 = .ok () → y.1 = .ok () → R x.2 y.2

/-- One call after another, unless the first fails. -/
def andThen {ε α : Type} (x : Except ε Unit × α) (f : α → Except ε Unit × α) : Except ε Unit × α :=
  match x with
  | (.ok _, a) => f a
  | (.error e, a) => (.error e, a)

/-- An action that goes well leaves it to the other how the two of them end. -/
theorem andThen_of_ok {ε α : Type} {x : Except ε Unit × α} (h : x.1 = .ok ())
    (f : α → Except ε Unit × α) : andThen x f = f x.2 := by
  obtain ⟨_ | _, a⟩ := x
  · cases h
  · rfl

/-- Actions whose parts keep two systems related keep them related as a whole. -/
theorem Meet.andThen {ε α : Type} {R S : α → α → Prop} {x y : Except ε Unit × α}
    {f g : α → Except ε Unit × α} (h : Meet R x y) (hf : ∀ a b, R a b → Meet S (f a) (g b)) :
    Meet S (andThen x f) (andThen y g) := by
  obtain ⟨rx, a⟩ := x
  obtain ⟨ry, b⟩ := y
  intro hx hy
  cases rx with
  | error e => cases hx
  | ok _ =>
    cases ry with
    | error e => cases hy
    | ok _ => exact hf a b (h rfl rfl) hx hy

/-- To name an error otherwise does not make a success. -/
theorem mapError_eq_ok {ε ε' : Type} {f : ε → ε'} {x : Except ε Unit} (h : x.mapError f = .ok ()) :
    x = .ok () := by
  cases x with
  | error e => cases h
  | ok _ => rfl

namespace Clock

variable {σ ε : Type} [Clocked σ ε] {R : σ → σ → Prop} {s t : σ}

/-- Clocks that stand alike, with related systems. -/
def Beside (R : σ → σ → Prop) (p q : Clock × σ) : Prop := p.1 = q.1 ∧ R p.2 q.2

/-- On the way to a processor cycle the dots come first. -/
theorem masterCycle_cpuCycle (c : Clock) (s : σ) :
    c.masterCycle .cpuCycle s = andThen (c.dotTurn s) fun p => p.1.cpuTurn p.2 := by
  unfold masterCycle andThen
  dsimp only
  rcases c.dotTurn s with ⟨_ | _, c', s'⟩
  · rfl
  · rfl

/-- Otherwise the processor comes first. -/
theorem masterCycle_of_ne {p : Pace} (hp : p ≠ .cpuCycle) (c : Clock) (s : σ) :
    c.masterCycle p s = andThen (c.cpuTurn s) fun p => p.1.dotTurn p.2 := by
  unfold masterCycle andThen
  cases p with
  | cpuCycle => exact absurd rfl hp
  | frame =>
    dsimp only
    rcases c.cpuTurn s with ⟨_ | _, c', s'⟩
    · rfl
    · rfl
  | dot =>
    dsimp only
    rcases c.cpuTurn s with ⟨_ | _, c', s'⟩
    · rfl
    · rfl

/-- A run of cycles is the first and then the rest. -/
theorem runCycles_succ (p : Pace) (n : Nat) (c : Clock) (s : σ) :
    runCycles p (n + 1) c s = andThen (c.masterCycle p s) fun q => runCycles p n q.1 q.2 := by
  rw [runCycles]
  unfold andThen
  rcases c.masterCycle p s with ⟨_ | _, c', s'⟩
  · rfl
  · rfl

variable (hcpu : ∀ s t, R s t → Meet R (Clocked.cpuCycle s) (Clocked.cpuCycle t))
  (hdot : ∀ s t, R s t → Meet R (Clocked.dot s) (Clocked.dot t))

include hcpu in
/-- The processor's turn keeps two systems related if its cycles do. -/
theorem meet_cpuTurn (c : Clock) (h : R s t) : Meet (Beside R) (c.cpuTurn s) (c.cpuTurn t) := by
  unfold cpuTurn
  split
  · intro hs ht
    exact ⟨rfl, hcpu s t h hs ht⟩
  · intro _ _
    exact ⟨rfl, h⟩

include hdot in
/-- The turn of the dots keeps them related if the dots do. -/
theorem meet_dotTurn (c : Clock) (h : R s t) : Meet (Beside R) (c.dotTurn s) (c.dotTurn t) := by
  unfold dotTurn
  split
  · intro hs ht
    exact ⟨rfl, hdot s t h hs ht⟩
  · intro _ _
    exact ⟨rfl, h⟩

include hcpu hdot

theorem meet_masterCycle (p : Pace) (c : Clock) (h : R s t) :
    Meet (Beside R) (c.masterCycle p s) (c.masterCycle p t) := by
  by_cases hp : p = .cpuCycle
  · subst hp
    rw [masterCycle_cpuCycle, masterCycle_cpuCycle]
    refine (meet_dotTurn hdot c h).andThen ?_
    rintro ⟨c', s'⟩ ⟨_, t'⟩ ⟨rfl, h'⟩
    exact meet_cpuTurn hcpu c' h'
  · rw [masterCycle_of_ne hp, masterCycle_of_ne hp]
    refine (meet_cpuTurn hcpu c h).andThen ?_
    rintro ⟨c', s'⟩ ⟨_, t'⟩ ⟨rfl, h'⟩
    exact meet_dotTurn hdot c' h'

/-- So does a run of any length. -/
theorem meet_runCycles (p : Pace) (n : Nat) (c : Clock) (h : R s t) :
    Meet (Beside R) (runCycles p n c s) (runCycles p n c t) := by
  induction n generalizing c s t with
  | zero =>
    intro _ _
    exact ⟨rfl, h⟩
  | succ n ih =>
    rw [runCycles_succ, runCycles_succ]
    refine (meet_masterCycle hcpu hdot p c h).andThen ?_
    rintro ⟨c', s'⟩ ⟨_, t'⟩ ⟨rfl, h'⟩
    exact ih c' h'

/-- What both turns keep related, a run of the clock keeps related. -/
theorem meet_run (p : Pace) (c : Clock) (h : R s t) : Meet (Beside R) (c.run p s) (c.run p t) :=
  meet_runCycles hcpu hdot p _ c h

end Clock

/-- Where two buses answer reads alike, a processor does the same on both. -/
theorem Processor.tick_rel {β : Type} [Bus β] {R : β → β → Prop}
    (hread : ∀ b c addr, R b c → (Bus.read b addr).1 = (Bus.read c addr).1 ∧
      R (Bus.read b addr).2 (Bus.read c addr).2)
    (hwrite : ∀ b c addr data, R b c → R (Bus.write b addr data) (Bus.write c addr data))
    (p : Processor) {b c : β} (h : R b c) : (p.tick b).1 = (p.tick c).1 ∧
      (p.tick b).2.1 = (p.tick c).2.1 ∧ R (p.tick b).2.2 (p.tick c).2.2 := by
  unfold Processor.tick
  split
  · next addr next _ =>
    obtain ⟨hvalue, hbus⟩ := hread b c addr h
    exact ⟨rfl, congrArg next hvalue, hbus⟩
  · exact ⟨rfl, rfl, hwrite _ _ _ _ h⟩
  · exact ⟨rfl, rfl, h⟩

/-! ## The board -/

namespace Mainboard

variable {γ : Type}

/-- Two boards agree on everything but the mixers. -/
def Agree (b c : Mainboard γ) : Prop := ∃ sound, c = { b with sound } ∧ Sound.Agree b.sound sound

variable [Cartridge γ] {b c : Mainboard γ}

/-- Boards that agree give equal bytes, and agree after the read. -/
theorem Agree.read (h : Agree b c) (addr : UInt16) :
    (b.read addr).1 = (c.read addr).1 ∧ Agree (b.read addr).2 (c.read addr).2 := by
  obtain ⟨sound, rfl, hs⟩ := h
  obtain ⟨hvalue, hend⟩ := hs.read addr
  unfold Mainboard.read
  dsimp only
  split
  · exact ⟨rfl, sound, rfl, hs⟩
  · split
    · exact ⟨rfl, sound, rfl, hs⟩
    · split
      · exact ⟨hvalue, _, rfl, hend⟩
      · split
        · exact ⟨rfl, sound, rfl, hs⟩
        · exact ⟨rfl, sound, rfl, hs⟩

/-- Boards that agree also do so after a write. -/
theorem Agree.write (h : Agree b c) (addr : UInt16) (data : UInt8) :
    Agree (b.write addr data) (c.write addr data) := by
  obtain ⟨sound, rfl, hs⟩ := h
  unfold Mainboard.write
  dsimp only
  split
  · exact ⟨sound, rfl, hs⟩
  · split
    · exact ⟨sound, rfl, hs⟩
    · split
      · exact ⟨sound, rfl, hs⟩
      · split
        · exact ⟨sound, rfl, hs⟩
        · split
          · exact ⟨_, rfl, hs.write addr data⟩
          · split
            · exact ⟨sound, rfl, hs⟩
            · exact ⟨sound, rfl, hs⟩

end Mainboard

/-! ## The machine

  Whoever has the bus, the machines read equal bytes.  What a sound unit asks for and whether it
  interrupts does not depend on its mixer. -/

namespace Machine

variable {γ : Type}

/-- Two machines agree on everything but the mixers. -/
def Agree (m n : Machine γ) : Prop := ∃ board, n = { m with board } ∧ Mainboard.Agree m.board board

variable {m n : Machine γ}

/-- A transfer begins on both machines or on neither. -/
theorem Agree.beginTransfer (h : Agree m n) : Agree m.beginTransfer n.beginTransfer := by
  obtain ⟨_, rfl, sound, rfl, hs⟩ := h
  unfold Machine.beginTransfer
  dsimp only
  split
  · exact ⟨_, rfl, sound, rfl, hs⟩
  · exact ⟨_, rfl, sound, rfl, hs⟩

theorem Agree.raiseSoundIrq (h : Agree m n) : Agree m.raiseSoundIrq n.raiseSoundIrq := by
  obtain ⟨_, rfl, sound, rfl, hs⟩ := h
  have hirq := hs.irqPending
  unfold Machine.raiseSoundIrq
  dsimp only
  rw [hirq]
  split
  · exact ⟨_, rfl, sound, rfl, hs⟩
  · exact ⟨_, rfl, sound, rfl, hs⟩

variable [Cartridge γ]

theorem Agree.afterDot (h : Agree m n) : Agree m.afterDot n.afterDot := by
  obtain ⟨_, rfl, sound, rfl, hs⟩ := h
  exact ⟨_, rfl, sound, rfl, hs⟩

/-- The channel asks both machines for the same byte, and both read it at the same place. -/
theorem Agree.serveSound (h : Agree m n) :
    m.serveSound.1 = n.serveSound.1 ∧ Agree m.serveSound.2 n.serveSound.2 := by
  obtain ⟨_, rfl, sound, rfl, hs⟩ := h
  obtain ⟨haddr, htaken⟩ := hs.takeDmcRequest
  unfold Machine.serveSound Mainboard.onSound
  dsimp only
  rw [← haddr]
  cases m.board.sound.takeDmcRequest.1 with
  | none => exact ⟨rfl, _, rfl, _, rfl, htaken⟩
  | some addr =>
    have hboards : Mainboard.Agree { m.board with sound := m.board.sound.takeDmcRequest.2 }
        { m.board with sound := sound.takeDmcRequest.2 } := ⟨_, rfl, htaken⟩
    obtain ⟨hvalue, sound', hboard, hs'⟩ := hboards.read addr
    refine ⟨rfl, _, rfl, _, ?_, hs'.fillDmc _⟩
    dsimp only
    rw [hvalue, hboard]

/-- The processors read equal bytes, so they go on alike. -/
theorem Agree.processorCycle (h : Agree m n) : Agree m.processorCycle n.processorCycle := by
  obtain ⟨board, rfl, hb⟩ := h
  obtain ⟨hkind, hcpu, sound, hboard, hs⟩ := m.cpu.tick_rel (R := Mainboard.Agree)
    (fun _ _ addr h => h.read addr) (fun _ _ addr data h => h.write addr data) hb
  unfold Machine.processorCycle
  dsimp only
  rw [← hkind, ← hcpu, hboard]
  exact ⟨_, rfl, sound, rfl, hs⟩

/-- A transfer copies equal bytes. -/
theorem Agree.transferCycle (h : Agree m n) (t : SpriteTransfer) :
    Agree (m.transferCycle t) (n.transferCycle t) := by
  obtain ⟨board, rfl, hb⟩ := h
  obtain ⟨hvalue, hread⟩ := hb.read t.source
  unfold Machine.transferCycle
  dsimp only
  split
  · rw [hvalue]
    exact ⟨_, rfl, hread⟩
  · exact ⟨_, rfl, hb.write 0x2004 t.data⟩

/-- The same party has the bus on both machines. -/
theorem Agree.busCycle (h : Agree m n) : Agree m.busCycle n.busCycle := by
  have htransfer : n.transfer = m.transfer := by
    obtain ⟨board, rfl, -⟩ := h
    rfl
  unfold Machine.busCycle
  rw [htransfer]
  split
  · split
    · exact h.transferCycle _
    · exact h.processorCycle
  · exact h.processorCycle

/-- What a processor cycle leaves where the audio frame is not refused. -/
theorem cpuCycle_of_ok (h : m.cpuCycle.1 = .ok ()) :
    m.serveSound.2.board.sound.process.1 = .ok () ∧
      m.cpuCycle.2 =
        let k := m.serveSound.2
        let k := { k with board := { k.board with sound := k.board.sound.process.2 } }
        if m.serveSound.1 then k.raiseSoundIrq else k.raiseSoundIrq.beginTransfer.busCycle := by
  unfold Machine.cpuCycle Mainboard.onSound at h ⊢
  dsimp only at h ⊢
  cases hp : m.serveSound.2.board.sound.process.1 with
  | error e =>
    rw [hp] at h
    cases h
  | ok _ => exact ⟨rfl, rfl⟩

/-- A processor cycle does the same to both machines, unless one of them refuses its audio frame. -/
theorem Agree.cpuCycle (h : Agree m n) : Meet Agree m.cpuCycle n.cpuCycle := by
  intro hm hn
  obtain ⟨hmp, hm⟩ := cpuCycle_of_ok hm
  obtain ⟨hnp, hn⟩ := cpuCycle_of_ok hn
  obtain ⟨hstalled, _, hserved, sound, rfl, hs⟩ := h.serveSound
  have hprocessed : Agree
      { m.serveSound.2 with
        board := { m.serveSound.2.board with sound := m.serveSound.2.board.sound.process.2 } }
      { n.serveSound.2 with
        board := { n.serveSound.2.board with sound := n.serveSound.2.board.sound.process.2 } } := by
    rw [hserved] at hnp ⊢
    exact ⟨_, rfl, _, rfl, hs.process hmp hnp⟩
  rw [hm, hn, ← hstalled]
  dsimp only
  split
  · exact hprocessed.raiseSoundIrq
  · exact hprocessed.raiseSoundIrq.beginTransfer.busCycle

/-- A dot that goes well is one of the board, followed by what the machine makes of it. -/
theorem dot_of_ok (h : m.dot.1 = .ok ()) :
    m.dot.2 = afterDot { m with board := m.board.dot.2 } := by
  unfold Machine.dot at h ⊢
  dsimp only at h ⊢
  split at h
  · cases h
  · next hd => rw [hd]

/-- Nor has a dot anything to do with the mixers. -/
theorem Agree.dot (h : Agree m n) : Meet Agree m.dot n.dot := by
  intro hm hn
  rw [dot_of_ok hm, dot_of_ok hn]
  obtain ⟨_, rfl, sound, rfl, hs⟩ := h
  have hdrawn : Agree { m with board := m.board.dot.2 }
      { m with board := ({ m.board with sound } : Mainboard γ).dot.2 } := ⟨_, rfl, sound, rfl, hs⟩
  exact hdrawn.afterDot

end Machine

/-! ## The console -/

namespace Console

variable {γ : Type}

/-- Two consoles agree on everything but the mixers, and are set up for one region. -/
def Agree (c d : Console γ) : Prop := ∃ machine settings, d = { c with machine, settings } ∧
  Machine.Agree c.machine machine ∧ settings.region = c.settings.region

/-- What can be done to a console. -/
inductive Operation where
  | runFrame
  | stepCpu
  | stepDot
  | stepInstruction
  | pause
  | resume
  | setRegion (region : Region)
  | reset
  | takeSamples
  | hold (controllers : Controllers)
  | read (addr : UInt16)
  | write (addr : UInt16) (data : UInt8)
  | mapCpu (f : Processor → Processor)

/-- The operation only takes samples. -/
def Operation.takes : Operation → Bool
  | .takeSamples => true
  | _ => false

section

variable [Cartridge γ]

/-- Does something to a console. -/
def perform (c : Console γ) : Operation → Except ConsoleError Unit × Console γ
  | .runFrame => c.runFrame
  | .stepCpu => c.stepCpu
  | .stepDot => c.stepDot
  | .stepInstruction => c.stepInstruction
  | .pause => c.pause
  | .resume => (.ok (), c.resume)
  | .setRegion region => c.setRegion region
  | .reset => c.reset
  | .takeSamples => (.ok (), c.takeSamples.2)
  | .hold controllers => (.ok (), (c.onBoard fun b => ((), { b with controllers })).2)
  | .read addr => (.ok (), (c.onBoard (·.read addr)).2)
  | .write addr data => (.ok (), (c.onBoard fun b => ((), b.write addr data)).2)
  | .mapCpu f => (.ok (), c.mapCpu f)

/-- Does one thing after the other to a console, until something fails. -/
def performAll (c : Console γ) : List Operation → Except ConsoleError Unit × Console γ
  | [] => (.ok (), c)
  | op :: ops => andThen (c.perform op) (·.performAll ops)

end

variable {c d : Console γ}

theorem Agree.trans {e : Console γ} (h : Agree c d) (h' : Agree d e) : Agree c e := by
  obtain ⟨_, settings, rfl, ⟨_, rfl, sound, rfl, hs⟩, hr⟩ := h
  obtain ⟨_, settings', rfl, ⟨_, rfl, sound', rfl, hs'⟩, hr'⟩ := h'
  exact ⟨_, settings', rfl, ⟨_, rfl, sound', rfl, hs.trans hs'⟩, hr'.trans hr⟩

theorem Agree.symm (h : Agree c d) : Agree d c := by
  obtain ⟨_, settings, rfl, ⟨_, rfl, sound, rfl, hs⟩, hr⟩ := h
  exact ⟨_, c.settings, rfl, ⟨_, rfl, c.machine.board.sound, rfl, hs.symm⟩, hr.symm⟩

/-- Taking samples has no part in what is seen. -/
theorem agree_takeSamples (c : Console γ) : Agree c c.takeSamples.2 :=
  ⟨_, c.settings, rfl, ⟨_, rfl, _, rfl, Sound.agree_takeSamples _⟩, rfl⟩

theorem Agree.resume (h : Agree c d) : Agree c.resume d.resume := by
  obtain ⟨machine, settings, rfl, hm, hr⟩ := h
  exact ⟨machine, settings, rfl, hm, hr⟩

/-- Consoles that agree also do so after the same thing has been done to their processors. -/
theorem Agree.mapCpu (h : Agree c d) (f : Processor → Processor) : Agree (c.mapCpu f) (d.mapCpu f) := by
  obtain ⟨_, settings, rfl, ⟨board, rfl, hb⟩, hr⟩ := h
  exact ⟨_, settings, rfl, ⟨board, rfl, hb⟩, hr⟩

/-- What keeps boards in agreement keeps consoles in agreement. -/
theorem Agree.onBoard (h : Agree c d) {α : Type} {f : Mainboard γ → α × Mainboard γ}
    (hf : ∀ a b, Mainboard.Agree a b → Mainboard.Agree (f a).2 (f b).2) :
    Agree (c.onBoard f).2 (d.onBoard f).2 := by
  obtain ⟨_, settings, rfl, ⟨board, rfl, hb⟩, hr⟩ := h
  exact ⟨_, settings, rfl, ⟨_, rfl, hf _ _ hb⟩, hr⟩

/-- A reset leaves nothing of what was before but the cartridge and the settings. -/
theorem reset_of_ok (h : c.reset.1 = .ok ()) : c.reset.2 =
    { c with
      clock := .new c.settings.region, paused := false
      machine := .new { c.machine.board with
        ram := .replicate _ 0, picture := c.machine.board.picture.reset, controllers := {}
        sound := c.machine.board.sound.reset.2 } } := by
  unfold Console.reset at h ⊢
  dsimp only at h ⊢
  split at h
  · cases h
  · next machine hm =>
    have hmachine : machine = c.machine.reset.2 := (congrArg Prod.snd hm).symm
    rw [hmachine]
    rfl

/-- Two consoles that agree and are both reset agree again. -/
theorem Agree.reset (h : Agree c d) : Meet Agree c.reset d.reset := by
  intro hc hd
  rw [reset_of_ok hc, reset_of_ok hd]
  obtain ⟨_, settings, rfl, ⟨_, rfl, sound, rfl, hs⟩, hr⟩ := h
  dsimp only
  rw [hr]
  exact ⟨_, settings, rfl, ⟨_, rfl, _, rfl, hs.reset⟩, hr⟩

variable [Cartridge γ]

/-- A run of the clock keeps consoles in agreement unless one of them fails. -/
theorem Agree.run (h : Agree c d) (pace : Pace) : Meet Agree (c.run pace) (d.run pace) := by
  obtain ⟨machine, settings, rfl, hm, hr⟩ := h
  intro hc hd
  obtain ⟨hclock, hend⟩ := Clock.meet_run (R := Machine.Agree) (fun _ _ h => h.cpuCycle)
    (fun _ _ h => h.dot) pace c.clock hm (mapError_eq_ok hc) (mapError_eq_ok hd)
  unfold Console.run
  dsimp only
  rw [← hclock]
  exact ⟨_, settings, rfl, hend, hr⟩

/-- The end of an audio frame, as a call to the console. -/
def endAudio (c : Console γ) : Except ConsoleError Unit × Console γ :=
  let (result, c) := c.onBoard (·.onSound Sound.endFrame)
  (result.mapError .audio, c)

omit [Cartridge γ] in
/-- So does the end of an audio frame. -/
theorem Agree.endAudio (h : Agree c d) : Meet Agree c.endAudio d.endAudio := by
  obtain ⟨_, settings, rfl, ⟨_, rfl, sound, rfl, hs⟩, hr⟩ := h
  intro hc hd
  exact ⟨_, settings, rfl,
    ⟨_, rfl, _, rfl, hs.endFrame (mapError_eq_ok hc) (mapError_eq_ok hd)⟩, hr⟩

theorem runFrame_eq (c : Console γ) : c.runFrame = andThen (c.resume.run .frame) endAudio := by
  unfold runFrame andThen
  rcases c.resume.run .frame with ⟨_ | _, c'⟩
  · rfl
  · rfl

theorem Agree.runFrame (h : Agree c d) : Meet Agree c.runFrame d.runFrame := by
  rw [runFrame_eq, runFrame_eq]
  exact (h.resume.run .frame).andThen fun _ _ h => h.endAudio

theorem settleWithin_succ (n : Nat) (c : Console γ) : settleWithin (n + 1) c =
    if c.machine.isSettled then (.ok (), c) else andThen c.stepCpu (settleWithin n) := by
  rw [settleWithin]
  unfold andThen
  rcases c.stepCpu with ⟨_ | _, c'⟩
  · rfl
  · rfl

/-- The search for a settled state takes as many steps on both consoles. -/
theorem Agree.settleWithin (h : Agree c d) (n : Nat) : Meet Agree (settleWithin n c) (settleWithin n d) := by
  induction n generalizing c d with
  | zero =>
    intro _ _
    exact h
  | succ n ih =>
    have hsettled : d.machine.isSettled = c.machine.isSettled := by
      obtain ⟨_, settings, rfl, ⟨_, rfl, -⟩, -⟩ := h
      rfl
    rw [settleWithin_succ, settleWithin_succ, hsettled]
    split
    · intro _ _
      exact h
    · exact (h.run .cpuCycle).andThen fun _ _ h => ih h

theorem stepInstruction_eq (c : Console γ) : c.stepInstruction = andThen c.stepCpu settle := by
  unfold stepInstruction andThen
  rcases c.stepCpu with ⟨_ | _, c'⟩
  · rfl
  · rfl

theorem Agree.stepInstruction (h : Agree c d) : Meet Agree c.stepInstruction d.stepInstruction := by
  rw [stepInstruction_eq, stepInstruction_eq]
  exact (h.run .cpuCycle).andThen fun _ _ h => h.settleWithin settleBound

theorem pause_eq (c : Console γ) :
    c.pause = andThen c.settle fun c => (.ok (), { c with paused := true }) := by
  unfold pause andThen
  rcases c.settle with ⟨_ | _, c'⟩
  · rfl
  · rfl

/-- A pause finds the same settled state on both. -/
theorem Agree.pause (h : Agree c d) : Meet Agree c.pause d.pause := by
  rw [pause_eq, pause_eq]
  refine (h.settleWithin settleBound).andThen ?_
  rintro c _ ⟨machine, settings, rfl, hm, hr⟩ _ _
  exact ⟨machine, settings, rfl, hm, hr⟩

/-- A console that was switched is paused, and all its parts have switched. -/
theorem setRegion_of_ok {region : Region} (h : (c.setRegion region).1 = .ok ()) :
    c.pause.1 = .ok () ∧ (c.pause.2.machine.board.sound.setRegion region).1 = .ok () ∧
      (c.setRegion region).2 =
        let p := c.pause.2
        { p with
          clock := .new region, settings := { p.settings with region }
          machine := { p.machine with
            board := { p.machine.board with
              picture := p.machine.board.picture.setRegion region
              sound := (p.machine.board.sound.setRegion region).2 } } } := by
  unfold setRegion at h ⊢
  generalize c.pause = paused at h ⊢
  rcases paused with ⟨_ | _, p⟩
  · cases h
  · dsimp only [Mainboard.onSound] at h ⊢
    cases hs : (p.machine.board.sound.setRegion region).1 with
    | error e =>
      rw [hs] at h
      cases h
    | ok _ => exact ⟨rfl, rfl, rfl⟩

/-- The region is switched on both or on neither. -/
theorem Agree.setRegion (h : Agree c d) (region : Region) :
    Meet Agree (c.setRegion region) (d.setRegion region) := by
  intro hc hd
  obtain ⟨hcp, hcs, hc⟩ := setRegion_of_ok hc
  obtain ⟨hdp, hds, hd⟩ := setRegion_of_ok hd
  obtain ⟨_, settings, hpaused, ⟨_, rfl, sound, rfl, hs⟩, hr⟩ := h.pause hcp hdp
  rw [hpaused] at hds hd
  rw [hc, hd]
  exact ⟨_, { settings with region }, rfl, ⟨_, rfl, _, rfl, hs.setRegion hcs hds⟩, rfl⟩

/-- Consoles that agree do so after each operation that succeeds on both. -/
theorem Agree.perform (h : Agree c d) (op : Operation) : Meet Agree (c.perform op) (d.perform op) := by
  cases op with
  | runFrame => exact h.runFrame
  | stepCpu => exact h.run .cpuCycle
  | stepDot => exact h.run .dot
  | stepInstruction => exact h.stepInstruction
  | pause => exact h.pause
  | resume => exact fun _ _ => h.resume
  | setRegion region => exact h.setRegion region
  | reset => exact h.reset
  | takeSamples => exact fun _ _ => (agree_takeSamples c).symm.trans (h.trans (agree_takeSamples d))
  | hold controllers =>
    intro _ _
    refine h.onBoard (f := fun b => ((), { b with controllers })) ?_
    rintro a _ ⟨sound, rfl, hs⟩
    exact ⟨sound, rfl, hs⟩
  | read addr => exact fun _ _ => h.onBoard fun _ _ hb => (hb.read addr).2
  | write addr data =>
    intro _ _
    exact h.onBoard (f := fun b => ((), b.write addr data)) fun _ _ hb => hb.write addr data
  | mapCpu f => exact fun _ _ => h.mapCpu f

/-- Taking samples changes nothing else, however often. -/
theorem agree_performAll_takes {ops : List Operation} (hops : ∀ op ∈ ops, op.takes = true)
    (c : Console γ) : (c.performAll ops).1 = .ok () ∧ Agree c (c.performAll ops).2 := by
  induction ops generalizing c with
  | nil => exact ⟨rfl, ⟨_, _, rfl, ⟨_, rfl, _, rfl, .refl _⟩, rfl⟩⟩
  | cons op ops ih =>
    obtain ⟨htake, hrest⟩ := List.forall_mem_cons.mp hops
    cases op with
    | takeSamples =>
      obtain ⟨hok, hend⟩ := ih hrest c.takeSamples.2
      exact ⟨hok, (agree_takeSamples c).trans hend⟩
    | _ => cases htake

/-- Operations in two parts. -/
theorem performAll_append (c : Console γ) (ops ops' : List Operation) :
    c.performAll (ops ++ ops') = andThen (c.performAll ops) (·.performAll ops') := by
  induction ops generalizing c with
  | nil => rfl
  | cons op ops ih =>
    show andThen (c.perform op) (·.performAll (ops ++ ops')) =
      andThen (andThen (c.perform op) (·.performAll ops)) (·.performAll ops')
    rcases c.perform op with ⟨_ | _, c'⟩
    · rfl
    · exact ih c'

/-- The operations other than taking samples, in order. -/
def others (ops : List Operation) : List Operation := ops.filter (! ·.takes)

/-- Consoles that agree do so after operations that differ only in where samples are taken. -/
theorem Agree.performAll {ops ops' : List Operation} (h : Agree c d) (hops : others ops = others ops') :
    Meet Agree (c.performAll ops) (d.performAll ops') := by
  induction ops generalizing c d ops' with
  | nil =>
    have htakes : ∀ op ∈ ops', op.takes = true := by
      intro op hop
      have := List.filter_eq_nil_iff.mp hops.symm op hop
      simpa using this
    intro _ _
    exact h.trans (agree_performAll_takes htakes d).2
  | cons op ops ih =>
    by_cases htake : op.takes = true
    · have hrest : others ops = others ops' := by
        rw [← hops]
        exact (List.filter_cons_of_neg (by simp [htake])).symm
      cases op with
      | takeSamples => exact ih ((agree_takeSamples c).symm.trans h) hrest
      | _ => cases htake
    · -- the same operation is next on the other console, after samples were taken
      have hnext : others ops' = op :: others ops := by
        rw [← hops]
        exact List.filter_cons_of_pos (by simp [htake])
      obtain ⟨before, after, rfl, hbefore, -, hafter⟩ := List.filter_eq_cons_iff.mp hnext
      have htakes : ∀ op ∈ before, op.takes = true := by
        intro op hop
        have := hbefore op hop
        simpa using this
      obtain ⟨hok, hd⟩ := agree_performAll_takes htakes d
      rw [performAll_append, andThen_of_ok hok]
      exact ((h.trans hd).perform op).andThen fun _ _ h => ih h hafter.symm

omit [Cartridge γ] in
/-- Consoles that are built for one region and one length of audio frames agree. -/
theorem agree_new {settings settings' : Settings} {cartridge : γ}
    (hc : Console.new settings cartridge = .ok c) (hd : Console.new settings' cartridge = .ok d)
    (hr : settings'.region = settings.region)
    (hlen : settings'.audio.cycleLength = settings.audio.cycleLength) : Agree c d := by
  obtain ⟨-, sound, hs, rfl⟩ := new_eq_ok_iff.mp hc
  obtain ⟨-, sound', hs', rfl⟩ := new_eq_ok_iff.mp hd
  obtain ⟨hw, hsound⟩ := Sound.new_eq_ok hs
  obtain ⟨hw', hsound'⟩ := Sound.new_eq_ok hs'
  have hsounds : Sound.Agree sound sound' := by
    rw [hr] at hsound'
    refine ⟨sound'.mixer, ?_, ?_⟩
    · rw [hsound', hsound]
    · have hset : sound.mixer.settings = settings.audio := congrArg Sound.Wiring.settings hw
      have hset' : sound'.mixer.settings = settings'.audio := congrArg Sound.Wiring.settings hw'
      rw [hset, hset']
      exact hlen
  rw [hr]
  exact ⟨_, settings', rfl, ⟨_, rfl, sound', rfl, hsounds⟩, hr⟩

/-- Two consoles of one cartridge, one region and one length of audio frames, whatever number of samples
    they make of the sound and keep: after the same operations, wherever samples are taken in between and
    as long as nothing fails on either, they are equal but for the mixers and the settings of the audio. -/
theorem performAll_agree {settings settings' : Settings} {cartridge : γ} {ops ops' : List Operation}
    (hc : Console.new settings cartridge = .ok c) (hd : Console.new settings' cartridge = .ok d)
    (hr : settings'.region = settings.region)
    (hlen : settings'.audio.cycleLength = settings.audio.cycleLength) (hops : others ops = others ops')
    {c' d' : Console γ} (hcs : c.performAll ops = (.ok (), c')) (hds : d.performAll ops' = (.ok (), d')) :
    ∃ settings mixer, d' = { c'.withMixer mixer with settings } ∧ settings.region = c'.settings.region := by
  have hmeet := (agree_new hc hd hr hlen).performAll hops
  rw [hcs, hds] at hmeet
  obtain ⟨_, settings, rfl, ⟨_, rfl, _, rfl, mixer, rfl, -⟩, hregion⟩ := hmeet rfl rfl
  exact ⟨settings, mixer, rfl, hregion⟩

/-- Channels are enabled and the console is reset, at two rates and with samples taken or not. -/
theorem performAll_agree_reset : ∃ c d c' d' : Console Nrom,
    Console.new {} Picture.solidBoard = .ok c ∧
      Console.new { audio := { sampleRate := 44100, bufferSamples := 64 } } Picture.solidBoard = .ok d ∧
      c.performAll [.write 0x4015 0x1F, .reset] = (.ok (), c') ∧
      d.performAll [.takeSamples, .write 0x4015 0x1F, .takeSamples, .reset] = (.ok (), d') ∧
      ∃ settings mixer, d' = { c'.withMixer mixer with settings } ∧
        settings.region = c'.settings.region := by
  have hchecks : ({ audio := { sampleRate := 44100, bufferSamples := 64 } } : Settings).check = .ok () := rfl
  obtain ⟨c, hc⟩ := exists_new (show ({} : Settings).check = .ok () from rfl) (by decide) .ntsc Picture.solidBoard
  obtain ⟨d, hd⟩ := exists_new hchecks (by decide) .ntsc Picture.solidBoard
  have hcr := ((Reachable.new _ hc).write 0x4015 0x1F)
  have hdr := (((Reachable.new _ hd).takeSamples).write 0x4015 0x1F).takeSamples
  obtain ⟨c', -, -, -, mixer, hcs⟩ := reset_powerOn hcr
  obtain ⟨d', -, -, -, mixer', hds⟩ := reset_powerOn hdr
  have hcall : c.performAll [.write 0x4015 0x1F, .reset] = (.ok (), c'.withMixer mixer) := by
    show andThen (c.onBoard fun b => ((), b.write 0x4015 0x1F)).2.reset (·.performAll []) = _
    rw [hcs]
    rfl
  have hdall : d.performAll [.takeSamples, .write 0x4015 0x1F, .takeSamples, .reset] =
      (.ok (), d'.withMixer mixer') := by
    show andThen (d.takeSamples.2.onBoard fun b => ((), b.write 0x4015 0x1F)).2.takeSamples.2.reset
      (·.performAll []) = _
    rw [hds]
    rfl
  have hops : others [.write 0x4015 0x1F, .reset] =
      others [.takeSamples, .write 0x4015 0x1F, .takeSamples, .reset] := rfl
  exact ⟨c, d, _, _, hc, hd, hcall, hdall, performAll_agree hc hd rfl rfl hops hcall hdall⟩

end Console

end Famicom
