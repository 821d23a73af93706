/-
  The representation of a picture unit, after whatever was done to it.

  1. **Bounds** (`Represented`): where the unit stands, how wide its scroll registers are, how far it
     has got with its sprites, what its memories hold and how long it has been warming up.
  2. **No slip** (`Unfailing`): from there a dot, a register read and a register written go through with
     every check made (`Checked`), and do what the unit does.
  3. **The bus** (`StaysOnBus`): `Tapped` is a cartridge with a note of every address it is asked for,
     shown and given.  What the accesses below `$4000` keep, every part of a dot keeps (`Keeps`), so
     only such addresses are noted.

  `run_represented` puts the three together, for every run from power-on.
-/
import Famicom.Proofs.Picture.CheckedDot

namespace Famicom

/-! ## What accesses to the picture bus keep -/

/-- Accesses below `$4000` keep a property of the cartridge. -/
structure KeptOnBus {γ : Type} [Cartridge γ] (I : γ → Prop) : Prop where
  read : ∀ (c : γ) (addr : UInt16), addr < 0x4000 → I c → I (Cartridge.ppuRead c addr).2
  watch : ∀ (c : γ) (addr : UInt16), addr < 0x4000 → I c → I (Cartridge.watchA12 c addr)
  write : ∀ (c : γ) (addr : UInt16) (data : UInt8), addr < 0x4000 → I c →
    I (Cartridge.ppuWrite c addr data)

/-- Whatever answer there is leaves the second part with a property. -/
def Keeps {α σ : Type} (I : σ → Prop) (o : Option (α × σ)) : Prop := ∀ r, o = some r → I r.2

namespace Keeps

variable {α β σ τ : Type} {I : σ → Prop} {J : τ → Prop}

/-- What answers with a state that keeps the condition keeps it. -/
theorem answer {r : α × σ} (h : I r.2) : Keeps I (some r) := by
  rintro _ ⟨⟩
  exact h

/-- One step after the other. -/
theorem bind {o : Option (α × σ)} {f : α × σ → Option (β × τ)} (h : Keeps I o)
    (hf : ∀ r, I r.2 → Keeps J (f r)) : Keeps J (o >>= f) := by
  intro s hs
  obtain ⟨r, hr, hs⟩ := Option.bind_eq_some_iff.mp hs
  exact hf r (h r hr) s hs

/-- A step that has nothing to do with the second part. -/
theorem pass {o : Option α} {f : α → Option (β × τ)} (hf : ∀ x, Keeps J (f x)) : Keeps J (o >>= f) := by
  intro s hs
  obtain ⟨x, -, hs⟩ := Option.bind_eq_some_iff.mp hs
  exact hf x s hs

end Keeps

namespace Checked

variable {γ : Type} [Cartridge γ] {I : γ → Prop} {p : Picture} {c : γ}

section

variable (hI : KeptOnBus I) (h : I c)
include hI h

/-- The cartridge is asked at an address of the bus only. -/
theorem ask_keeps (addr : UInt16) : Keeps I (ask c addr) := by
  unfold ask need
  split
  · next hlt => exact .answer (hI.read c addr hlt h)
  · nofun

theorem watch_keeps (addr : UInt16) {c' : γ} (hc : watch c addr = some c') : I c' := by
  unfold watch need at hc
  split at hc
  · next hlt =>
    cases hc
    exact hI.watch c addr hlt h
  · cases hc

/-- And it is given bytes at such addresses only. -/
theorem give_keeps (addr : UInt16) (data : UInt8) {c' : γ} (hc : give c addr data = some c') : I c' := by
  unfold give need at hc
  split at hc
  · next hlt =>
    cases hc
    exact hI.write c addr data hlt h
  · cases hc

theorem readPattern_keeps (addr : UInt16) : Keeps I (readPattern c addr) := by
  refine (ask_keeps hI h addr).bind fun r hr s hs => ?_
  obtain ⟨c', hwatch, hs⟩ := Option.bind_eq_some_iff.mp hs
  cases hs
  exact watch_keeps hI hr addr hwatch

/-- A background fetch asks at the bus only. -/
theorem fetchBackground_keeps (p : Picture) : Keeps I (fetchBackground p c) := by
  unfold fetchBackground
  split
  · exact .answer h
  · split
    · exact .answer h
    · split
      · exact (ask_keeps hI h _).bind fun r hr => .answer hr
      · exact (ask_keeps hI h _).bind fun r hr => .pass fun _ => .answer hr
      · exact (readPattern_keeps hI h _).bind fun r hr => .answer hr
      · exact .pass fun addr => (readPattern_keeps hI h addr).bind fun r hr => .answer hr

theorem pixelDot_keeps (p : Picture) : Keeps I (pixelDot p c) :=
  (fetchBackground_keeps hI h p).bind fun _ hr => .pass fun _ => .pass fun _ => .answer hr

/-- So does a sprite's fetch. -/
theorem fetchSprite_keeps (p : Picture) : Keeps I (fetchSprite p c) := by
  refine .pass fun y => .pass fun tile => .pass fun attributes => .pass fun x => .pass fun addr => ?_
  refine (readPattern_keeps hI h addr).bind fun low hlow => .pass fun next => ?_
  refine (readPattern_keeps hI hlow next).bind fun high hhigh => ?_
  dsimp only
  split
  · exact .pass fun _ => .answer hhigh
  · exact .answer hhigh

theorem spriteFetches_keeps (p : Picture) : Keeps I (spriteFetches p c) := by
  refine .pass fun dot => ?_
  dsimp only
  split
  · exact (ask_keeps hI h _).bind fun r hr => .answer hr
  · exact (ask_keeps hI h _).bind fun r hr => .answer hr
  · exact fetchSprite_keeps hI h p
  · exact .answer h

theorem spriteDot_keeps (p : Picture) : Keeps I (spriteDot p c) := by
  unfold spriteDot
  split
  · exact .answer h
  · exact (spriteFetches_keeps hI h _).bind fun r hr => .answer hr

theorem prefetchDot_keeps (p : Picture) : Keeps I (prefetchDot p c) := by
  refine (fetchBackground_keeps hI h p).bind fun r hr => ?_
  dsimp only
  split
  · exact .answer hr
  · split
    · exact .pass fun _ => .answer hr
    · split
      · exact .pass fun _ => .answer hr
      · exact .answer hr

theorem idleDot_keeps (p : Picture) : Keeps I (idleDot p c) := by
  unfold idleDot
  split
  · exact .answer h
  · exact (ask_keeps hI h _).bind fun r hr => .answer hr

/-- So does every dot on which the unit is at work. -/
theorem drawingDot_keeps (p : Picture) : Keeps I (drawingDot p c) := by
  unfold drawingDot
  dsimp only
  split
  · exact pixelDot_keeps hI h _
  · split
    · exact spriteDot_keeps hI h _
    · split
      · exact prefetchDot_keeps hI h _
      · split
        · exact idleDot_keeps hI h _
        · exact .answer h

/-- And every dot at all. -/
theorem tick_keeps (p : Picture) : Keeps I (tick p c) := by
  refine .pass fun q => ?_
  dsimp only
  split
  · exact .pass fun _ => .answer h
  · split
    · exact drawingDot_keeps hI h _
    · exact .answer h

theorem readData_keeps (p : Picture) : Keeps I (readData p c) :=
  .pass fun _ => (ask_keeps hI h _).bind fun _ hr => .pass fun _ => .answer hr

/-- A read of a register asks at the bus only. -/
theorem readRegister_keeps (p : Picture) (addr : UInt16) :
    Keeps (fun s : Picture × γ => I s.2) (readRegister p c addr) := by
  unfold readRegister
  split
  · exact .answer h
  · exact .pass fun _ => .answer h
  · exact (readData_keeps hI h p).bind fun r hr => .answer hr
  · exact .answer h

theorem writeData_keeps (p : Picture) (data : UInt8) : Keeps I (writeData p c data) := by
  unfold writeData
  dsimp only
  split
  · exact .pass fun _ => .pass fun _ => .answer h
  · intro s hs
    obtain ⟨c', hgive, hs⟩ := Option.bind_eq_some_iff.mp hs
    have hc := give_keeps hI h _ _ hgive
    exact Keeps.pass (fun _ => .answer hc) s hs

/-- A write to one gives at the bus only. -/
theorem writeRegister_keeps (p : Picture) (addr : UInt16) (data : UInt8) :
    Keeps I (writeRegister p c addr data) := by
  unfold writeRegister
  dsimp only
  split
  · exact .answer h
  · exact .answer h
  · exact .answer h
  · exact .pass fun _ => .answer h
  · exact .answer h
  · exact .answer h
  · exact writeData_keeps hI h _ data
  · exact .answer h

end

end Checked

/-! ## A cartridge that takes note -/

/-- A cartridge with a note of the picture bus addresses it is asked for, shown and given. -/
structure Tapped (γ : Type) where
  board : γ
  noted : List UInt16 := []

namespace Tapped

variable {γ : Type} [Cartridge γ]

/-- One more address. -/
def note (t : Tapped γ) (board : γ) (addr : UInt16) : Tapped γ := ⟨board, addr :: t.noted⟩

instance : Cartridge (Tapped γ) where
  cpuRead t addr :=
    ((Cartridge.cpuRead t.board addr).1, { t with board := (Cartridge.cpuRead t.board addr).2 })
  cpuWrite t addr data := { t with board := Cartridge.cpuWrite t.board addr data }
  ppuRead t addr := ((Cartridge.ppuRead t.board addr).1, t.note (Cartridge.ppuRead t.board addr).2 addr)
  ppuWrite t addr data := t.note (Cartridge.ppuWrite t.board addr data) addr
  watchA12 t addr := t.note (Cartridge.watchA12 t.board addr) addr
  onCpuCycle t kind := { t with board := Cartridge.onCpuCycle t.board kind }
  takeIrq t := ((Cartridge.takeIrq t.board).1, { t with board := (Cartridge.takeIrq t.board).2 })

/-- Every address noted lies on the picture bus. -/
def OnBus (t : Tapped γ) : Prop := ∀ addr ∈ t.noted, addr < 0x4000

omit [Cartridge γ] in
/-- To note an address of the bus keeps the notes on the bus. -/
theorem onBus_note {t : Tapped γ} (h : t.OnBus) (board : γ) {addr : UInt16} (ha : addr < 0x4000) :
    (t.note board addr).OnBus := by
  intro a hmem
  rcases List.mem_cons.mp hmem with rfl | hmem
  · exact ha
  · exact h a hmem

/-- Being on the bus is kept by all that a unit does with its cartridge. -/
theorem onBus_kept : KeptOnBus (@OnBus γ) where
  read _ _ ha h := onBus_note h _ ha
  watch _ _ ha h := onBus_note h _ ha
  write _ _ _ ha h := onBus_note h _ ha

end Tapped

namespace Picture

variable {γ : Type} [Cartridge γ] {p : Picture}

/-! ## The representation -/

/-- What the numbers and the memories of a picture unit are bounded by. -/
structure Represented (p : Picture) : Prop where
  dot : p.dot ≤ 340 ∨ p.dot = 0xFFFF
  row : p.row ≤ p.region.prerenderRow
  addr : p.scroll.addr.toNat < 2 ^ 15
  start : p.scroll.start.toNat < 2 ^ 15
  fineX : p.scroll.fineX < 8
  copied : p.evaluation.copied ≤ 32
  count : p.sprites.count ≤ 8
  sixBits : ∀ (i : Nat) (h : i < 32), p.palette[i] < 64
  mirrored : ∀ (k : Nat) (h : k < 4), p.palette[0x10 + 4 * k] = p.palette[4 * k]
  attributes : ∀ (i : Nat) (h : i < 64), p.oam[4 * i + 2] &&& 0x1C = 0
  warmUpCount : p.warmUpCount ≤ p.region.warmUpDots

/-- A dot finds room for the sprite it fetches, and with a register read or written leaves no memory,
    no word and no bus: every check made, it does the same. -/
structure Unfailing (γ : Type) [Cartridge γ] (p : Picture) : Prop where
  room : ∀ c : γ, (p.tick c).1 = .ok ()
  tick : ∀ c : γ, Checked.tick p c = some (p.tick c).2
  read : ∀ (c : γ) (addr : UInt16), Checked.readRegister p c addr = some (p.readRegister c addr)
  write : ∀ (c : γ) (addr : UInt16) (data : UInt8),
    Checked.writeRegister p c addr data = some (p.writeRegister c addr data)

/-- The cartridge is only asked for, shown and given addresses below `$4000`. -/
structure StaysOnBus (γ : Type) [Cartridge γ] (p : Picture) : Prop where
  tick : ∀ t : Tapped γ, t.OnBus → (p.tick t).2.2.OnBus
  read : ∀ (t : Tapped γ) (addr : UInt16), t.OnBus → (p.readRegister t addr).2.2.OnBus
  write : ∀ (t : Tapped γ) (addr : UInt16) (data : UInt8), t.OnBus →
    (p.writeRegister t addr data).2.OnBus

namespace Upheld

/-- What is upheld is represented by the words of the unit. -/
theorem represented (h : Upheld p) : Represented p where
  dot := h.placed.dot.imp id And.left
  row := h.placed.row
  addr := h.scroll.addr
  start := h.scroll.start
  fineX := h.scroll.fineX
  copied := h.paced.fits.copied
  count := h.paced.fits.count
  sixBits := h.bounded.colors.sixBits
  mirrored := h.bounded.colors.mirrored
  attributes i hi := h.bounded.attributes (4 * i + 2) (by omega) (by omega)
  warmUpCount := h.placed.count

/-- And no act on the unit fails. -/
theorem unfailing (h : Upheld p) : Unfailing γ p where
  room c := (h.paced.tick c).1
  tick c := Checked.tick_eq h c
  read c addr := Checked.readRegister_eq h.scroll c addr
  write c addr data := Checked.writeRegister_eq h.scroll c addr data

/-- And it stays on the bus. -/
theorem staysOnBus (h : Upheld p) : StaysOnBus γ p where
  tick t ht := Checked.tick_keeps Tapped.onBus_kept ht p _ (Checked.tick_eq h t)
  read t addr ht :=
    Checked.readRegister_keeps Tapped.onBus_kept ht p addr _ (Checked.readRegister_eq h.scroll t addr)
  write t addr data ht :=
    Checked.writeRegister_keeps Tapped.onBus_kept ht p addr data _
      (Checked.writeRegister_eq h.scroll t addr data)

end Upheld

/-- After any run from power-on, the unit is represented within its bounds, and nothing done to it next
    leaves them: no index its memory, no sum its word, and no address the picture bus. -/
theorem run_represented (region : Region) (acts : List (Act γ)) :
    ((new region).run acts).region = region ∧ Represented ((new region).run acts) ∧
      Unfailing γ ((new region).run acts) ∧ StaysOnBus γ ((new region).run acts) := by
  have h := upheld_run region acts
  exact ⟨run_region region acts, h.represented, h.unfailing, h.staysOnBus⟩

end Picture

end Famicom
