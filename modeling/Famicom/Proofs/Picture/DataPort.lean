/-
  Bytes go into picture memory through the data register and come back.

  Writes and reads share the address, which moves on with each of them, and reads lag behind: what a read is
  answered with is the byte that the one before has fetched.  The palette alone is read at once, so that
  the last of the reads is none of the bytes written if it comes to it.

  1. **Cells** (`Cell`, `Mirroring.cellAt`): the bytes that addresses of the picture bus stand for.  A write
     changes one of them (`byte?_ppuWrite`), and a row of writes those of its addresses (`byte?_fill`,
     `byte?_fill_of_ne`).
  2. **Acts** (`PortAct`, `drive`): dots and accesses in any order, with what the reads are answered with.
  3. **Dots in between** (`Alike.drive`): dots on which nothing is drawn change nothing that an access to
     picture memory can tell, so a run with dots comes to the same as the run without them.
  4. **The accesses** (`drive_setAddr`, `drive_fill`, `drive_reads`): without dots, what becomes of the unit
     and of the cartridge is an equation for each, by induction on the bytes.

  Main statement: bytes written from an address on are read back from there, one read late
  (`data_comes_back`), unless the last read comes to the palette (`data_lost_at_palette`).
-/
import Famicom.Cartridge.Nrom
import Famicom.Proofs.Picture.Undrawn
import Famicom.Proofs.Words

namespace Famicom

/-! ## Cells -/

/-- A byte of the memories on the picture bus. -/
inductive Cell where
  | pattern (i : Nat)
  | table (i : Nat)
  deriving DecidableEq

/-- The byte that a picture address stands for. -/
def Mirroring.cellAt (m : Mirroring) (addr : UInt16) : Cell :=
  let addr := addr &&& 0x3FFF
  if addr < 0x2000 then .pattern (addr &&& 0x1FFF).toNat else .table (m.vramIndex addr).toNat

/-- The steps of a walk through memory add up. -/
theorem next_addr (addr i step : Nat) : addr + step + i * step = addr + (i + 1) * step := by
  rw [Nat.succ_mul]
  omega

namespace Nrom

/-- What a cell holds. -/
def byte? (c : Nrom) : Cell → Option UInt8
  | .pattern i => c.pattern[i]?
  | .table i => c.vram[i]?

variable {c : Nrom}

/-- The cell of an address is what is read there. -/
theorem byte?_cellAt (c : Nrom) (addr : UInt16) :
    c.byte? (c.mirroring.cellAt addr) = some (c.ppuRead addr) := by
  unfold Mirroring.cellAt ppuRead
  dsimp only
  split
  · exact Vector.getElem?_eq_getElem _
  · exact Vector.getElem?_eq_getElem _

/-- A write changes the cell of its address. -/
theorem byte?_ppuWrite (h : c.patternIsRam = true) (addr : UInt16) (v : UInt8) (k : Cell) :
    (c.ppuWrite addr v).byte? k = if c.mirroring.cellAt addr = k then some v else c.byte? k := by
  unfold Mirroring.cellAt ppuWrite
  dsimp only
  split
  · cases k with
    | pattern i =>
      simp only [Cell.pattern.injEq]
      exact Vector.getElem?_set (patternOffset_lt _)
    | table i =>
      rw [if_neg nofun]
      rfl
  · cases k with
    | pattern i =>
      rw [if_neg nofun]
      rfl
    | table i =>
      simp only [Cell.table.injEq]
      exact Vector.getElem?_set (c.mirroring.vramIndex_lt _)

/-- Two cartridges of which nothing differs but what is kept in the memories on the picture bus. -/
structure SameBoard (c d : Nrom) : Prop where
  prgRom : d.prgRom = c.prgRom
  prgRam : d.prgRam = c.prgRam
  patternIsRam : d.patternIsRam = c.patternIsRam
  mirroring : d.mirroring = c.mirroring

theorem SameBoard.refl (c : Nrom) : SameBoard c c := ⟨rfl, rfl, rfl, rfl⟩

theorem SameBoard.trans {d e : Nrom} (h : SameBoard c d) (h' : SameBoard d e) : SameBoard c e :=
  ⟨h'.prgRom.trans h.prgRom, h'.prgRam.trans h.prgRam, h'.patternIsRam.trans h.patternIsRam,
    h'.mirroring.trans h.mirroring⟩

theorem sameBoard_ppuWrite (c : Nrom) (addr : UInt16) (v : UInt8) : SameBoard c (c.ppuWrite addr v) := by
  unfold ppuWrite
  dsimp only
  split
  · split
    · exact ⟨rfl, rfl, rfl, rfl⟩
    · exact ⟨rfl, rfl, rfl, rfl⟩
  · exact ⟨rfl, rfl, rfl, rfl⟩

/-- Bytes are written one after the other, the addresses so far apart. -/
def fill (c : Nrom) (step addr : Nat) : List UInt8 → Nrom
  | [] => c
  | b :: bs => (c.ppuWrite (.ofNat addr) b).fill step (addr + step) bs

/-- Filling memory does not change the kind of board. -/
theorem sameBoard_fill (c : Nrom) (step addr : Nat) (bs : List UInt8) :
    SameBoard c (c.fill step addr bs) := by
  induction bs generalizing c addr with
  | nil => exact .refl c
  | cons b bs ih => exact (sameBoard_ppuWrite c _ b).trans (ih _ _)

/-- The cells that are not written stay as they are. -/
theorem byte?_fill_of_ne (h : c.patternIsRam = true) {step addr : Nat} {bs : List UInt8} {k : Cell}
    (hk : ∀ i < bs.length, c.mirroring.cellAt (.ofNat (addr + i * step)) ≠ k) :
    (c.fill step addr bs).byte? k = c.byte? k := by
  induction bs generalizing c addr with
  | nil => rfl
  | cons b bs ih =>
    have hboard := c.sameBoard_ppuWrite (.ofNat addr) b
    have hfirst : c.mirroring.cellAt (.ofNat addr) ≠ k := by
      simpa using hk 0 (Nat.succ_pos _)
    rw [fill, ih (hboard.patternIsRam.trans h), byte?_ppuWrite h, if_neg hfirst]
    intro i hi
    rw [hboard.mirroring, next_addr]
    exact hk (i + 1) (Nat.succ_lt_succ hi)

/-- If no two of them are one, each cell that is written holds its byte. -/
theorem byte?_fill (h : c.patternIsRam = true) {step addr : Nat} {bs : List UInt8}
    (hcells : ∀ i < bs.length, ∀ j < bs.length, c.mirroring.cellAt (.ofNat (addr + i * step)) =
      c.mirroring.cellAt (.ofNat (addr + j * step)) → i = j)
    (i : Nat) (hi : i < bs.length) :
    (c.fill step addr bs).byte? (c.mirroring.cellAt (.ofNat (addr + i * step))) = some bs[i] := by
  induction bs generalizing c addr i with
  | nil => cases hi
  | cons b bs ih =>
    have hboard := c.sameBoard_ppuWrite (.ofNat addr) b
    have hram := hboard.patternIsRam.trans h
    rw [fill]
    cases i with
    | zero =>
      rw [byte?_fill_of_ne hram, byte?_ppuWrite h, Nat.zero_mul, Nat.add_zero, if_pos rfl]
      · rfl
      · intro j hj hsame
        rw [hboard.mirroring, next_addr] at hsame
        cases hcells (j + 1) (Nat.succ_lt_succ hj) 0 (Nat.succ_pos _) hsame
    | succ i =>
      have hi : i < bs.length := Nat.lt_of_succ_lt_succ hi
      rw [← next_addr, ← hboard.mirroring]
      refine ih hram ?_ i hi
      intro i hi j hj hsame
      rw [hboard.mirroring, next_addr, next_addr] at hsame
      exact Nat.succ.inj (hcells (i + 1) (Nat.succ_lt_succ hi) (j + 1) (Nat.succ_lt_succ hj) hsame)

end Nrom

namespace Picture

/-! ## What is done -/

/-- A dot, or an access to a register. -/
inductive PortAct where
  | tick
  | read (addr : UInt16)
  | write (addr : UInt16) (data : UInt8)
  deriving DecidableEq

/-- One act after the other, each on what the one before has left: the answers of the reads, and the unit and
    the cartridge in the end.  A dot that fails ends it. -/
def drive {γ : Type} [Cartridge γ] (p : Picture) (c : γ) :
    List PortAct → Except PictureFault (List UInt8 × Picture × γ)
  | [] => .ok ([], p, c)
  | .tick :: acts =>
    match p.tick c with
    | (.error fault, _, _) => .error fault
    | (.ok (), p, c) => p.drive c acts
  | .read addr :: acts =>
    let (answer, p, c) := p.readRegister c addr
    (p.drive c acts).map fun (answers, rest) => (answer :: answers, rest)
  | .write addr data :: acts =>
    let (p, c) := p.writeRegister c addr data
    p.drive c acts

variable {γ : Type} [Cartridge γ] {p q : Picture} {c : γ}

/-- A dot that goes well is a step of the run. -/
theorem drive_tick (h : (p.tick c).1 = .ok ()) (acts : List PortAct) :
    p.drive c (.tick :: acts) = (p.tick c).2.1.drive (p.tick c).2.2 acts := by
  rw [drive]
  rcases htick : p.tick c with ⟨_ | _, q, d⟩
  · rw [htick] at h
    cases h
  · rfl

/-- A read adds its answer at the front. -/
theorem drive_read (addr : UInt16) (acts : List PortAct) : p.drive c (.read addr :: acts) =
    ((p.readRegister c addr).2.1.drive (p.readRegister c addr).2.2 acts).map
      fun (answers, rest) => ((p.readRegister c addr).1 :: answers, rest) := rfl

/-- A write adds none. -/
theorem drive_write (addr : UInt16) (data : UInt8) (acts : List PortAct) :
    p.drive c (.write addr data :: acts) =
      (p.writeRegister c addr data).1.drive (p.writeRegister c addr data).2 acts := rfl

/-- An access to picture memory, by the address and by the data register. -/
def PortAct.OnMemory : PortAct → Prop
  | .tick => False
  | .read addr => addr = 0x2007
  | .write addr _ => addr = 0x2006 ∨ addr = 0x2007

/-! ## Dots in between

  On dots of a unit that draws nothing only its place moves, and no access looks at the place.  So a
  run with such dots answers as the run without them does. -/

/-- The unit is warm, and neither draws nor is to draw. -/
structure Undrawn (p : Picture) : Prop where
  warm : p.warmingUp = false
  rendering : p.rendering = false
  draws : p.mask.draws = false

/-- Two units that accesses to picture memory cannot tell apart. -/
structure Alike (p q : Picture) : Prop where
  settings : q.settings = p.settings
  held : q.held = p.held
  rendering : q.rendering = p.rendering

theorem Alike.trans {r : Picture} (h : Alike p q) (h' : Alike q r) : Alike p r :=
  ⟨h'.settings.trans h.settings, h'.held.trans h.held, h'.rendering.trans h.rendering⟩

/-- Whether nothing is drawn does not depend on the place of the unit. -/
theorem Alike.undrawn (h : Alike p q) (hp : p.Undrawn) : q.Undrawn :=
  ⟨(congrArg PictureSettings.warmingUp h.settings).trans hp.warm, h.rendering.trans hp.rendering,
    (congrArg (·.mask.draws) h.settings).trans hp.draws⟩

/-- A dot on which nothing is drawn goes well, leaves the cartridge alone and moves the place only. -/
theorem Undrawn.tick (h : p.Undrawn) (c : γ) :
    (p.tick c).1 = .ok () ∧ (p.tick c).2.2 = c ∧ Alike p (p.tick c).2.1 := by
  have houtline := tick_outline p c h.warm
  rw [h.draws, Bool.and_false] at houtline
  have hrendering : (p.tick c).2.1.rendering = false := congrArg Outline.rendering houtline
  obtain ⟨hok, hc, hheld⟩ := tick_held hrendering
  exact ⟨hok, hc, (congrArg Outline.settings houtline).trans (nextDot_settings p), hheld,
    hrendering.trans h.rendering.symm⟩

/-- The rest of a unit is its status, its place and what it draws with. -/
theorem Alike.eq_with (h : Alike p q) : q =
    { p with
      vblank := q.vblank, spriteHit := q.spriteHit, overflow := q.overflow, secondaryOam := q.secondaryOam
      background := q.background, evaluation := q.evaluation, sprites := q.sprites, row := q.row
      dot := q.dot, oddFrame := q.oddFrame, warmUpCount := q.warmUpCount, missVblank := q.missVblank
      nmiRequested := q.nmiRequested, dmaPage := q.dmaPage, frame := q.frame } := by
  obtain ⟨hsettings, hheld, hrendering⟩ := h
  cases p
  cases q
  cases hheld
  cases hrendering
  cases hsettings
  rfl

/-- Units alike in all but their places read the same byte. -/
theorem Alike.readMemory (h : Alike p q) (c : γ) :
    (q.readRegister c 0x2007).1 = (p.readRegister c 0x2007).1 ∧
      (q.readRegister c 0x2007).2.2 = (p.readRegister c 0x2007).2.2 ∧
      Alike (p.readRegister c 0x2007).2.1 (q.readRegister c 0x2007).2.1 := by
  rw [h.eq_with]
  exact ⟨rfl, rfl, rfl, rfl, rfl⟩

/-- A warm unit takes a byte of the address. -/
theorem writeRegister_address (hw : p.warmingUp = false) (c : γ) (data : UInt8) :
    p.writeRegister c 0x2006 data = ({ p with latch := data, scroll := p.scroll.writeAddr data }, c) := by
  show (if p.warmingUp then ({ p with latch := data } : Picture)
    else { p with latch := data, scroll := p.scroll.writeAddr data }, c) = _
  rw [hw]
  rfl

/-- They take the same address. -/
theorem Alike.writeAddress (h : Alike p q) (hp : p.Undrawn) (c : γ) (data : UInt8) :
    (q.writeRegister c 0x2006 data).2 = (p.writeRegister c 0x2006 data).2 ∧
      Alike (p.writeRegister c 0x2006 data).1 (q.writeRegister c 0x2006 data).1 := by
  rw [writeRegister_address hp.warm, writeRegister_address (h.undrawn hp).warm, h.eq_with]
  exact ⟨rfl, rfl, rfl, rfl⟩

/-- And they write the same byte. -/
theorem Alike.writeMemory (h : Alike p q) (c : γ) (data : UInt8) :
    (q.writeRegister c 0x2007 data).2 = (p.writeRegister c 0x2007 data).2 ∧
      Alike (p.writeRegister c 0x2007 data).1 (q.writeRegister c 0x2007 data).1 := by
  rw [h.eq_with]
  show (writeData _ c data).2 = (writeData _ c data).2 ∧ Alike (writeData _ c data).1 (writeData _ c data).1
  unfold writeData
  dsimp only
  split
  · exact ⟨rfl, rfl, rfl, rfl⟩
  · exact ⟨rfl, rfl, rfl, rfl⟩

theorem Undrawn.readMemory (hp : p.Undrawn) (c : γ) : (p.readRegister c 0x2007).2.1.Undrawn :=
  ⟨hp.warm, hp.rendering, hp.draws⟩

/-- An address that is written draws nothing. -/
theorem Undrawn.writeAddress (hp : p.Undrawn) (c : γ) (data : UInt8) :
    (p.writeRegister c 0x2006 data).1.Undrawn := by
  rw [writeRegister_address hp.warm]
  exact ⟨hp.warm, hp.rendering, hp.draws⟩

theorem Undrawn.writeMemory (hp : p.Undrawn) (c : γ) (data : UInt8) :
    (p.writeRegister c 0x2007 data).1.Undrawn := by
  show (writeData _ c data).1.Undrawn
  unfold writeData
  dsimp only
  split
  · exact ⟨hp.warm, hp.rendering, hp.draws⟩
  · exact ⟨hp.warm, hp.rendering, hp.draws⟩

/-- Dots between accesses to picture memory change neither what is answered nor what is stored. -/
theorem Alike.drive (h : Alike q p) (hq : q.Undrawn) {c d : γ} {acts : List PortAct}
    (hacts : ∀ act ∈ acts, act ≠ .tick → act.OnMemory) {answers : List UInt8} {q' : Picture}
    (hrun : q.drive c (acts.filter (· ≠ .tick)) = .ok (answers, q', d)) :
    ∃ p', p.drive c acts = .ok (answers, p', d) ∧ Alike q' p' := by
  induction acts generalizing p q c answers with
  | nil =>
    cases hrun
    exact ⟨p, rfl, h⟩
  | cons act acts ih =>
    have hrest : ∀ act ∈ acts, act ≠ .tick → act.OnMemory := fun act hact =>
      hacts act (List.mem_cons_of_mem _ hact)
    have hmemory := hacts act List.mem_cons_self
    cases act with
    | tick =>
      obtain ⟨hok, hc, hticked⟩ := (h.undrawn hq).tick c
      rw [drive_tick hok, hc]
      exact ih (h.trans hticked) hq hrest hrun
    | read addr =>
      obtain rfl := hmemory nofun
      obtain ⟨hanswer, hc, halike⟩ := h.readMemory c
      rw [List.filter_cons_of_pos (by decide), drive_read] at hrun
      rw [drive_read, hanswer, hc]
      rcases hdrive : (q.readRegister c 0x2007).2.1.drive (q.readRegister c 0x2007).2.2
          (acts.filter (· ≠ .tick)) with fault | ⟨answers, q', d⟩
      · rw [hdrive] at hrun
        cases hrun
      · rw [hdrive] at hrun
        cases hrun
        obtain ⟨p', hp', halike'⟩ := ih halike (hq.readMemory c) hrest hdrive
        rw [hp']
        exact ⟨p', rfl, halike'⟩
    | write addr data =>
      rcases hmemory nofun with rfl | rfl
      · obtain ⟨hc, halike⟩ := h.writeAddress hq c data
        rw [drive_write, hc]
        exact ih halike (hq.writeAddress c data) hrest hrun
      · obtain ⟨hc, halike⟩ := h.writeMemory c data
        rw [drive_write, hc]
        exact ih halike (hq.writeMemory c data) hrest hrun

/-! ## The address -/

/-- How far a data access moves the address. -/
def addrStep (p : Picture) : Nat := if p.control.stepsDown then 32 else 1

/-- The address is set by two writes, the high byte first. -/
def setAddr (addr : Nat) : List PortAct :=
  [.write 0x2006 (.ofNat (addr / 256)), .write 0x2006 (.ofNat addr)]

/-- The unit with the address set. -/
def aim (p : Picture) (addr : Nat) : Picture :=
  { p with
    latch := .ofNat addr
    scroll := { p.scroll with start := .ofNat addr, addr := .ofNat addr, second := false } }

/-- Two bytes make up an address, whatever was there before. -/
theorem addr_of_bytes (start : UInt16) {addr : Nat} (ha : addr < 0x4000) :
    (((start &&& 0x00FF) ||| (((UInt8.ofNat (addr / 256)).toUInt16 &&& 0x3F) <<< (8 : UInt16))) &&&
      0xFF00) ||| (UInt8.ofNat addr).toUInt16 = .ofNat addr := by
  have hhigh : ∀ v : UInt8,
      ((v.toUInt16 &&& 0x3F) <<< (8 : UInt16)).toNat &&& 0xFF00 = v.toNat % 64 * 2 ^ 8 :=
    forall_byte (by decide +kernel)
  have hlow : (start &&& 0x00FF).toNat &&& 0xFF00 = 0 := by
    rw [UInt16.toNat_and, Nat.and_assoc]
    exact Nat.and_zero _
  apply UInt16.toNat_inj.mp
  calc _
    _ = ((start &&& 0x00FF).toNat |||
          (((UInt8.ofNat (addr / 256)).toUInt16 &&& 0x3F) <<< (8 : UInt16)).toNat) &&& 0xFF00 |||
        (UInt8.ofNat addr).toUInt16.toNat := by
      rw [UInt16.toNat_or, UInt16.toNat_and, UInt16.toNat_or]
      rfl
    _ = addr / 256 % 256 % 64 * 2 ^ 8 ||| addr % 256 := by
      rw [Nat.and_or_distrib_right, hlow, hhigh, Nat.zero_or, UInt8.toNat_toUInt16, UInt8.toNat_ofNat',
        UInt8.toNat_ofNat']
    _ = (UInt16.ofNat addr).toNat := by
      rw [Nat.or_comm, or_mul_two_pow _ (by omega : addr % 256 < 2 ^ 8), UInt16.toNat_ofNat']
      omega

/-- An address is set by its two bytes, the upper one first. -/
theorem writeAddr_writeAddr {s : Scroll} (h : s.second = false) {addr : Nat} (ha : addr < 0x4000) :
    (s.writeAddr (.ofNat (addr / 256))).writeAddr (.ofNat addr) =
      { s with start := .ofNat addr, addr := .ofNat addr, second := false } := by
  unfold Scroll.writeAddr
  rw [h]
  exact congrArg (fun start => { s with start, addr := start, second := false }) (addr_of_bytes s.start ha)

/-- Two writes aim the port at an address. -/
theorem drive_setAddr (hw : p.warmingUp = false) (hfirst : p.scroll.second = false) {addr : Nat}
    (ha : addr < 0x4000) (acts : List PortAct) :
    p.drive c (setAddr addr ++ acts) = (p.aim addr).drive c acts := by
  show p.drive c (.write 0x2006 _ :: .write 0x2006 _ :: acts) = _
  rw [drive_write, writeRegister_address hw, drive_write, writeRegister_address (by exact hw)]
  dsimp only
  rw [writeAddr_writeAddr hfirst ha]
  rfl

/-- The unit with the address moved on, and other bytes on the data lines and in the buffer. -/
def moved (p : Picture) (addr : Nat) (latch readBuffer : UInt8) : Picture :=
  { p with latch, readBuffer, scroll := { p.scroll with addr := .ofNat addr } }

theorem Undrawn.moved (hp : p.Undrawn) (addr : Nat) (latch readBuffer : UInt8) :
    (p.moved addr latch readBuffer).Undrawn :=
  ⟨hp.warm, hp.rendering, hp.draws⟩

/-- An access moves the address on by the step, within fifteen bits. -/
theorem stepAddr_eq (hp : p.Undrawn) {addr : Nat} (haddr : p.scroll.addr = .ofNat addr)
    (ha : addr < 0x4000) :
    p.stepAddr = p.moved (addr + p.addrStep) p.latch p.readBuffer := by
  have hmoved (n : Nat) (hn : addr + n < 0x8000) :
      (UInt16.ofNat addr + .ofNat n) &&& 0x7FFF = .ofNat (addr + n) := by
    rw [← UInt16.ofNat_add]
    exact ofNat_and_mask (n := 15) (by decide) hn
  have hskip : p.scroll.skip (if p.control.stepsDown then 0x20 else 0x01) =
      { p.scroll with addr := .ofNat (addr + p.addrStep) } := by
    unfold Scroll.skip addrStep
    rw [haddr]
    split
    · rw [← hmoved 32 (by omega)]
      rfl
    · rw [← hmoved 1 (by omega)]
      rfl
  have hscroll : (if p.rendering then p.scroll.nextColumn.nextRow
      else p.scroll.skip (if p.control.stepsDown then 0x20 else 0x01)) =
        { p.scroll with addr := .ofNat (addr + p.addrStep) } := by
    rw [hp.rendering]
    exact hskip
  exact congrArg (fun scroll => ({ p with scroll } : Picture)) hscroll

/-! ## The data -/

/-- What the palette answers, with the upper two bits of what the data lines still hold. -/
def paletteAnswer (p : Picture) (addr : Nat) (latch : UInt8) : UInt8 :=
  let entry := p.readPalette (.ofNat addr) ||| (latch &&& 0xC0)
  if p.mask.grey then entry &&& 0x30 else entry

/-- A byte of picture memory is stored, and the address moves on. -/
theorem writeRegister_data (hp : p.Undrawn) {addr : Nat} (haddr : p.scroll.addr = .ofNat addr)
    (ha : addr < 0x3F00) (c : γ) (data : UInt8) :
    p.writeRegister c 0x2007 data =
      (p.moved (addr + p.addrStep) data p.readBuffer, Cartridge.ppuWrite c (.ofNat addr) data) := by
  have hbus : UInt16.ofNat addr &&& 0x3FFF = .ofNat addr :=
    ofNat_and_mask (n := 14) (by decide) (by omega)
  have hbelow : ¬(0x3F00 : UInt16) ≤ .ofNat addr := by
    rw [UInt16.le_iff_toNat_le, UInt16.toNat_ofNat']
    show ¬0x3F00 ≤ addr % 2 ^ 16
    omega
  have hmoved := stepAddr_eq (p := { p with latch := data }) ⟨hp.warm, hp.rendering, hp.draws⟩ haddr
    (by omega)
  have hdata : (if p.rendering then (UInt16.ofNat addr).toUInt8 else data) = data := by
    rw [hp.rendering]
    rfl
  show ({ p with latch := data } : Picture).writeData c data = _
  unfold writeData
  dsimp only
  rw [haddr, hbus, if_neg hbelow, hmoved, hdata]
  rfl

/-- What a read of picture memory is answered with: the byte read before it, or a colour. -/
def dataAnswer (p : Picture) (addr : Nat) : UInt8 :=
  if addr < 0x3F00 then p.readBuffer else p.paletteAnswer addr p.latch

/-- A read of the port answers what the buffer or the palette has and fills the buffer from memory. -/
theorem readRegister_data (hp : p.Undrawn) {addr : Nat} (haddr : p.scroll.addr = .ofNat addr)
    (ha : addr < 0x4000) (c : γ) :
    p.readRegister c 0x2007 =
      (p.dataAnswer addr,
        p.moved (addr + p.addrStep) (p.dataAnswer addr) (Cartridge.ppuRead c (.ofNat addr)).1,
        (Cartridge.ppuRead c (.ofNat addr)).2) := by
  have hbus : UInt16.ofNat addr &&& 0x3FFF = .ofNat addr :=
    ofNat_and_mask (n := 14) (by decide) ha
  have hbelow : UInt16.ofNat addr < 0x3F00 ↔ addr < 0x3F00 := by
    rw [UInt16.lt_iff_toNat_lt, UInt16.toNat_ofNat', Nat.mod_eq_of_lt (by omega)]
    rfl
  have hlatch : (if (UInt16.ofNat addr) < 0x3F00 then p.readBuffer else
      let entry := p.readPalette (.ofNat addr) ||| (p.latch &&& 0xC0)
      if p.mask.grey then entry &&& 0x30 else entry) = p.dataAnswer addr :=
    ite_congr (propext hbelow) (fun _ => rfl) fun _ => rfl
  have hmoved (latch readBuffer : UInt8) := stepAddr_eq (p := { p with latch, readBuffer })
    ⟨hp.warm, hp.rendering, hp.draws⟩ haddr ha
  show (((p.readData c).1.latch, p.readData c) : UInt8 × Picture × γ) = _
  unfold readData
  dsimp only
  rw [haddr, hbus, hmoved, ← hlatch]
  rfl

/-- The writes of bytes fill the cartridge. -/
theorem drive_fill (hp : p.Undrawn) {c : Nrom} {addr : Nat} (haddr : p.scroll.addr = .ofNat addr)
    {bs : List UInt8} (hbelow : ∀ i < bs.length, addr + i * p.addrStep < 0x3F00) :
    ∃ latch, ∀ acts, p.drive c (bs.map (.write 0x2007) ++ acts) =
      (p.moved (addr + bs.length * p.addrStep) latch p.readBuffer).drive (c.fill p.addrStep addr bs)
        acts := by
  induction bs generalizing p c addr with
  | nil =>
    refine ⟨p.latch, fun acts => ?_⟩
    unfold moved
    rw [List.length_nil, Nat.zero_mul, Nat.add_zero, ← haddr]
    rfl
  | cons b bs ih =>
    have ha : addr < 0x3F00 := by simpa using hbelow 0 (Nat.succ_pos _)
    have hrest : ∀ i < bs.length, addr + p.addrStep + i * p.addrStep < 0x3F00 := by
      intro i hi
      rw [next_addr]
      exact hbelow (i + 1) (Nat.succ_lt_succ hi)
    obtain ⟨latch, hlatch⟩ := ih (hp.moved (addr + p.addrStep) b p.readBuffer) rfl hrest
    refine ⟨latch, fun acts => ?_⟩
    rw [List.length_cons, ← next_addr, List.map_cons, List.cons_append, drive_write,
      writeRegister_data hp haddr ha]
    exact hlatch acts

omit [Cartridge γ] in
/-- Answers come before others. -/
theorem answers_append (outcome : Except PictureFault (List UInt8 × Picture × γ))
    (first second : List UInt8) :
    (outcome.map fun (answers, rest) => (second ++ answers, rest)).map
        (fun (answers, rest) => (first ++ answers, rest)) =
      outcome.map fun (answers, rest) => (first ++ second ++ answers, rest) := by
  cases outcome with
  | error fault => rfl
  | ok result => exact congrArg Except.ok (Prod.ext (List.append_assoc ..).symm rfl)

/-- Of reads where the bytes are known, each is answered with the byte before. -/
theorem drive_reads (hp : p.Undrawn) {c : Nrom} {addr : Nat} (haddr : p.scroll.addr = .ofNat addr)
    {bs : List UInt8} (hbelow : ∀ i < bs.length, addr + i * p.addrStep < 0x3F00)
    (hbytes : ∀ i (hi : i < bs.length), c.ppuRead (.ofNat (addr + i * p.addrStep)) = bs[i])
    (acts : List PortAct) :
    p.drive c (List.replicate bs.length (.read 0x2007) ++ acts) =
      ((p.moved (addr + bs.length * p.addrStep) ((p.readBuffer :: bs).dropLast.getLastD p.latch)
        (bs.getLastD p.readBuffer)).drive c acts).map
          fun (answers, rest) => ((p.readBuffer :: bs).dropLast ++ answers, rest) := by
  induction bs generalizing p addr with
  | nil =>
    have hstill : p.moved (addr + 0 * p.addrStep) p.latch p.readBuffer = p := by
      unfold moved
      rw [Nat.zero_mul, Nat.add_zero, ← haddr]
    show p.drive c acts = ((p.moved (addr + 0 * p.addrStep) p.latch p.readBuffer).drive c acts).map
      fun (answers, rest) => (answers, rest)
    rw [hstill]
    rcases p.drive c acts with _ | _
    · rfl
    · rfl
  | cons b bs ih =>
    have ha : addr < 0x3F00 := by simpa using hbelow 0 (Nat.succ_pos _)
    have hanswer : p.dataAnswer addr = p.readBuffer := if_pos ha
    have hb : c.ppuRead (.ofNat addr) = b := by simpa using hbytes 0 (Nat.succ_pos _)
    have hrest : ∀ i < bs.length, addr + p.addrStep + i * p.addrStep < 0x3F00 := by
      intro i hi
      rw [next_addr]
      exact hbelow (i + 1) (Nat.succ_lt_succ hi)
    have hbytes' : ∀ i (hi : i < bs.length),
        c.ppuRead (.ofNat (addr + p.addrStep + i * p.addrStep)) = bs[i] := by
      intro i hi
      rw [next_addr]
      exact hbytes (i + 1) (Nat.succ_lt_succ hi)
    have htail := ih (hp.moved (addr + p.addrStep) p.readBuffer b) rfl hrest hbytes'
    have hread : Cartridge.ppuRead c (.ofNat addr) = (b, c) := Prod.ext hb rfl
    have hlatch : (p.readBuffer :: b :: bs).dropLast.getLastD p.latch =
        (b :: bs).dropLast.getLastD p.readBuffer := List.getLastD_cons
    have hbuffer : (b :: bs).getLastD p.readBuffer = bs.getLastD b := List.getLastD_cons
    rw [List.length_cons, ← next_addr, List.replicate_succ, List.cons_append, drive_read,
      readRegister_data hp haddr (by omega), hanswer, hread, hlatch, hbuffer]
    exact (congrArg _ htail).trans (answers_append _ [p.readBuffer] _)

/-- What the last of the reads is answered with: the last byte, unless its own address is one of the
    palette. -/
def lastAnswer (p : Picture) (addr : Nat) (bs : List UInt8) (latch : UInt8) : UInt8 :=
  if addr + bs.length * p.addrStep < 0x3F00 then bs.getLastD p.readBuffer
  else p.paletteAnswer (addr + bs.length * p.addrStep) ((p.readBuffer :: bs).dropLast.getLastD latch)

/-- One more read than there are bytes. -/
theorem drive_readBack (hp : p.Undrawn) {c : Nrom} {addr : Nat} (haddr : p.scroll.addr = .ofNat addr)
    {bs : List UInt8} (hend : addr + bs.length * p.addrStep < 0x4000)
    (hbelow : ∀ i < bs.length, addr + i * p.addrStep < 0x3F00)
    (hbytes : ∀ i (hi : i < bs.length), c.ppuRead (.ofNat (addr + i * p.addrStep)) = bs[i]) :
    ∃ q, p.drive c (List.replicate bs.length (.read 0x2007) ++ [.read 0x2007]) =
        .ok ((p.readBuffer :: bs).dropLast ++ [p.lastAnswer addr bs p.latch], q, c) ∧
      q.scroll.addr = .ofNat (addr + (bs.length + 1) * p.addrStep) := by
  have hreads := drive_reads hp haddr hbelow hbytes [.read 0x2007]
  have hlast := readRegister_data (hp.moved (addr + bs.length * p.addrStep)
    ((p.readBuffer :: bs).dropLast.getLastD p.latch) (bs.getLastD p.readBuffer)) rfl hend c
  rw [drive_read, hlast] at hreads
  refine ⟨_, hreads, ?_⟩
  rw [Nat.succ_mul, ← Nat.add_assoc]
  rfl

/-! ## There and back

  The port reads one byte late: what a read answers is what the read before it has fetched.  Only the
  palette answers at once. -/

/-- Bytes are written from an address on, and as many are read from there, and one more. -/
def thereAndBack (addr : Nat) (bs : List UInt8) : List PortAct :=
  setAddr addr ++ (bs.map (.write 0x2007) ++
    (setAddr addr ++ (List.replicate bs.length (.read 0x2007) ++ [.read 0x2007])))

/-- Addresses of picture memory that are so far apart, of which no two are one cell. -/
structure Apart (m : Mirroring) (step addr n : Nat) : Prop where
  below : ∀ i < n, addr + i * step < 0x3F00
  inj : ∀ i < n, ∀ j < n,
    m.cellAt (.ofNat (addr + i * step)) = m.cellAt (.ofNat (addr + j * step)) → i = j

/-- The step is one or 32. -/
theorem addrStep_le (p : Picture) : p.addrStep ≤ 32 := by
  unfold addrStep
  split
  · decide
  · decide

/-- The address after the last one is one that there is. -/
theorem Apart.end_lt {m : Mirroring} {addr n : Nat} (h : Apart m p.addrStep addr n) (ha : addr < 0x4000) :
    addr + n * p.addrStep < 0x4000 := by
  have hstep := p.addrStep_le
  cases n with
  | zero => omega
  | succ n =>
    have hlast := h.below n (Nat.lt_succ_self n)
    rw [← next_addr]
    omega

/-- Bytes written through the port at addresses apart and read back come one read late, and the last
    one with the read after them. -/
theorem drive_thereAndBack (hp : p.Undrawn) (hfirst : p.scroll.second = false) {c : Nrom}
    (hram : c.patternIsRam = true) {addr : Nat} (ha : addr < 0x4000) {bs : List UInt8}
    (hapart : Apart c.mirroring p.addrStep addr bs.length) :
    ∃ q, p.drive c (thereAndBack addr bs) =
        .ok ((p.readBuffer :: bs).dropLast ++ [p.lastAnswer addr bs (.ofNat addr)], q,
          c.fill p.addrStep addr bs) ∧
      q.scroll.addr = .ofNat (addr + (bs.length + 1) * p.addrStep) := by
  have hboard := c.sameBoard_fill p.addrStep addr bs
  have hbytes : ∀ i (hi : i < bs.length),
      (c.fill p.addrStep addr bs).ppuRead (.ofNat (addr + i * p.addrStep)) = bs[i] := by
    intro i hi
    have hread := (c.fill p.addrStep addr bs).byte?_cellAt (.ofNat (addr + i * p.addrStep))
    rw [hboard.mirroring, Nrom.byte?_fill hram hapart.inj i hi] at hread
    exact (Option.some.inj hread).symm
  have haimed (q : Picture) (hq : q.Undrawn) : (q.aim addr).Undrawn := ⟨hq.warm, hq.rendering, hq.draws⟩
  obtain ⟨latch, hfill⟩ := drive_fill (c := c) (haimed p hp) rfl hapart.below
  have hfilled := (haimed p hp).moved (addr + bs.length * p.addrStep) latch p.readBuffer
  obtain ⟨q, hback, haddr⟩ := drive_readBack (haimed _ hfilled) rfl (hapart.end_lt ha) hapart.below hbytes
  refine ⟨q, ?_, haddr⟩
  rw [thereAndBack, drive_setAddr hp.warm hfirst ha, hfill]
  exact (drive_setAddr hfilled.warm rfl ha _).trans hback

/-! ## With dots in between -/

/-- Dots alone lead to the same unit as far as accesses can tell. -/
theorem Undrawn.drive_ticks (hp : p.Undrawn) {ticks : List PortAct} (h : ∀ act ∈ ticks, act = .tick)
    (acts : List PortAct) : ∃ q, Alike p q ∧ p.drive c (ticks ++ acts) = q.drive c acts := by
  induction ticks generalizing p with
  | nil => exact ⟨p, ⟨rfl, rfl, rfl⟩, rfl⟩
  | cons act ticks ih =>
    obtain rfl := h act List.mem_cons_self
    obtain ⟨hok, hc, hticked⟩ := hp.tick c
    obtain ⟨q, halike, hq⟩ := ih (hticked.undrawn hp) fun act hact => h act (List.mem_cons_of_mem _ hact)
    refine ⟨q, hticked.trans halike, ?_⟩
    rw [List.cons_append, drive_tick hok, hc]
    exact hq

/-- A read of the status makes the next address byte the upper one. -/
theorem drive_readStatus (acts : List PortAct) : p.drive c (.read 0x2002 :: acts) =
    (p.readStatus.drive c acts).map fun (answers, rest) => (p.readStatus.latch :: answers, rest) := rfl

/-- There and back again is a run of accesses to memory only. -/
theorem onMemory_thereAndBack (addr : Nat) (bs : List UInt8) :
    ∀ act ∈ thereAndBack addr bs, act.OnMemory := by
  intro act hact
  simp only [thereAndBack, setAddr, List.mem_append, List.mem_cons, List.mem_map, List.mem_replicate,
    List.not_mem_nil, or_false] at hact
  rcases hact with (rfl | rfl) | ⟨b, -, rfl⟩ | (rfl | rfl) | ⟨-, rfl⟩ | rfl
  · exact .inl rfl
  · exact .inl rfl
  · exact .inr rfl
  · exact .inl rfl
  · exact .inl rfl
  · exact rfl
  · exact rfl

/-- The step is a matter of the settings. -/
theorem addrStep_congr (h : q.settings = p.settings) : q.addrStep = p.addrStep :=
  congrArg (fun s : PictureSettings => if s.control.stepsDown then 32 else 1) h

theorem paletteAnswer_congr (h : q.settings = p.settings) (addr : Nat) (latch : UInt8) :
    q.paletteAnswer addr latch = p.paletteAnswer addr latch := by
  have hpalette : q.palette = p.palette := congrArg PictureSettings.palette h
  have hmask : q.mask = p.mask := congrArg PictureSettings.mask h
  unfold paletteAnswer readPalette
  rw [hpalette, hmask]

theorem lastAnswer_congr (h : q.settings = p.settings) (hbuffer : q.readBuffer = p.readBuffer) (addr : Nat)
    (bs : List UInt8) (latch : UInt8) : q.lastAnswer addr bs latch = p.lastAnswer addr bs latch := by
  unfold lastAnswer
  rw [addrStep_congr h, paletteAnswer_congr h, hbuffer]

/-- Below the palette the reads come to the byte that waited and those written. -/
theorem answers_of_lt {addr : Nat} {bs : List UInt8} (h : addr + bs.length * p.addrStep < 0x3F00)
    (latch : UInt8) :
    (p.readBuffer :: bs).dropLast ++ [p.lastAnswer addr bs latch] = p.readBuffer :: bs := by
  have hlast : p.lastAnswer addr bs latch = (p.readBuffer :: bs).getLast (List.cons_ne_nil _ _) :=
    (if_pos h).trans (List.getLast_eq_getLastD ..).symm
  rw [hlast]
  exact List.dropLast_concat_getLast _

/-- A warm unit that neither draws nor is to draw, on a cartridge with pattern RAM, has its status read,
    the address set and bytes written, the address set once more and one more byte read, with any number of
    dots in between.  All goes well; the first read is answered with the byte that waited, and the others
    with the bytes written, but for the last one where it comes to an address of the palette, which answers
    at once.  The cells of the addresses hold the bytes, nothing else of the cartridge is changed, and the
    address is so many steps further on as there were reads. -/
theorem data_comes_back (p : Picture) (c : Nrom) (hp : p.Undrawn) (hram : c.patternIsRam = true)
    (addr : Nat) (ha : addr < 0x4000) (bs : List UInt8)
    (hapart : Apart c.mirroring p.addrStep addr bs.length) (acts : List PortAct)
    (hacts : acts.filter (· ≠ .tick) = .read 0x2002 :: thereAndBack addr bs) :
    ∃ status answers q d, p.drive c acts = .ok (status :: answers, q, d) ∧
      (addr + bs.length * p.addrStep < 0x3F00 → answers = p.readBuffer :: bs) ∧
      (0x3F00 ≤ addr + bs.length * p.addrStep → answers = (p.readBuffer :: bs).dropLast ++
        [p.paletteAnswer (addr + bs.length * p.addrStep)
          ((p.readBuffer :: bs).dropLast.getLastD (.ofNat addr))]) ∧
      (∀ i (hi : i < bs.length),
        d.byte? (c.mirroring.cellAt (.ofNat (addr + i * p.addrStep))) = some bs[i]) ∧
      (∀ k, (∀ i < bs.length, c.mirroring.cellAt (.ofNat (addr + i * p.addrStep)) ≠ k) →
        d.byte? k = c.byte? k) ∧
      Nrom.SameBoard c d ∧
      q.scroll.addr.toNat = addr + (bs.length + 1) * p.addrStep := by
  obtain ⟨ticks, rest, rfl, hticks, -, hrest⟩ := List.filter_eq_cons_iff.mp hacts
  have hticks : ∀ act ∈ ticks, act = .tick := fun act hact => by simpa using hticks act hact
  obtain ⟨p₁, halike, hdots⟩ := hp.drive_ticks (c := c) hticks (.read 0x2002 :: rest)
  have hp₁ := halike.undrawn hp
  -- reading the status leaves all but the status, and the next write of the address is the first
  have hsettings : p₁.readStatus.settings = p.settings := halike.settings
  have hbuffer : p₁.readStatus.readBuffer = p.readBuffer := congrArg Held.readBuffer halike.held
  have hstatus : p₁.readStatus.Undrawn := ⟨hp₁.warm, hp₁.rendering, hp₁.draws⟩
  obtain ⟨q, hback, haddr⟩ := drive_thereAndBack (c := c) hstatus rfl hram ha
    ((addrStep_congr hsettings).symm ▸ hapart)
  rw [hbuffer, lastAnswer_congr hsettings hbuffer, addrStep_congr hsettings] at hback
  rw [addrStep_congr hsettings] at haddr
  have hmemory : ∀ act ∈ rest, act ≠ .tick → act.OnMemory := by
    intro act hact hne
    apply onMemory_thereAndBack addr bs
    rw [← hrest]
    exact List.mem_filter.mpr ⟨hact, decide_eq_true hne⟩
  obtain ⟨q', hdriven, hsame⟩ := Alike.drive (p := p₁.readStatus) ⟨rfl, rfl, rfl⟩ hstatus hmemory
    (hrest ▸ hback)
  refine ⟨p₁.readStatus.latch, _, q', _, ?_, fun h => answers_of_lt h (.ofNat addr), fun h => ?_,
    Nrom.byte?_fill hram hapart.inj, fun k hk => Nrom.byte?_fill_of_ne hram hk, c.sameBoard_fill _ _ _, ?_⟩
  · rw [hdots, drive_readStatus, hdriven]
    rfl
  · rw [lastAnswer, if_neg (Nat.not_lt.mpr h)]
  · have hend : addr + (bs.length + 1) * p.addrStep < 2 ^ 16 := by
      have hlast := hapart.end_lt ha
      have hstep := p.addrStep_le
      rw [Nat.succ_mul]
      omega
    have hmoved : q'.scroll.addr = q.scroll.addr := congrArg (·.scroll.addr) hsame.held
    rw [hmoved, haddr, UInt16.toNat_ofNat', Nat.mod_eq_of_lt hend]

/-- A cartridge with empty pattern RAM. -/
def ramBoard : Nrom where
  prgRom := .single (.replicate _ 0)
  prgRam := .replicate _ 0
  pattern := .replicate _ 0
  patternIsRam := true
  vram := .replicate _ 0
  mirroring := .horizontal

/-- The unit that has just warmed up draws nothing. -/
theorem undrawn_warm : (warm .ntsc).Undrawn := ⟨rfl, rfl, rfl⟩

/-- Two bytes, the last of pattern memory and the first of the name tables. -/
theorem data_comes_back_border : ∃ status q d,
    (warm .ntsc).drive ramBoard
      (.tick :: .read 0x2002 :: .tick :: (thereAndBack 0x1FFF [0x12, 0x34] ++ [.tick])) =
        .ok ([status, 0, 0x12, 0x34], q, d) ∧
      d.byte? (.pattern 0x1FFF) = some 0x12 ∧ d.byte? (.table 0) = some 0x34 ∧
      q.scroll.addr.toNat = 0x2002 := by
  have hapart : Apart ramBoard.mirroring (warm .ntsc).addrStep 0x1FFF 2 := ⟨by decide, by decide⟩
  obtain ⟨status, answers, q, d, hdriven, hanswers, -, hbytes, -, -, haddr⟩ :=
    data_comes_back (warm .ntsc) ramBoard undrawn_warm rfl 0x1FFF (by decide) [0x12, 0x34] hapart
      (.tick :: .read 0x2002 :: .tick :: (thereAndBack 0x1FFF [0x12, 0x34] ++ [.tick])) (by decide)
  rw [hanswers (by decide)] at hdriven
  exact ⟨status, q, d, hdriven, hbytes 0 (by decide), hbytes 1 (by decide), haddr⟩

/-- The byte before the palette is not answered to the second of two reads, which comes to the palette. -/
theorem data_lost_at_palette : Reachable Nrom (warm .ntsc) ∧ (warm .ntsc).Undrawn ∧
    ramBoard.patternIsRam = true ∧ Apart ramBoard.mirroring (warm .ntsc).addrStep 0x3EFF 1 ∧
    ∀ status waiting q d, (warm .ntsc).drive ramBoard (.read 0x2002 :: thereAndBack 0x3EFF [0xAB]) ≠
      .ok ([status, waiting, 0xAB], q, d) := by
  have hapart : Apart ramBoard.mirroring (warm .ntsc).addrStep 0x3EFF 1 := ⟨by decide, by decide⟩
  refine ⟨reachable_warm (fun _ => ramBoard) .ntsc, undrawn_warm, rfl, hapart, ?_⟩
  intro status waiting q d hdriven
  have hstatus : (warm .ntsc).readStatus.Undrawn := ⟨rfl, rfl, rfl⟩
  have hcolor : (warm .ntsc).readStatus.lastAnswer 0x3EFF [0xAB] (.ofNat 0x3EFF) = 0 := by decide
  obtain ⟨q', hback, -⟩ := drive_thereAndBack hstatus rfl (show ramBoard.patternIsRam = true from rfl)
    (by decide : 0x3EFF < 0x4000) (show Apart _ _ _ [0xAB].length from hapart)
  rw [drive_readStatus, hback, hcolor] at hdriven
  cases hdriven

end Picture

end Famicom
