/-
  A sprite transfer copies one page, whatever goes on beside it.

  Once the processor has let a transfer have the bus, every processor cycle that the sound unit does not
  take for itself is a read of the page or a write to sprite memory.  In between the picture goes on, the
  sound unit counts and may fetch a byte, and interrupts are latched; as long as the picture unit is not
  drawing, nothing of that touches what the transfer works with.

  1. **A picture unit that does not draw** (`Picture.tick_rests`): a dot after which it does not draw leaves
     sprite memory, its address and the cartridge alone.
  2. **What goes on beside a transfer** (`Machine.Beside`): the processor stands still but for its latches,
     and the board keeps what is copied and what has been copied (`Mainboard.Rests`).  One lemma each for a
     dot, for a cycle that is taken by the sound unit, and for the part of the others that comes before
     the transfer's turn.
  3. **A cycle of the transfer** (`Copying.read`, `Copying.write`): after `k` of them half as many bytes
     have been written, and where `k` is odd the next one has been read.
  4. **A run** (`Run`): dots and cycles in any order, with the count of those that the transfer has had; by
     induction the copying has got as far as that count says (`Run.copying`).

  Main statement: the transfer lasts for 512 cycles, no fewer and no more, and then sprite memory holds
  the page, from the address on at which it stood, which is the address again (`Run.copies_page`).
-/
import Famicom.Proofs.Console.AudioIndependence
import Famicom.Proofs.Console.SampleFetch
import Famicom.Proofs.Picture.BackgroundFrame
import Famicom.Proofs.Picture.Undrawn
import Famicom.Proofs.Sound.StartDelay

namespace Famicom

/-! ## A picture unit that does not draw -/

namespace Picture

/-- Sprite memory and the address in it are left alone. -/
structure Rests (p q : Picture) : Prop where
  oam : q.oam = p.oam
  oamAddr : q.oamAddr = p.oamAddr

theorem Rests.trans {p q r : Picture} (h : Rests p q) (h' : Rests q r) : Rests p r :=
  ⟨h'.oam.trans h.oam, h'.oamAddr.trans h.oamAddr⟩

section

variable {γ : Type} [Cartridge γ] {p : Picture}

/-- A dot after which the unit does not draw goes well, and leaves sprite memory and the cartridge
    alone. -/
theorem tick_rests {c : γ} (h : (p.tick c).2.1.rendering = false) :
    (p.tick c).1 = .ok () ∧ (p.tick c).2.2 = c ∧ Rests p (p.tick c).2.1 := by
  obtain ⟨hok, hc, hheld⟩ := tick_held h
  exact ⟨hok, hc, congrArg Held.oam hheld, congrArg Held.oamAddr hheld⟩

/-- Reading a register leaves sprite memory alone, and whether the unit draws. -/
theorem readRegister_rests (p : Picture) (c : Nrom) (addr : UInt16) :
    (p.readRegister c addr).2.2 = c ∧ Rests p (p.readRegister c addr).2.1 ∧
      (p.readRegister c addr).2.1.rendering = p.rendering := by
  unfold readRegister
  dsimp only
  split
  · exact ⟨rfl, ⟨rfl, rfl⟩, rfl⟩
  · refine ⟨rfl, ?_⟩
    unfold readSprites
    dsimp only
    split
    · split
      · exact ⟨⟨rfl, rfl⟩, rfl⟩
      · exact ⟨⟨rfl, rfl⟩, rfl⟩
    · exact ⟨⟨rfl, rfl⟩, rfl⟩
  · exact ⟨rfl, ⟨rfl, rfl⟩, rfl⟩
  · exact ⟨rfl, ⟨rfl, rfl⟩, rfl⟩

end

end Picture

/-! ## What goes on beside a transfer

  Dots, interrupts and bytes read for the sound unit go on beside the copy.  They leave alone what it
  reads and writes, so they can be set aside one by one. -/

namespace Mainboard

/-- What a transfer copies and what it has copied is left alone, and the picture unit draws as little as
    before. -/
structure Rests (b c : Mainboard Nrom) : Prop where
  ram : c.ram = b.ram
  cartridge : c.cartridge = b.cartridge
  picture : b.picture.Rests c.picture
  rendering : c.picture.rendering = b.picture.rendering

theorem Rests.refl (b : Mainboard Nrom) : Rests b b := ⟨rfl, rfl, ⟨rfl, rfl⟩, rfl⟩

theorem Rests.trans {b c d : Mainboard Nrom} (h : Rests b c) (h' : Rests c d) : Rests b d :=
  ⟨h'.ram.trans h.ram, h'.cartridge.trans h.cartridge, h.picture.trans h'.picture,
    h'.rendering.trans h.rendering⟩

theorem rests_sound (b : Mainboard Nrom) (sound : Sound) : Rests b { b with sound } :=
  ⟨rfl, rfl, ⟨rfl, rfl⟩, rfl⟩

/-- A read leaves it alone, wherever it is made. -/
theorem rests_read (b : Mainboard Nrom) (addr : UInt16) : Rests b (b.read addr).2 := by
  unfold Mainboard.read
  split
  · exact .refl b
  · split
    · obtain ⟨hc, hp, hr⟩ := b.picture.readRegister_rests b.cartridge addr
      exact ⟨rfl, hc, hp, hr⟩
    · split
      · exact rests_sound b _
      · split
        · exact ⟨rfl, rfl, ⟨rfl, rfl⟩, rfl⟩
        · exact .refl b

end Mainboard

namespace Machine

/-- Something went on beside a transfer: the processor has not gone on, and latched interrupts at most. -/
structure Beside (m n : Machine Nrom) : Prop where
  cpu : ∃ nmiLatch irqLatch, n.cpu = { m.cpu with nmiLatch, irqLatch }
  transfer : n.transfer = m.transfer
  board : m.board.Rests n.board

variable {m n q : Machine Nrom}

theorem Beside.refl (m : Machine Nrom) : Beside m m := ⟨⟨_, _, rfl⟩, rfl, .refl _⟩

theorem Beside.trans (h : Beside m n) (h' : Beside n q) : Beside m q := by
  obtain ⟨_, _, hn⟩ := h.cpu
  obtain ⟨nmiLatch, irqLatch, hq⟩ := h'.cpu
  refine ⟨⟨nmiLatch, irqLatch, ?_⟩, h'.transfer.trans h.transfer, h.board.trans h'.board⟩
  rw [hq, hn]

theorem beside_raiseSoundIrq (m : Machine Nrom) : Beside m m.raiseSoundIrq := by
  unfold raiseSoundIrq
  split
  · exact ⟨⟨m.cpu.nmiLatch, true, rfl⟩, rfl, .refl _⟩
  · exact .refl m

theorem beside_serveSound (m : Machine Nrom) : Beside m m.serveSound.2 := by
  unfold serveSound Mainboard.onSound
  dsimp only
  cases m.board.sound.takeDmcRequest.1 with
  | none => exact ⟨⟨_, _, rfl⟩, rfl, Mainboard.rests_sound _ _⟩
  | some addr =>
    have hread := Mainboard.rests_read { m.board with sound := m.board.sound.takeDmcRequest.2 } addr
    exact ⟨⟨_, _, rfl⟩, rfl,
      (Mainboard.rests_sound _ _).trans (hread.trans (Mainboard.rests_sound _ _))⟩

/-- What comes before the turn of whoever has the bus: the sound unit is served and counts. -/
def prepared {γ : Type} [Cartridge γ] (m : Machine γ) : Machine γ :=
  let k := m.serveSound.2
  raiseSoundIrq { k with board := { k.board with sound := k.board.sound.process.2 } }

/-- What precedes a cycle is beside the copy. -/
theorem beside_prepared (m : Machine Nrom) : Beside m m.prepared := by
  have hcount : Beside m.serveSound.2
      { m.serveSound.2 with
        board := { m.serveSound.2.board with sound := m.serveSound.2.board.sound.process.2 } } :=
    ⟨⟨_, _, rfl⟩, rfl, Mainboard.rests_sound _ _⟩
  exact (beside_serveSound m).trans (hcount.trans (beside_raiseSoundIrq _))

theorem beside_afterDot (m : Machine Nrom) : Beside m m.afterDot := by
  have hboard : m.board.Rests m.afterDot.board := ⟨rfl, rfl, ⟨rfl, rfl⟩, rfl⟩
  have hcpu : m.afterDot.cpu = if m.board.picture.nmiRequested then m.cpu.requestNmi else m.cpu := rfl
  refine ⟨?_, rfl, hboard⟩
  rw [hcpu]
  split
  · exact ⟨true, m.cpu.irqLatch, rfl⟩
  · exact ⟨_, _, rfl⟩

/-- A dot goes well if it goes well in the picture unit. -/
theorem dot_ok {γ : Type} [Cartridge γ] {m : Machine γ}
    (h : (m.board.picture.tick m.board.cartridge).1 = .ok ()) : m.dot.1 = .ok () := by
  have hboard : m.board.dot.1 = .ok () := h
  unfold Machine.dot
  dsimp only
  rcases hd : m.board.dot with ⟨_ | _, board⟩
  · rw [hd] at hboard
    cases hboard
  · rfl

/-- A dot after which nothing is drawn goes well. -/
theorem beside_dot (hm : m.board.picture.rendering = false) (h : m.dot.2.board.picture.rendering = false) :
    m.dot.1 = .ok () ∧ Beside m m.dot.2 := by
  have hdrawn : m.dot.2.board.picture.rendering = m.board.dot.2.picture.rendering := by
    unfold Machine.dot
    dsimp only
    rcases m.board.dot with ⟨_ | _, board⟩
    · rfl
    · rfl
  rw [hdrawn] at h
  obtain ⟨hok, hc, hrests⟩ := Picture.tick_rests (p := m.board.picture) h
  have hdot := dot_ok (m := m) hok
  have hbeside : Beside m { m with board := m.board.dot.2 } :=
    ⟨⟨_, _, rfl⟩, rfl, rfl, hc, hrests, h.trans hm.symm⟩
  refine ⟨hdot, ?_⟩
  rw [dot_of_ok hdot]
  exact hbeside.trans (beside_afterDot _)

/-- A cycle that the sound unit takes for itself is no more than what comes before a turn, and in the
    others that is followed by the turn. -/
theorem cpuCycle_prepared {γ : Type} [Cartridge γ] {m : Machine γ} (h : m.cpuCycle.1 = .ok ()) :
    m.cpuCycle.2 = if m.serveSound.1 then m.prepared else m.prepared.beginTransfer.busCycle :=
  (cpuCycle_of_ok h).2

end Machine

/-! ## A cycle of the transfer -/

/-- An address in the memory of the board or in that of the cartridge. -/
def InMemory (addr : UInt16) : Prop := addr < 0x2000 ∨ 0x6000 ≤ addr

/-- The byte there. -/
def memoryByte (ram : Vector UInt8 ramSize) (cartridge : Nrom) (addr : UInt16) : UInt8 :=
  if addr < 0x2000 then
    have := ramOffset_lt addr
    ram[(addr &&& 0x07FF).toNat]
  else cartridge.cpuRead addr

/-- Memory can be read without touching anything. -/
theorem Mainboard.read_memory (b : Mainboard Nrom) {addr : UInt16} (h : InMemory addr) :
    b.read addr = (memoryByte b.ram b.cartridge addr, b) := by
  have hne {other : UInt16} (hother : ¬ InMemory other) : addr ≠ other := by
    rintro rfl
    exact hother h
  unfold Mainboard.read memoryByte
  split
  · rfl
  · next hram =>
    have hregister : ¬ addr < 0x4000 := by
      have hupper := UInt16.le_iff_toNat_le.mp (h.resolve_left hram)
      have h6 : (0x6000 : UInt16).toNat = 0x6000 := rfl
      have h4 : (0x4000 : UInt16).toNat = 0x4000 := rfl
      rw [UInt16.lt_iff_toNat_lt]
      omega
    have hports : ¬ (addr = 0x4016 || addr = 0x4017) = true := by
      rw [Bool.or_eq_true, decide_eq_true_eq, decide_eq_true_eq, not_or]
      exact ⟨hne (by unfold InMemory; decide), hne (by unfold InMemory; decide)⟩
    rw [if_neg hregister, if_neg (hne (by unfold InMemory; decide)), if_neg hports]
    rfl

/-- A byte written to sprite memory. -/
theorem Mainboard.write_sprites (b : Mainboard Nrom) (data : UInt8) :
    b.write 0x2004 data =
      { b with picture := { b.picture with latch := data }.writeSprites data } := rfl

/-- The places of a page. -/
def pageAddr (page : UInt8) (i : Nat) : UInt16 := .ofNat (page.toNat * 256 + i)

/-- A transfer reads a new byte every two cycles. -/
theorem SpriteTransfer.source_eq (t : SpriteTransfer) (h : t.cycles < 512) :
    t.source = pageAddr t.page (t.cycles / 2) := by
  have hpage := t.page.toNat_lt
  have hhigh : (t.page.toUInt16 <<< (8 : UInt16)).toNat = t.page.toNat * 256 := by
    rw [UInt16.toNat_shiftLeft, UInt8.toNat_toUInt16, Nat.shiftLeft_eq]
    exact Nat.mod_eq_of_lt (by show t.page.toNat * 256 < 65536; omega)
  have hlow : (UInt16.ofNat (t.cycles / 2)).toNat = t.cycles / 2 :=
    UInt16.toNat_ofNat_of_lt' (show t.cycles / 2 < 65536 by omega)
  rw [← UInt16.toNat_inj, source, pageAddr, UInt16.toNat_or, hhigh, hlow,
    UInt16.toNat_ofNat_of_lt' (show t.page.toNat * 256 + t.cycles / 2 < 65536 by omega)]
  have hsplit := Nat.shiftLeft_add_eq_or_of_lt (show t.cycles / 2 < 2 ^ 8 by omega) t.page.toNat
  rw [Nat.shiftLeft_eq] at hsplit
  exact hsplit.symm

/-- The bytes of such a page lie in memory that a read does not disturb. -/
theorem inMemory_pageAddr {page : UInt8} (h : page < 0x20 ∨ 0x60 ≤ page) {i : Nat} (hi : i < 256) :
    InMemory (pageAddr page i) := by
  have hpage := page.toNat_lt
  have haddr : (pageAddr page i).toNat = page.toNat * 256 + i :=
    UInt16.toNat_ofNat_of_lt' (show page.toNat * 256 + i < 65536 by omega)
  have h20 : (0x20 : UInt8).toNat = 0x20 := rfl
  have h60 : (0x60 : UInt8).toNat = 0x60 := rfl
  have h2000 : (0x2000 : UInt16).toNat = 0x2000 := rfl
  have h6000 : (0x6000 : UInt16).toNat = 0x6000 := rfl
  unfold InMemory
  rw [UInt16.lt_iff_toNat_lt, UInt16.le_iff_toNat_le]
  rw [UInt8.lt_iff_toNat_lt, UInt8.le_iff_toNat_le] at h
  omega

/-- What sprite memory keeps of a byte: three bits of the attributes do not exist. -/
def storedAt (addr value : UInt8) : UInt8 := if addr &&& 0x03 = 0x02 then value &&& 0xE3 else value

namespace Picture

variable {p : Picture}

/-- While nothing is drawn a byte of sprite memory is followed by the next. -/
theorem oamAddr_writeSprites (h : p.rendering = false) (data : UInt8) :
    (p.writeSprites data).oamAddr = p.oamAddr + 1 := by
  unfold writeSprites
  rw [if_neg (by rw [h]; exact Bool.false_ne_true)]

theorem rendering_writeSprites (p : Picture) (data : UInt8) :
    (p.writeSprites data).rendering = p.rendering := by
  unfold writeSprites
  split
  · rfl
  · rfl

/-- While nothing is drawn such a write changes its own byte only. -/
theorem readOam_writeSprites (h : p.rendering = false) (data addr : UInt8) :
    (p.writeSprites data).readOam addr =
      if addr = p.oamAddr then storedAt p.oamAddr data else p.readOam addr := by
  have haddr := addr.toNat_lt
  unfold writeSprites
  rw [if_neg (by rw [h]; exact Bool.false_ne_true)]
  show (p.oam.set p.oamAddr.toNat (storedAt p.oamAddr data) p.oamAddr.toNat_lt)[addr.toNat] = _
  rw [Vector.getElem_set]
  by_cases hat : addr = p.oamAddr
  · rw [if_pos hat, if_pos (congrArg UInt8.toNat hat.symm)]
  · rw [if_neg hat, if_neg fun he => hat (UInt8.toNat_inj.mp he).symm]
    rfl

end Picture

namespace Machine

variable {m n q : Machine Nrom} {page : UInt8} {k : Nat}

/-- The byte of the page that is copied at a place. -/
def pageByte (m : Machine Nrom) (page : UInt8) (i : Nat) : UInt8 :=
  memoryByte m.board.ram m.board.cartridge (pageAddr page i)

/-- Where that byte goes in sprite memory. -/
def target (m : Machine Nrom) (i : Nat) : UInt8 := m.board.picture.oamAddr + .ofNat i

/-- A transfer from this page that began in `m` has had the bus for `k` cycles. -/
structure Copying (m : Machine Nrom) (page : UInt8) (k : Nat) (n : Machine Nrom) : Prop where
  cpu : ∃ nmiLatch irqLatch, n.cpu = { m.cpu with nmiLatch, irqLatch }
  /-- The transfer, with the byte under way. -/
  transfer : k < 512 → ∃ data, n.transfer = some { page, cycles := k, started := true, data } ∧
    (k % 2 = 1 → data = m.pageByte page (k / 2))
  ended : k = 512 → n.transfer = none
  ram : n.board.ram = m.board.ram
  cartridge : n.board.cartridge = m.board.cartridge
  rendering : n.board.picture.rendering = false
  oamAddr : n.board.picture.oamAddr = m.target (k / 2)
  oam : ∀ i < k / 2, n.board.picture.readOam (m.target i) = storedAt (m.target i) (m.pageByte page i)

/-- What goes on beside the transfer leaves it where it is. -/
theorem Copying.beside (h : Copying m page k n) (hb : Beside n q) : Copying m page k q := by
  obtain ⟨_, _, hn⟩ := h.cpu
  obtain ⟨nmiLatch, irqLatch, hq⟩ := hb.cpu
  refine ⟨⟨nmiLatch, irqLatch, ?_⟩, ?_, ?_, hb.board.ram.trans h.ram,
    hb.board.cartridge.trans h.cartridge, hb.board.rendering.trans h.rendering,
    hb.board.picture.oamAddr.trans h.oamAddr, ?_⟩
  · rw [hq, hn]
  · rw [hb.transfer]
    exact h.transfer
  · rw [hb.transfer]
    exact h.ended
  · intro i hi
    rw [← h.oam i hi]
    unfold Picture.readOam
    rw [hb.board.picture.oam]

/-- The bytes go round in sprite memory from where the sprite address stood. -/
theorem target_toNat (m : Machine Nrom) (i : Nat) :
    (m.target i).toNat = (m.board.picture.oamAddr.toNat + i) % 256 := by
  unfold target
  rw [UInt8.toNat_add, UInt8.toNat_ofNat']
  show (_ + i % 256) % 256 = _
  omega

theorem target_succ (m : Machine Nrom) (i : Nat) : m.target i + 1 = m.target (i + 1) := by
  rw [← UInt8.toNat_inj, UInt8.toNat_add, target_toNat, target_toNat]
  show (_ + 1) % 256 = _
  omega

/-- No two bytes of the page go to one place. -/
theorem target_ne (m : Machine Nrom) {i j : Nat} (hij : i < j) (hj : j < 256) :
    m.target i ≠ m.target j := by
  rw [Ne, ← UInt8.toNat_inj, target_toNat, target_toNat]
  omega

/-- The transfer's even cycles read the next byte of the page. -/
theorem Copying.read (h : Copying m page k n) (hp : page < 0x20 ∨ 0x60 ≤ page) (hk : k < 512)
    (heven : k % 2 = 0) : Copying m page (k + 1) n.busCycle := by
  obtain ⟨data, ht, -⟩ := h.transfer hk
  have hhalf : (k + 1) / 2 = k / 2 := by omega
  have hsource : n.board.read (SpriteTransfer.source { page, cycles := k, started := true, data }) =
      (m.pageByte page (k / 2), n.board) := by
    have hplace : k / 2 < 256 := by omega
    rw [SpriteTransfer.source_eq _ hk, Mainboard.read_memory _ (inMemory_pageAddr hp hplace), h.ram,
      h.cartridge]
    rfl
  have hlt : k + 1 < SpriteTransfer.length := by
    show k + 1 < 512
    omega
  have hbus : n.busCycle =
      { n with
        transfer := some { page, cycles := k + 1, started := true, data := m.pageByte page (k / 2) } } := by
    unfold busCycle
    rw [ht]
    dsimp only
    unfold transferCycle
    dsimp only
    rw [if_pos rfl, if_pos heven, hsource]
    dsimp only
    rw [if_pos hlt]
  rw [hbus]
  refine ⟨h.cpu, fun _ => ⟨_, rfl, fun _ => by rw [hhalf]⟩, fun he => by omega, h.ram, h.cartridge,
    h.rendering, ?_, ?_⟩
  · rw [hhalf]
    exact h.oamAddr
  · rw [hhalf]
    exact h.oam

/-- Its odd cycles write that byte to sprite memory. -/
theorem Copying.write (h : Copying m page k n) (hk : k < 512) (hodd : k % 2 = 1) :
    Copying m page (k + 1) n.busCycle := by
  obtain ⟨data, ht, hdata⟩ := h.transfer hk
  have hhalf : (k + 1) / 2 = k / 2 + 1 := by omega
  have hbus : n.busCycle =
      { n with
        board := n.board.write 0x2004 (m.pageByte page (k / 2))
        transfer :=
          if k + 1 < SpriteTransfer.length then
            some { page, cycles := k + 1, started := true, data := m.pageByte page (k / 2) }
          else none } := by
    unfold busCycle
    rw [ht]
    dsimp only
    unfold transferCycle
    dsimp only
    rw [if_pos rfl, if_neg (by omega), hdata hodd]
  have hwritten : (n.busCycle).board.picture =
      { n.board.picture with latch := m.pageByte page (k / 2) }.writeSprites (m.pageByte page (k / 2)) := by
    rw [hbus, Mainboard.write_sprites]
  have hquiet : ({ n.board.picture with latch := m.pageByte page (k / 2) } : Picture).rendering = false :=
    h.rendering
  refine ⟨?_, ?_, ?_, ?_, ?_, ?_, ?_, ?_⟩
  · rw [hbus]
    exact h.cpu
  · intro hlt
    rw [hbus]
    exact ⟨_, if_pos hlt, fun he => by omega⟩
  · intro hend
    rw [hbus]
    exact if_neg (show ¬ k + 1 < 512 by omega)
  · rw [hbus]
    exact h.ram
  · rw [hbus]
    exact h.cartridge
  · rw [hwritten, Picture.rendering_writeSprites]
    exact hquiet
  · rw [hwritten, Picture.oamAddr_writeSprites hquiet, hhalf, ← target_succ]
    exact congrArg (· + 1) h.oamAddr
  · intro i hi
    rw [hwritten, Picture.readOam_writeSprites hquiet]
    show (if m.target i = n.board.picture.oamAddr then storedAt n.board.picture.oamAddr _ else
      n.board.picture.readOam (m.target i)) = _
    rw [h.oamAddr]
    -- 256 places in a row differ, so what was copied before is not written over
    rcases Nat.lt_or_eq_of_le (show i ≤ k / 2 by omega) with hlt | rfl
    · rw [if_neg (target_ne m hlt (by omega))]
      exact h.oam i hlt
    · rw [if_pos rfl]

/-- One cycle of the transfer, whichever it is. -/
theorem Copying.busCycle (h : Copying m page k n) (hp : page < 0x20 ∨ 0x60 ≤ page) (hk : k < 512) :
    Copying m page (k + 1) n.busCycle := by
  rcases Nat.mod_two_eq_zero_or_one k with heven | hodd
  · exact h.read hp hk heven
  · exact h.write hk hodd

/-! ## A run -/

/-- Dots and processor cycles in any order, of which the transfer of `m` has had so many: the sound unit
    may take others for itself.  No cycle fails, and nothing is drawn. -/
inductive Run (m : Machine Nrom) : Nat → Machine Nrom → Prop where
  | start : Run m 0 m
  | dot {k : Nat} {n : Machine Nrom} : Run m k n → n.dot.2.board.picture.rendering = false → Run m k n.dot.2
  | stalled {k : Nat} {n : Machine Nrom} : Run m k n → n.serveSound.1 = true → n.cpuCycle.1 = .ok () →
      Run m k n.cpuCycle.2
  | bus {k : Nat} {n : Machine Nrom} : Run m k n → n.serveSound.1 = false → n.cpuCycle.1 = .ok () →
      Run m (k + 1) n.cpuCycle.2

theorem beginTransfer_some {t : SpriteTransfer} (h : m.transfer = some t) : m.beginTransfer = m := by
  unfold beginTransfer
  dsimp only
  rw [h]
  dsimp only
  rw [← h]

/-- The copying has got as far as the transfer has had cycles. -/
theorem Run.copying {data : UInt8} (ht : m.transfer = some { page, started := true, data })
    (hp : page < 0x20 ∨ 0x60 ≤ page) (hr : m.board.picture.rendering = false) (h : Run m k n)
    (hk : k ≤ 512) : Copying m page k n := by
  induction h with
  | start =>
    have hfirst : m.board.picture.oamAddr = m.target 0 := (UInt8.add_zero _).symm
    have hnone : (0 : Nat) = 512 → m.transfer = none := by
      rintro ⟨⟩
    refine ⟨⟨_, _, rfl⟩, fun _ => ⟨data, ht, ?_⟩, hnone, rfl, rfl, hr, hfirst, ?_⟩
    · rintro ⟨⟩
    · intro i hi
      exact absurd hi (Nat.not_lt_zero i)
  | dot _ hdraws ih =>
    have hcopy := ih hk
    exact hcopy.beside (beside_dot hcopy.rendering hdraws).2
  | @stalled k n _ hstalled hok ih =>
    rw [cpuCycle_prepared hok, if_pos hstalled]
    exact (ih hk).beside (beside_prepared n)
  | @bus k n _ hstalled hok ih =>
    -- a transfer that was asked for meanwhile has to wait for this one
    have hcopy := (ih (by omega)).beside (beside_prepared n)
    obtain ⟨data', ht', -⟩ := hcopy.transfer (by omega)
    rw [cpuCycle_prepared hok, hstalled, if_neg Bool.false_ne_true, beginTransfer_some ht']
    exact hcopy.busCycle hp (by omega)

/-- Of every fourth byte three bits are not stored. -/
theorem storedAt_target (m : Machine Nrom) (i : Nat) (value : UInt8) : storedAt (m.target i) value =
    if (m.board.picture.oamAddr.toNat + i) % 4 = 2 then value &&& 0xE3 else value := by
  have hlow : (m.target i &&& 0x03).toNat = (m.board.picture.oamAddr.toNat + i) % 4 := by
    rw [UInt8.toNat_and, target_toNat]
    refine (Nat.and_two_pow_sub_one_eq_mod _ 2).trans ?_
    omega
  unfold storedAt
  refine ite_congr (propext ?_) (fun _ => rfl) fun _ => rfl
  rw [← UInt8.toNat_inj, hlow]
  rfl

/-- A transfer that has been let have the bus takes it for 512 cycles.  Then it is over, sprite memory
    holds the page from the place on at which its address stood, but for the bits that do not exist, the
    address stands there again, and the processor is where it was but for latched interrupts. -/
theorem Run.copies_page {data : UInt8} (ht : m.transfer = some { page, started := true, data })
    (hp : page < 0x20 ∨ 0x60 ≤ page) (hr : m.board.picture.rendering = false) (h : Run m k n) :
    (k < 512 → n.transfer.isSome) ∧
      (k = 512 → n.transfer = none ∧
        (∀ i < 256, n.board.picture.readOam (m.board.picture.oamAddr + .ofNat i) =
          let value := (m.board.read (.ofNat (page.toNat * 256 + i))).1
          if (m.board.picture.oamAddr.toNat + i) % 4 = 2 then value &&& 0xE3 else value) ∧
        n.board.picture.oamAddr = m.board.picture.oamAddr ∧
        ∃ nmiLatch irqLatch, n.cpu = { m.cpu with nmiLatch, irqLatch }) := by
  refine ⟨fun hk => ?_, fun hk => ?_⟩
  · obtain ⟨data', ht', -⟩ := (h.copying ht hp hr (by omega)).transfer hk
    rw [ht']
    rfl
  · subst hk
    have hcopy := h.copying ht hp hr (Nat.le_refl 512)
    refine ⟨hcopy.ended rfl, fun i hi => ?_, ?_, hcopy.cpu⟩
    · have hread : (m.board.read (.ofNat (page.toNat * 256 + i))).1 = m.pageByte page i :=
        congrArg Prod.fst (m.board.read_memory (inMemory_pageAddr hp hi))
      dsimp only
      rw [hread, ← storedAt_target]
      exact hcopy.oam i hi
    · rw [hcopy.oamAddr, ← UInt8.toNat_inj, target_toNat]
      have := m.board.picture.oamAddr.toNat_lt
      omega

end Machine

/-! ## A transfer with nothing beside it -/

/-- The unit of the usual settings, that many cycles after power-on, in which no sample was started. -/
structure Sound.Counting (k : Nat) (s : Sound) : Prop where
  reachable : s.Reachable
  current : s.current = k
  length : s.mixer.settings.cycleLength = 10000
  delay : s.dmc.startDelay = 0
  buffer : s.dmc.buffer = none
  requested : s.dmc.requested = false

theorem Sound.Counting.new {s : Sound} (h : Sound.new .ntsc {} = .ok s) : s.Counting 0 := by
  obtain ⟨hw, hs⟩ := new_eq_ok h
  have hsettings : s.mixer.settings = {} := congrArg Wiring.settings hw
  refine ⟨.new h, ?_, by rw [hsettings], ?_, ?_, ?_⟩
  · rw [hs]
  · rw [hs]
    rfl
  · rw [hs]
    rfl
  · rw [hs]
    rfl

/-- For less than an audio frame it goes on counting. -/
theorem Sound.Counting.process {k : Nat} {s : Sound} (h : s.Counting k) (hk : k < 9998) :
    s.process.1 = .ok () ∧ s.process.2.Counting (k + 1) := by
  have hwithin : s.current + 1 < s.mixer.settings.cycleLength.toNat - 1 := by
    rw [h.current, h.length]
    show k + 1 < 9999
    omega
  obtain ⟨hcurrent, pending, hmixer⟩ := process_within h.reachable.settled hwithin
  have hok : s.process.1 = .ok () := by
    unfold Sound.process
    dsimp only
    rw [if_neg (Nat.not_le.mpr hwithin)]
  have hmoves : s.moves .process = .wait ::
      { s with current := s.current + 1, dmc := s.dmc.tickStartDelay }.expiring :=
    if_neg (Nat.not_le.mpr hwithin)
  have hwait : s.dmc.bare.step .wait = s.dmc.bare := by
    show s.dmc.bare.tickStartDelay = s.dmc.bare
    unfold Dmc.tickStartDelay
    rw [show s.dmc.bare.startDelay = 0 from h.delay]
  have hbare := bare_process s
  rw [hmoves, Dmc.after_cons, hwait] at hbare
  have hidle := Dmc.idle_expiries (d := s.dmc.bare) h.buffer
    (expiries { s with current := s.current + 1, dmc := s.dmc.tickStartDelay })
  rw [← expiring, ← hbare] at hidle
  refine ⟨hok, h.reachable.process, hcurrent.trans (congrArg (· + 1) h.current), ?_,
    hidle.delay.trans h.delay, hidle.buffer, hidle.requested.trans h.requested⟩
  rw [hmixer]
  exact h.length

namespace Machine

variable {m n : Machine Nrom} {page data : UInt8} {k : Nat}

/-- A byte from memory does not disturb the sound unit. -/
theorem transferCycle_sound (m : Machine Nrom) {t : SpriteTransfer} (h : InMemory t.source) :
    (m.transferCycle t).board.sound = m.board.sound := by
  unfold transferCycle
  dsimp only
  split
  · rw [Mainboard.read_memory _ h]
  · rfl

/-- A sound unit that asks for nothing takes no cycle. -/
theorem serveSound_quiet {γ : Type} [Cartridge γ] {m : Machine γ}
    (h : m.board.sound.dmc.requested = false) : m.serveSound = (false, m) := by
  unfold serveSound Mainboard.onSound
  dsimp only
  rw [Sound.takeDmcRequest_of_not h]

/-- And the cycle goes well if the sound unit's own does. -/
theorem cpuCycle_quiet {γ : Type} [Cartridge γ] {m : Machine γ} (h : m.board.sound.dmc.requested = false)
    (hprocess : m.board.sound.process.1 = .ok ()) : m.cpuCycle.1 = .ok () := by
  unfold Machine.cpuCycle Mainboard.onSound
  rw [serveSound_quiet h]
  dsimp only
  rw [show m.board.sound.process = (.ok (), m.board.sound.process.2) from Prod.ext hprocess rfl]

/-- With no byte asked for, the transfer has the cycle. -/
theorem exists_run (ht : m.transfer = some { page, started := true, data })
    (hp : page < 0x20 ∨ 0x60 ≤ page) (hr : m.board.picture.rendering = false)
    (hs : m.board.sound.Counting 0) (hk : k ≤ 512) : ∃ n, Run m k n ∧ n.board.sound.Counting k := by
  induction k with
  | zero => exact ⟨m, .start, hs⟩
  | succ k ih =>
    obtain ⟨n, hrun, hcount⟩ := ih (by omega)
    have hserve := serveSound_quiet hcount.requested
    obtain ⟨hprocess, hnext⟩ := hcount.process (by omega)
    have hok := cpuCycle_quiet hcount.requested hprocess
    have hcopy := (hrun.copying ht hp hr (by omega)).beside (beside_prepared n)
    obtain ⟨data', ht', -⟩ := hcopy.transfer (by omega)
    have hsound : n.prepared.board.sound = n.board.sound.process.2 := by
      unfold prepared raiseSoundIrq
      rw [hserve]
      dsimp only
      split
      · rfl
      · rfl
    refine ⟨n.cpuCycle.2, hrun.bus (congrArg Prod.fst hserve) hok, ?_⟩
    have hbus : n.prepared.busCycle =
        n.prepared.transferCycle { page, cycles := k, started := true, data := data' } := by
      unfold busCycle
      rw [ht']
      exact if_pos rfl
    have hmemory :
        InMemory (SpriteTransfer.source { page, cycles := k, started := true, data := data' }) := by
      have hplace : k / 2 < 256 := by omega
      rw [SpriteTransfer.source_eq _ (show k < 512 by omega)]
      exact inMemory_pageAddr hp hplace
    rw [cpuCycle_prepared hok, hserve, if_neg Bool.false_ne_true, beginTransfer_some ht', hbus,
      transferCycle_sound _ hmemory, hsound]
    exact hnext

/-- A machine at power-on, in which the processor has let a transfer of its third page have the bus, ends
    it after 512 cycles. -/
theorem run_copies_page_powerOn : ∃ m n : Machine Nrom,
    m.transfer = some { page := 0x02, started := true } ∧ Run m 512 n ∧ n.transfer = none := by
  have hroom : MixerSettings.bufferSamples {} ≠ 0 := by decide
  obtain ⟨s, hs⟩ := Sound.exists_new hroom (by decide) (by decide) .ntsc
  let m : Machine Nrom := { Machine.new (Mainboard.new (.new .ntsc) s Picture.solidBoard) with
    transfer := some { page := 0x02, started := true } }
  have hcount : m.board.sound.Counting 0 := .new hs
  obtain ⟨n, hrun, -⟩ := exists_run (m := m) rfl (by decide) rfl hcount (Nat.le_refl 512)
  exact ⟨m, n, rfl, hrun, ((hrun.copies_page rfl (by decide) rfl).2 rfl).1⟩

end Machine

end Famicom
