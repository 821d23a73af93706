/-
  The eight registers through which a program reaches the picture unit.

  Their addresses repeat every eight bytes.  Every write, and every read of a register that can be
  read, leaves its byte on the data lines, which is what a register that cannot be read answers with.
  Until the unit has warmed up, writes to control, mask, scroll and address have no other effect.
-/
import Famicom.Picture.Sprite

namespace Famicom

namespace Picture

/-- A data access moves the address on: by the chosen step, or as drawing does if the unit draws. -/
def stepAddr (p : Picture) : Picture :=
  { p with scroll :=
      if p.rendering then p.scroll.nextColumn.nextRow
      else p.scroll.skip (if p.control.stepsDown then 0x20 else 0x01) }

/-- Reads the status.  On the dot before vertical blank the answer says that it has begun, and it then
    does not. -/
def readStatus (p : Picture) : Picture :=
  let early := p.row = p.region.vblankRow && p.dot = 0
  let p := { p with missVblank := p.missVblank || early, vblank := p.vblank || early }
  { p with
    latch := (p.latch &&& 0x1F) ||| p.status
    scroll := p.scroll.expectFirst
    vblank := false }

/-- Reads sprite memory.  While the unit draws, the answer is what it is handling itself. -/
def readSprites (p : Picture) : Picture :=
  if p.rendering && !p.onPrerender then
    let p :=
      if 257 ≤ p.dot && p.dot ≤ 320 then
        let step := min ((p.dot - 257) &&& 7) 3
        let copied := (((p.dot - 257) >>> (3 : UInt16)) * 4 + step).toUInt8
        { p with evaluation := { p.evaluation with copied, buffer := p.readSecondary copied } }
      else p
    { p with latch := p.evaluation.buffer }
  else { p with latch := p.readOam p.oamAddr }

variable {γ : Type} [Cartridge γ]

/-- Reads picture memory.  The answer is the byte read the time before, except from the palette. -/
@[specialize] def readData (p : Picture) (c : γ) : Picture × γ :=
  let addr := p.scroll.addr &&& 0x3FFF
  let latch :=
    if addr < 0x3F00 then p.readBuffer
    else
      let entry := p.readPalette addr ||| (p.latch &&& 0xC0)
      if p.mask.grey then entry &&& 0x30 else entry
  let (readBuffer, c) := Cartridge.ppuRead c addr
  ({ p with latch, readBuffer }.stepAddr, c)

/-- Reads a register. -/
@[specialize] def readRegister (p : Picture) (c : γ) (addr : UInt16) : UInt8 × Picture × γ :=
  let (p, c) : Picture × γ :=
    match addr &&& 0x0007 with
    | 2 => (p.readStatus, c)
    | 4 => (p.readSprites, c)
    | 7 => p.readData c
    | _ => (p, c)
  (p.latch, p, c)

/-- Writes the control register.  Asking for interrupts during vertical blank causes one. -/
def writeControl (p : Picture) (data : UInt8) : Picture :=
  let asked := p.vblank && !p.control.nmi && (⟨data⟩ : Control).nmi
  { p with
    control := ⟨data⟩
    nmiRequested := p.nmiRequested || asked
    scroll := p.scroll.chooseTable data }

/-- Writes sprite memory.  Three bits of the attributes do not exist.  While the unit draws, the byte is
    lost and the address moves to the next sprite. -/
def writeSprites (p : Picture) (data : UInt8) : Picture :=
  if p.rendering then { p with oamAddr := p.oamAddr + 4 }
  else
    let data := if p.oamAddr &&& 0x03 = 0x02 then data &&& 0xE3 else data
    { p.writeOam p.oamAddr data with oamAddr := p.oamAddr + 1 }

/-- Writes picture memory.  While the unit draws, what is stored is the low byte of the address. -/
@[specialize] def writeData (p : Picture) (c : γ) (data : UInt8) : Picture × γ :=
  let addr := p.scroll.addr &&& 0x3FFF
  if 0x3F00 ≤ addr then ((p.writePalette addr data).stepAddr, c)
  else
    let c := Cartridge.ppuWrite c addr (if p.rendering then p.scroll.addr.toUInt8 else data)
    (p.stepAddr, c)

/-- Writes a register. -/
@[specialize] def writeRegister (p : Picture) (c : γ) (addr : UInt16) (data : UInt8) :
    Picture × γ :=
  let p := { p with latch := data }
  match addr &&& 0x0007 with
  | 0 => (if p.warmingUp then p else p.writeControl data, c)
  | 1 => (if p.warmingUp then p else { p with mask := .ofWrite p.region data }, c)
  | 3 => ({ p with oamAddr := data }, c)
  | 4 => (p.writeSprites data, c)
  | 5 => (if p.warmingUp then p else { p with scroll := p.scroll.writePosition data }, c)
  | 6 => (if p.warmingUp then p else { p with scroll := p.scroll.writeAddr data }, c)
  | 7 => p.writeData c data
  | _ => (p, c)

end Picture

end Famicom
