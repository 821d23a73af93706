/-
  The main board: what hangs on the processor's bus.

  Two kilobytes of memory, seen four times below `$2000`; the picture unit's registers up to `$3FFF`;
  sound, sprite copying and the controllers up to `$401F`; the cartridge everywhere else.  Registers
  that can only be written are read from the cartridge, which leaves the data lines as they are.
-/
import Famicom.Bus
import Famicom.Controller
import Famicom.Picture.Raster
import Famicom.Picture.Register
import Famicom.Sound.Basic

namespace Famicom

/-- Bytes of memory on the board. -/
def ramSize : Nat := 0x800

theorem ramOffset_lt (addr : UInt16) : (addr &&& 0x07FF).toNat < ramSize := by
  rw [UInt16.toNat_and]; exact Nat.lt_of_le_of_lt Nat.and_le_right (by decide)

/-- The board with its chips and a cartridge. -/
structure Mainboard (γ : Type) where
  ram : Vector UInt8 ramSize
  picture : Picture
  sound : Sound
  controllers : Controllers
  cartridge : γ

namespace Mainboard

variable {γ : Type}

/-- A board with memory cleared and no controller touched. -/
def new (picture : Picture) (sound : Sound) (cartridge : γ) : Mainboard γ :=
  { ram := .replicate _ 0, picture, sound, controllers := {}, cartridge }

/-- Does something with the sound unit. -/
@[inline] def onSound {α : Type} (b : Mainboard γ) (f : Sound → α × Sound) : α × Mainboard γ :=
  let { ram, picture, sound, controllers, cartridge } := b
  let (a, sound) := f sound
  (a, { ram, picture, sound, controllers, cartridge })

/-- Does something with the picture unit and the cartridge it reads from. -/
@[inline] def onPicture {α : Type} (b : Mainboard γ) (f : Picture → γ → α × Picture × γ) :
    α × Mainboard γ :=
  let { ram, picture, sound, controllers, cartridge } := b
  let (a, picture, cartridge) := f picture cartridge
  (a, { ram, picture, sound, controllers, cartridge })

/-- Does something with the cartridge. -/
@[inline] def onCartridge {α : Type} (b : Mainboard γ) (f : γ → α × γ) : α × Mainboard γ :=
  let { ram, picture, sound, controllers, cartridge } := b
  let (a, cartridge) := f cartridge
  (a, { ram, picture, sound, controllers, cartridge })

/-- Answers the picture unit's request to copy sprites. -/
def takeDma (b : Mainboard γ) : Option UInt8 × Mainboard γ :=
  b.onPicture fun p c => let (page, p) := p.takeDma; (page, p, c)

/-- Back to power-on, except for the cartridge. -/
def reset (b : Mainboard γ) : Except ResampleError Unit × Mainboard γ :=
  let (result, b) := b.onSound Sound.reset
  (result, { b with ram := .replicate _ 0, picture := b.picture.reset, controllers := {} })

variable [Cartridge γ]

/-- Reads a byte. -/
def read (b : Mainboard γ) (addr : UInt16) : UInt8 × Mainboard γ :=
  if addr < 0x2000 then
    have := ramOffset_lt addr
    (b.ram[(addr &&& 0x07FF).toNat], b)
  else if addr < 0x4000 then b.onPicture fun p c => p.readRegister c addr
  else if addr = 0x4015 then b.onSound (·.read addr)
  else if addr = 0x4016 || addr = 0x4017 then
    let (bit, controllers) := b.controllers.read addr
    (0x40 ||| bit, { b with controllers })
  else b.onCartridge fun c => Cartridge.cpuRead c addr

/-- Writes a byte. -/
def write (b : Mainboard γ) (addr : UInt16) (data : UInt8) : Mainboard γ :=
  if addr < 0x2000 then
    { b with ram := b.ram.set (addr &&& 0x07FF).toNat data (ramOffset_lt addr) }
  else if addr < 0x4000 then
    (b.onPicture fun p c => ((), p.writeRegister c addr data)).2
  else if addr = 0x4014 then { b with picture := b.picture.requestDma data }
  else if addr = 0x4016 then { b with controllers := b.controllers.write data }
  else if addr ≤ 0x4017 then { b with sound := b.sound.write addr data }
  else if addr < 0x4020 then b
  else { b with cartridge := Cartridge.cpuWrite b.cartridge addr data }

instance : Bus (Mainboard γ) where
  read := read
  write := write

/-- One dot of the picture. -/
def dot (b : Mainboard γ) : Except PictureFault Unit × Mainboard γ :=
  b.onPicture fun p c => p.tick c

end Mainboard

end Famicom
