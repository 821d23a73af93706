/-
  What the console sees of a cartridge.

  A cartridge answers on two buses, the processor's above `$4020` and the picture unit's below
  `$4000`.  Boards with circuits of their own may also watch address line 12 of the picture bus, count
  processor cycles and ask for an interrupt; a board without them leaves those three as they are.
-/
import Famicom.Bus

namespace Famicom

/-- The circuit board of a cartridge. -/
class Cartridge (γ : Type) where
  /-- Reads on the processor's bus. -/
  cpuRead : γ → UInt16 → UInt8 × γ
  /-- Writes on the processor's bus. -/
  cpuWrite : γ → UInt16 → UInt8 → γ
  /-- Reads on the picture bus. -/
  ppuRead : γ → UInt16 → UInt8 × γ
  /-- Writes on the picture bus. -/
  ppuWrite : γ → UInt16 → UInt8 → γ
  /-- Is shown the address of a pattern fetch, whose line 12 tells the two pattern tables apart. -/
  watchA12 : γ → UInt16 → γ := fun c _ => c
  /-- Is told that a processor cycle has passed. -/
  onCpuCycle : γ → CycleKind → γ := fun c _ => c
  /-- Whether an interrupt is asked for; asking ends with the answer. -/
  takeIrq : γ → Bool × γ := fun c => (false, c)

end Famicom
