/-
  What a processor sees of the world: sixteen address lines, eight data lines, and one read or write
  per cycle.

  `Bus` is the interface.  A read hands the bus back as well, since on this machine reading a register
  changes it.  Two buses are given here: `Memory`, 64 KiB that answer with what was last written, and
  `Recorded`, any bus together with the list of accesses made to it.  Main statements: the two laws of
  `Memory`, that a read answers with the byte last written and that no other byte changes.
-/

namespace Famicom

/-- What a processor cycle does with the bus. -/
inductive CycleKind where
  | read
  | write
  deriving DecidableEq, Repr, Inhabited

/-- A device with sixteen address lines and eight data lines. -/
class Bus (β : Type) where
  /-- Reads the byte at an address. -/
  read : β → UInt16 → UInt8 × β
  /-- Writes a byte to an address. -/
  write : β → UInt16 → UInt8 → β

/-- One read or write, with the byte that went over the data lines. -/
structure Access where
  kind : CycleKind
  addr : UInt16
  data : UInt8
  deriving DecidableEq, Repr

/-- 64 KiB of memory without side effects. -/
structure Memory where
  cells : Vector UInt8 0x10000

namespace Memory

/-- Memory in which every byte is the same. -/
def filled (value : UInt8) : Memory := ⟨.replicate _ value⟩

/-- The byte at an address. -/
def get (m : Memory) (addr : UInt16) : UInt8 :=
  have : addr.toNat < 0x10000 := addr.toNat_lt
  m.cells[addr.toNat]

/-- Memory after a byte is written to an address. -/
def set (m : Memory) (addr : UInt16) (value : UInt8) : Memory :=
  ⟨m.cells.set addr.toNat value addr.toNat_lt⟩

@[simp] theorem get_filled (value : UInt8) (addr : UInt16) : (filled value).get addr = value := by
  simp [filled, get]

@[simp] theorem get_set_self (m : Memory) (addr : UInt16) (value : UInt8) :
    (m.set addr value).get addr = value := by
  simp [get, set]

theorem get_set_of_ne (m : Memory) {addr other : UInt16} (value : UInt8) (h : addr ≠ other) :
    (m.set addr value).get other = m.get other := by
  have h' : addr.toNat ≠ other.toNat := fun e => h (UInt16.toNat_inj.mp e)
  simp [get, set, h']

instance : Bus Memory where
  read m addr := (m.get addr, m)
  write m addr value := m.set addr value

end Memory

/-- A bus with the list of the accesses made to it, the latest first. -/
structure Recorded (β : Type) where
  bus : β
  accesses : List Access := []

instance {β : Type} [Bus β] : Bus (Recorded β) where
  read r addr :=
    let (data, bus) := Bus.read r.bus addr
    (data, ⟨bus, ⟨.read, addr, data⟩ :: r.accesses⟩)
  write r addr data := ⟨Bus.write r.bus addr data, ⟨.write, addr, data⟩ :: r.accesses⟩

end Famicom
