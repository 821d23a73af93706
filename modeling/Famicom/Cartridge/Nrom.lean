/-
  The plainest cartridge: no bank switching.

  Program ROM of 16 KiB (seen twice) or 32 KiB at `$8000`, 8 KiB of RAM at `$6000`, 8 KiB of pattern
  ROM or, where the cartridge has none, pattern RAM, and the console's own 2 KiB of name-table memory
  wired by `Mirroring`.  Main statements: `Nrom.build` accepts exactly the sizes above
  (`build_isOk_iff`), and every access stays inside the memory it goes to, which the vectors' lengths
  carry.
-/
import Famicom.Cartridge.Board
import Famicom.Cartridge.Mirroring

namespace Famicom

/-- Bytes of one bank of program ROM. -/
def prgBankSize : Nat := 0x4000

/-- Bytes of pattern memory. -/
def patternSize : Nat := 0x2000

/-- Why the contents of a cartridge are refused. -/
inductive CartridgeError where
  /-- Program ROM of a size other than 16 KiB and 32 KiB. -/
  | prgRomSize (bytes : Nat)
  /-- Pattern ROM of a size other than 8 KiB. -/
  | chrRomSize (bytes : Nat)
  deriving DecidableEq, Repr

/-- The text of a refusal. -/
def CartridgeError.message : CartridgeError → String
  | prgRomSize bytes => "invalid PRG-ROM size: " ++ toString bytes ++ " bytes"
  | chrRomSize bytes => "invalid CHR-ROM size: " ++ toString bytes ++ " bytes"

/-- Program ROM: one bank, which then answers at both places, or two. -/
inductive ProgramRom where
  | single (bank : Vector UInt8 prgBankSize)
  | double (low high : Vector UInt8 prgBankSize)

/-- An offset of fourteen bits lies in a bank. -/
theorem bankOffset_lt (addr : UInt16) : (addr &&& 0x3FFF).toNat < prgBankSize := by
  rw [UInt16.toNat_and]; exact Nat.lt_of_le_of_lt Nat.and_le_right (by decide)

/-- An offset of thirteen bits lies in 8 KiB. -/
theorem patternOffset_lt (addr : UInt16) : (addr &&& 0x1FFF).toNat < patternSize := by
  rw [UInt16.toNat_and]; exact Nat.lt_of_le_of_lt Nat.and_le_right (by decide)

/-- The byte a ROM of either size shows at an address from `$8000`. -/
def ProgramRom.get (rom : ProgramRom) (addr : UInt16) : UInt8 :=
  have := bankOffset_lt addr
  match rom with
  | single bank => bank[(addr &&& 0x3FFF).toNat]
  | double low high => if addr < 0xC000 then low[(addr &&& 0x3FFF).toNat] else high[(addr &&& 0x3FFF).toNat]

/-- The program ROM with the given contents, if they are one bank or two. -/
def ProgramRom.ofArray? (bytes : Array UInt8) : Option ProgramRom :=
  if h : bytes.size = prgBankSize then some (.single ⟨bytes, h⟩)
  else if h : bytes.size = 2 * prgBankSize then
    some (.double ⟨bytes.extract 0 prgBankSize, by simp [h, prgBankSize]⟩
      ⟨bytes.extract prgBankSize (2 * prgBankSize), by simp [h, prgBankSize]⟩)
  else none

/-- A cartridge without bank switching. -/
structure Nrom where
  prgRom : ProgramRom
  prgRam : Vector UInt8 patternSize
  pattern : Vector UInt8 patternSize
  patternIsRam : Bool
  vram : Vector UInt8 0x800
  mirroring : Mirroring

namespace Nrom

/-- Builds a cartridge from its program ROM and its pattern ROM.  Without pattern ROM it gets pattern
    RAM.  The program ROM is checked first. -/
def build (prg chr : Array UInt8) (mirroring : Mirroring) : Except CartridgeError Nrom :=
  match ProgramRom.ofArray? prg with
  | none => .error (.prgRomSize prg.size)
  | some prgRom =>
    let board (pattern : Vector UInt8 patternSize) (patternIsRam : Bool) : Nrom :=
      { prgRom, pattern, patternIsRam, mirroring,
        prgRam := .replicate _ 0, vram := .replicate _ 0 }
    if chr.isEmpty then .ok (board (.replicate _ 0) true)
    else if h : chr.size = patternSize then .ok (board ⟨chr, h⟩ false)
    else .error (.chrRomSize chr.size)

/-- RAM at `$6000`, ROM from `$8000`; elsewhere nothing drives the data lines, which still show the
    low half of the address. -/
def cpuRead (c : Nrom) (addr : UInt16) : UInt8 :=
  have := patternOffset_lt addr
  if addr < 0x6000 then addr.toUInt8
  else if addr < 0x8000 then c.prgRam[(addr &&& 0x1FFF).toNat]
  else c.prgRom.get addr

/-- Only the RAM at `$6000` takes a byte. -/
def cpuWrite (c : Nrom) (addr : UInt16) (value : UInt8) : Nrom :=
  if addr < 0x6000 then c
  else if addr < 0x8000 then
    { c with prgRam := c.prgRam.set (addr &&& 0x1FFF).toNat value (patternOffset_lt addr) }
  else c

/-- Pattern memory below `$2000`, name tables from there; the picture bus has fourteen lines. -/
def ppuRead (c : Nrom) (addr : UInt16) : UInt8 :=
  let addr := addr &&& 0x3FFF
  have := patternOffset_lt addr
  have := c.mirroring.vramIndex_lt addr
  if addr < 0x2000 then c.pattern[(addr &&& 0x1FFF).toNat]
  else c.vram[(c.mirroring.vramIndex addr).toNat]

/-- Name tables and pattern RAM take a byte, pattern ROM does not. -/
def ppuWrite (c : Nrom) (addr : UInt16) (value : UInt8) : Nrom :=
  let addr := addr &&& 0x3FFF
  if addr < 0x2000 then
    if c.patternIsRam then
      { c with pattern := c.pattern.set (addr &&& 0x1FFF).toNat value (patternOffset_lt addr) }
    else c
  else
    let index := (c.mirroring.vramIndex addr).toNat
    { c with vram := c.vram.set index value (c.mirroring.vramIndex_lt addr) }

instance : Cartridge Nrom where
  cpuRead c addr := (c.cpuRead addr, c)
  cpuWrite := cpuWrite
  ppuRead c addr := (c.ppuRead addr, c)
  ppuWrite := ppuWrite

theorem ofArray?_eq_none_iff (bytes : Array UInt8) :
    ProgramRom.ofArray? bytes = none ↔
      bytes.size ≠ prgBankSize ∧ bytes.size ≠ 2 * prgBankSize := by
  unfold ProgramRom.ofArray?
  split
  · simp_all
  · split <;> simp_all

/-- The accepted contents are one or two banks of program ROM and no or 8 KiB of pattern ROM. -/
theorem build_isOk_iff (prg chr : Array UInt8) (mirroring : Mirroring) :
    (build prg chr mirroring).isOk = true ↔
      (prg.size = prgBankSize ∨ prg.size = 2 * prgBankSize) ∧
        (chr.size = 0 ∨ chr.size = patternSize) := by
  unfold build
  cases hp : ProgramRom.ofArray? prg with
  | none =>
    have := (ofArray?_eq_none_iff prg).mp hp
    simp [Except.isOk, Except.toBool, this]
  | some rom =>
    have hs : prg.size = prgBankSize ∨ prg.size = 2 * prgBankSize := by
      have h := mt (ofArray?_eq_none_iff prg).mpr (by simp [hp])
      omega
    by_cases he : chr.size = 0
    · simp [hs, he, Except.isOk, Except.toBool, Array.isEmpty]
    · have he' : chr.isEmpty = false := by simp [Array.isEmpty, he]
      by_cases hc : chr.size = patternSize <;>
        simp [hs, he, he', hc, Except.isOk, Except.toBool]

end Nrom

end Famicom
