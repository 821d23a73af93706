/-
  The 64 colours of the picture unit and what colour emphasis does to them.

  A colour is a word `0xRRGGBB`.  Each of the three emphasis bits darkens the two channels it does not
  name, to 84 % each time; blacks of the last two columns are left as they are.  Whole-number division
  is enough for this: `c * 84 / 100` and `c * 7056 / 10000` are the channel values after one and after
  two darkenings, rounded down.  `emphasizedTable` keeps all 512 results (`emphasizedTable_get`).
-/

namespace Famicom

/-- The colours by index, as `0xRRGGBB`. -/
def masterPalette : Vector UInt32 64 := #v[
  0x666666, 0x002A88, 0x1412A7, 0x3B00A4, 0x5C007E, 0x6E0040, 0x6C0600, 0x561D00,
  0x333500, 0x0B4800, 0x005200, 0x004F08, 0x00404D, 0x000000, 0x000000, 0x000000,
  0xADADAD, 0x155FD9, 0x4240FF, 0x7527FE, 0xA01ACC, 0xB71E7B, 0xB53120, 0x994E00,
  0x6B6D00, 0x388700, 0x0C9300, 0x008F32, 0x007C8D, 0x000000, 0x000000, 0x000000,
  0xFFFEFF, 0x64B0FF, 0x9290FF, 0xC676FF, 0xF36AFF, 0xFE6ECC, 0xFE8170, 0xEA9E22,
  0xBCBE00, 0x88D800, 0x5CE430, 0x45E082, 0x48CDDE, 0x4F4F4F, 0x000000, 0x000000,
  0xFFFEFF, 0xC0DFFF, 0xD3D2FF, 0xE8C8FF, 0xFBC2FF, 0xFEC4EA, 0xFECCC5, 0xF7D8A5,
  0xE4E594, 0xCFEF96, 0xBDF4AB, 0xB3F3CC, 0xB5EBF2, 0xB8B8B8, 0x000000, 0x000000]

theorem colorIndex_lt (index : UInt8) : (index &&& 0x3F).toNat < 64 := by
  rw [UInt8.toNat_and]; exact Nat.lt_of_le_of_lt Nat.and_le_right (by decide)

/-- The colour of an index, of which six bits count. -/
def color (index : UInt8) : UInt32 :=
  have := colorIndex_lt index
  masterPalette[(index &&& 0x3F).toNat]

/-- The red, green and blue channels of a colour. -/
def channels (rgb : UInt32) : List UInt8 :=
  [(rgb >>> 16).toUInt8, (rgb >>> 8).toUInt8, rgb.toUInt8]

/-- The colour with these channels. -/
def ofChannels (red green blue : UInt8) : UInt32 :=
  (red.toUInt32 <<< 16) ||| (green.toUInt32 <<< 8) ||| blue.toUInt32

/-- A channel darkened by two emphasis bits, either of which may be clear. -/
def darken (first second : Bool) (channel : UInt32) : UInt32 :=
  match first, second with
  | false, false => channel
  | true, true => channel * 7056 / 10000
  | _, _ => channel * 84 / 100

/-- The colour of an index under the emphasis bits for red, green and blue. -/
def emphasized (red green blue : Bool) (index : UInt8) : UInt32 :=
  let rgb := color index
  if 0x0D < index &&& 0x0F then rgb
  else
    (darken green blue (rgb >>> 16) <<< 16) |||
      (darken red blue (rgb >>> 8 &&& 0xFF) <<< 8) ||| darken red green (rgb &&& 0xFF)

/-- The emphasised colours: three emphasis bits, red lowest, then six bits of the index. -/
def emphasizedTable : Vector UInt32 512 :=
  .ofFn fun i =>
    let bits := i.val / 64
    emphasized (bits.testBit 0) (bits.testBit 1) (bits.testBit 2) (UInt8.ofNat (i.val % 64))

theorem emphasizedTable_get (i : Nat) (h : i < 512) :
    emphasizedTable[i] = emphasized ((i / 64).testBit 0) ((i / 64).testBit 1) ((i / 64).testBit 2)
      (UInt8.ofNat (i % 64)) := by
  simp [emphasizedTable]

end Famicom
