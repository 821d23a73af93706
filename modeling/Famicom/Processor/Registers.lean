/-
  The processor's registers and what its data operations do to them.

  Operations are grouped by the way they use the data bus.  A `ReadOp` is given a byte, a `ModifyOp`
  is given a byte and gives one back, an `ImpliedOp` works on the registers alone, a `StoreOp` only
  names the byte to be written, and a `Condition` decides whether a branch is taken.  None of them
  touches the program counter.
-/
import Famicom.Processor.Status

namespace Famicom

/-- The registers a program sees. -/
structure Registers where
  a : UInt8 := 0
  x : UInt8 := 0
  y : UInt8 := 0
  /-- The stack pointer, an offset into page 1. -/
  sp : UInt8 := 0
  pc : UInt16 := 0
  status : Status := ⟨0x24⟩
  deriving DecidableEq, Repr, Inhabited

/-- Operations that are given a byte. -/
inductive ReadOp where
  | adc | sbc | and | ora | eor | bit | cmp | cpx | cpy | lda | ldx | ldy | lax | nop
  deriving DecidableEq, Repr

/-- Operations that replace a byte. -/
inductive ModifyOp where
  | asl | lsr | rol | ror | inc | dec | slo | rla | sre | rra | dcp | isb
  deriving DecidableEq, Repr

/-- Operations on registers alone. -/
inductive ImpliedOp where
  | inx | iny | dex | dey | tax | tay | txa | tya | tsx | txs
  | clc | sec | cli | sei | cld | sed | clv
  deriving DecidableEq, Repr

/-- Operations that write registers to memory. -/
inductive StoreOp where
  | sta | stx | sty | sax
  deriving DecidableEq, Repr

/-- Conditions for a branch. -/
inductive Condition where
  | carryClear | carrySet | notEqual | equal | plus | minus | overflowClear | overflowSet
  deriving DecidableEq, Repr

namespace Registers

/-- Sets or clears a flag. -/
def setFlag (r : Registers) (f : Flag) (on : Bool) : Registers :=
  { r with status := r.status.set f on }

/-- Sets the zero and the negative flag by a result. -/
def setZeroNegative (r : Registers) (value : UInt8) : Registers :=
  { r with status := r.status.setZeroNegative value }

/-- Loads the accumulator with a result and sets the zero and the negative flag by it. -/
def loadA (r : Registers) (value : UInt8) : Registers := { r with a := value }.setZeroNegative value

/-- Loads the X register with a result and sets the zero and the negative flag by it. -/
def loadX (r : Registers) (value : UInt8) : Registers := { r with x := value }.setZeroNegative value

/-- Loads the Y register with a result and sets the zero and the negative flag by it. -/
def loadY (r : Registers) (value : UInt8) : Registers := { r with y := value }.setZeroNegative value

/-- Adds a byte and the carry to the accumulator.  Carry is the ninth bit of the sum; overflow says
    that both numbers had the sign the result has not. -/
def adc (r : Registers) (value : UInt8) : Registers :=
  let sum := r.a.toNat + value.toNat + (r.status.get .carry).toNat
  let result := UInt8.ofNat sum
  let overflow := (r.a ^^^ result) &&& (value ^^^ result) &&& 0x80 != 0
  ((r.setFlag .carry (255 < sum)).setFlag .overflow overflow).loadA result

/-- Subtracts a byte and the borrow, which is the carry clear, from the accumulator.  This is the
    addition of the byte's complement: `a - v - (1 - c) + 256 = a + (255 - v) + c`. -/
def sbc (r : Registers) (value : UInt8) : Registers := r.adc (~~~value)

/-- Compares a register with a byte: carry if it is not below, zero if equal, negative by the
    difference. -/
def compare (r : Registers) (register value : UInt8) : Registers :=
  (r.setFlag .carry (value ≤ register)).setZeroNegative (register - value)

/-- Zero by the common bits of the accumulator and a byte, overflow and negative by bits 6 and 7 of
    the byte. -/
def bit (r : Registers) (value : UInt8) : Registers :=
  ((r.setFlag .zero (r.a &&& value == 0)).setFlag .overflow (value &&& 0x40 != 0)).setFlag
    .negative (value &&& 0x80 != 0)

/-- A result together with the registers that its carry, zero and negative flags leave. -/
def shifted (r : Registers) (carry : Bool) (result : UInt8) : UInt8 × Registers :=
  (result, (r.setFlag .carry carry).setZeroNegative result)

/-- Shifts left; bit 7 goes to the carry. -/
def asl (r : Registers) (value : UInt8) : UInt8 × Registers :=
  r.shifted (value &&& 0x80 != 0) (value <<< 1)

/-- Shifts right; bit 0 goes to the carry. -/
def lsr (r : Registers) (value : UInt8) : UInt8 × Registers :=
  r.shifted (value &&& 0x01 != 0) (value >>> 1)

/-- Shifts left with the carry coming in. -/
def rol (r : Registers) (value : UInt8) : UInt8 × Registers :=
  r.shifted (value &&& 0x80 != 0)
    ((value <<< (1 : UInt8)) ||| if r.status.get .carry then 0x01 else 0x00)

/-- Shifts right with the carry coming in. -/
def ror (r : Registers) (value : UInt8) : UInt8 × Registers :=
  r.shifted (value &&& 0x01 != 0)
    ((value >>> (1 : UInt8)) ||| if r.status.get .carry then 0x80 else 0x00)

end Registers

/-- What a read operation does with the byte it is given. -/
def ReadOp.apply (op : ReadOp) (value : UInt8) (r : Registers) : Registers :=
  match op with
  | adc => r.adc value
  | sbc => r.sbc value
  | and => r.loadA (r.a &&& value)
  | ora => r.loadA (r.a ||| value)
  | eor => r.loadA (r.a ^^^ value)
  | bit => r.bit value
  | cmp => r.compare r.a value
  | cpx => r.compare r.x value
  | cpy => r.compare r.y value
  | lda => r.loadA value
  | ldx => r.loadX value
  | ldy => r.loadY value
  | lax => { r with x := value }.loadA value
  | nop => r

/-- The byte that a modify operation makes of the one it is given, and the registers after it.  The
    last six are a shift or a count followed by an operation on the accumulator. -/
def ModifyOp.apply (op : ModifyOp) (value : UInt8) (r : Registers) : UInt8 × Registers :=
  match op with
  | asl => r.asl value
  | lsr => r.lsr value
  | rol => r.rol value
  | ror => r.ror value
  | inc => (value + 1, r.setZeroNegative (value + 1))
  | dec => (value - 1, r.setZeroNegative (value - 1))
  | slo => let (result, r) := r.asl value; (result, r.loadA (r.a ||| result))
  | rla => let (result, r) := r.rol value; (result, r.loadA (r.a &&& result))
  | sre => let (result, r) := r.lsr value; (result, r.loadA (r.a ^^^ result))
  | rra => let (result, r) := r.ror value; (result, r.adc result)
  | dcp => (value - 1, r.compare r.a (value - 1))
  | isb => (value + 1, r.sbc (value + 1))

/-- What an implied operation does to the registers. -/
def ImpliedOp.apply (op : ImpliedOp) (r : Registers) : Registers :=
  match op with
  | inx => r.loadX (r.x + 1)
  | iny => r.loadY (r.y + 1)
  | dex => r.loadX (r.x - 1)
  | dey => r.loadY (r.y - 1)
  | tax => r.loadX r.a
  | tay => r.loadY r.a
  | txa => r.loadA r.x
  | tya => r.loadA r.y
  | tsx => r.loadX r.sp
  | txs => { r with sp := r.x }
  | clc => r.setFlag .carry false
  | sec => r.setFlag .carry true
  | cli => r.setFlag .interruptDisable false
  | sei => r.setFlag .interruptDisable true
  | cld => r.setFlag .decimal false
  | sed => r.setFlag .decimal true
  | clv => r.setFlag .overflow false

/-- The byte that a store operation writes. -/
def StoreOp.value (op : StoreOp) (r : Registers) : UInt8 :=
  match op with
  | sta => r.a
  | stx => r.x
  | sty => r.y
  | sax => r.a &&& r.x

/-- Whether the flags meet a condition. -/
def Condition.holds (c : Condition) (s : Status) : Bool :=
  match c with
  | carryClear => !s.get .carry
  | carrySet => s.get .carry
  | notEqual => !s.get .zero
  | equal => s.get .zero
  | plus => !s.get .negative
  | minus => s.get .negative
  | overflowClear => !s.get .overflow
  | overflowSet => s.get .overflow

end Famicom
