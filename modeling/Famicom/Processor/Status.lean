/-
  The processor's status register: eight flags in one byte.

  The byte itself is kept, since it is pushed, pulled and loaded as a whole; `get` and `set` reach one
  flag.  Main statements: `set` answers to `get` (`get_set_self`) and leaves every other flag alone
  (`get_set_of_ne`), so that two flags may be set in either order (`set_comm`).
-/

namespace Famicom

/-- The flags, from bit 0 upwards. -/
inductive Flag where
  | carry
  | zero
  | interruptDisable
  /-- Kept, but this processor has no decimal arithmetic. -/
  | decimal
  | brk
  /-- Reads as set whenever the register is pushed. -/
  | unused
  | overflow
  | negative
  deriving DecidableEq, Repr

/-- The bit of a flag. -/
def Flag.mask : Flag → UInt8
  | carry => 0x01
  | zero => 0x02
  | interruptDisable => 0x04
  | decimal => 0x08
  | brk => 0x10
  | unused => 0x20
  | overflow => 0x40
  | negative => 0x80

/-- The status register. -/
structure Status where
  bits : UInt8
  deriving DecidableEq, Repr, Inhabited

namespace Status

/-- Whether a flag is set. -/
def get (s : Status) (f : Flag) : Bool := s.bits &&& f.mask != 0

/-- Sets or clears a flag. -/
def set (s : Status) (f : Flag) (on : Bool) : Status :=
  ⟨if on then s.bits ||| f.mask else s.bits &&& ~~~f.mask⟩

/-- Sets the zero and the negative flag by a result. -/
def setZeroNegative (s : Status) (value : UInt8) : Status :=
  (s.set .zero (value == 0)).set .negative (value &&& 0x80 != 0)

/-- The byte that goes onto the stack: the unused bit set, the break bit as given. -/
def pushed (s : Status) (brk : Bool) : UInt8 :=
  ((s.set .unused true).set .brk brk).bits

/-- The register as loaded from a byte of the stack: the unused bit set, the break bit clear. -/
def pulled (value : UInt8) : Status :=
  ((⟨value⟩ : Status).set .brk false).set .unused true

theorem get_set_self (s : Status) (f : Flag) (on : Bool) : (s.set f on).get f = on := by
  have hm : f.mask ≠ 0 := by cases f <;> decide
  have hset : (s.bits ||| f.mask) &&& f.mask = f.mask := by
    apply UInt8.toBitVec_inj.mp
    ext i
    simp only [UInt8.toBitVec_and, UInt8.toBitVec_or, BitVec.getElem_and, BitVec.getElem_or]
    cases s.bits.toBitVec[i] <;> cases f.mask.toBitVec[i] <;> rfl
  have hclear : (s.bits &&& ~~~f.mask) &&& f.mask = 0 := by
    apply UInt8.toBitVec_inj.mp
    ext i
    simp only [UInt8.toBitVec_and, UInt8.toBitVec_not, BitVec.getElem_and, BitVec.getElem_not]
    cases s.bits.toBitVec[i] <;> cases f.mask.toBitVec[i] <;> simp
  cases on <;> simp [get, set, hset, hclear, hm]

theorem get_set_of_ne (s : Status) {f g : Flag} (on : Bool) (h : f ≠ g) :
    (s.set f on).get g = s.get g := by
  have hm : f.mask &&& g.mask = 0 := by cases f <;> cases g <;> first | exact absurd rfl h | rfl
  have hm' : ∀ i (hi : i < 8), (f.mask.toBitVec[i] && g.mask.toBitVec[i]) = false := by
    intro i hi
    have := congrArg (fun m : UInt8 => m.toBitVec[i]) hm
    simpa using this
  have hset : (s.bits ||| f.mask) &&& g.mask = s.bits &&& g.mask := by
    apply UInt8.toBitVec_inj.mp
    ext i hi
    have := hm' i hi
    simp only [UInt8.toBitVec_and, UInt8.toBitVec_or, BitVec.getElem_and, BitVec.getElem_or]
    cases s.bits.toBitVec[i] <;> cases hf : f.mask.toBitVec[i] <;>
      cases hg : g.mask.toBitVec[i] <;> simp_all
  have hclear : (s.bits &&& ~~~f.mask) &&& g.mask = s.bits &&& g.mask := by
    apply UInt8.toBitVec_inj.mp
    ext i hi
    have := hm' i hi
    simp only [UInt8.toBitVec_and, UInt8.toBitVec_not, BitVec.getElem_and, BitVec.getElem_not]
    cases s.bits.toBitVec[i] <;> cases hf : f.mask.toBitVec[i] <;>
      cases hg : g.mask.toBitVec[i] <;> simp_all
  cases on <;> simp [get, set, hset, hclear]

theorem set_comm (s : Status) {f g : Flag} (h : f ≠ g) (x y : Bool) :
    (s.set f x).set g y = (s.set g y).set f x := by
  have hm : f.mask &&& g.mask = 0 := by cases f <;> cases g <;> first | exact absurd rfl h | rfl
  have hbits : ((s.set f x).set g y).bits = ((s.set g y).set f x).bits := by
    apply UInt8.toBitVec_inj.mp
    ext i hi
    have hi : (f.mask.toBitVec[i] && g.mask.toBitVec[i]) = false := by
      simpa using congrArg (fun m : UInt8 => m.toBitVec[i]) hm
    cases x <;> cases y <;> cases hf : f.mask.toBitVec[i] <;> cases hg : g.mask.toBitVec[i] <;>
      simp_all [set]
  exact congrArg Status.mk hbits

end Status

end Famicom
