/-
  What the serial lines of the controllers answer, told by what has happened before.

  1. **The past** (`Past`): what was done at the sockets, the latest act first.  The level of the strobe
     line, the buttons held, the last moment at which they were copied and the reads of a line since
     then are read off it (`strobe`, `held`, `lastCopy`, `readsSince`), with no shift register.
  2. **A copy** (`testBit_latch`): bit `k` of a register just loaded is the `k`th button, opposite
     directions held together being released, and no bit follows the eighth.
  3. **Every register** (`Follows`): the past says which buttons a controller shows and which bits its
     register still has to give.  Each kind of act keeps this, and so every past does (`follows_after`).
  4. **What is not seen** (`pending_of_unseen`): while the strobe line is low, presses and reads of the
     other line change neither the copy that a line is read from nor the place in it.

  Main statement: `serial_protocol`.
-/
import Famicom.Controller
import Famicom.Proofs.Words

namespace Famicom

/-! ## Buttons in a row -/

namespace Button

/-- The direction opposite to a direction. -/
def opposite? : Button → Option Button
  | .up => some .down
  | .down => some .up
  | .left => some .right
  | .right => some .left
  | _ => none

/-- Whether a button counts as pressed: it is held, and the direction opposite to it is not. -/
def isPressed (held : Button → Bool) (button : Button) : Bool :=
  held button && !button.opposite?.any held

/-- The `j`th bit that is read out of a copy of the buttons held. -/
def bitAt (held : Button → Bool) (j : Nat) : Bool := all[j]?.any (isPressed held)

/-- The place of a button in the order in which they are read out. -/
def index (button : Button) : Nat := all.idxOf button

/-- The mask of a button has its bit only. -/
theorem testBit_mask (button other : Button) :
    button.mask.toNat.testBit other.index = decide (button = other) := by
  cases button <;> cases other <;> rfl

theorem testBit_not_mask (button other : Button) :
    (~~~button.mask).toNat.testBit other.index = !decide (button = other) := by
  cases button <;> cases other <;> rfl

end Button

namespace Controller

/-- A button is held if its bit is set. -/
theorem isHeld_eq (c : Controller) (button : Button) :
    c.isHeld button = c.held.toNat.testBit button.index := by
  refine forall_byte (P := fun v => (v &&& button.mask != 0) = v.toNat.testBit button.index) ?_ c.held
  cases button <;> decide +kernel

/-- A press or a release changes one button. -/
theorem isHeld_setButton (c : Controller) (button other : Button) (pressed : Bool) :
    (c.setButton button pressed).isHeld other = if button = other then pressed else c.isHeld other := by
  rw [isHeld_eq, isHeld_eq]
  cases pressed with
  | true =>
    show (c.held ||| button.mask).toNat.testBit other.index = _
    rw [UInt8.toNat_or, Nat.testBit_or, Button.testBit_mask]
    split
    · next h => rw [decide_eq_true h, Bool.or_true]
    · next h => rw [decide_eq_false h, Bool.or_false]
  | false =>
    show (c.held &&& ~~~button.mask).toNat.testBit other.index = _
    rw [UInt8.toNat_and, Nat.testBit_and, Button.testBit_not_mask]
    split
    · next h => rw [decide_eq_true h, Bool.not_true, Bool.and_false]
    · next h => rw [decide_eq_false h, Bool.not_false, Bool.and_true]

/-- A register just loaded gives the buttons in their order, and nothing after them. -/
theorem testBit_latch (c : Controller) (k : Nat) :
    c.latch.shift.toNat.testBit k = Button.bitAt c.isHeld k := by
  rcases Nat.lt_or_ge k 8 with hk | hk
  · have hbyte := forall_byte (P := fun v => ∀ k : Fin 8,
      (Controller.latch ⟨v, 0⟩).shift.toNat.testBit k = Button.bitAt (Controller.isHeld ⟨v, 0⟩) k)
      (by decide +kernel) c.held
    exact hbyte ⟨k, hk⟩
  · have hnone : Button.all[k]? = none := List.getElem?_eq_none hk
    rw [Button.bitAt, hnone]
    refine Nat.testBit_lt_two_pow ?_
    exact Nat.lt_of_lt_of_le c.latch.shift.toNat_lt (Nat.pow_le_pow_right (by decide) hk)

/-- What is handed out is the lowest bit. -/
theorem shiftOut_fst (c : Controller) : c.shiftOut.1 = (c.shift.toNat.testBit 0).toUInt8 :=
  forall_byte (P := fun v => v &&& 0x01 = (v.toNat.testBit 0).toUInt8) (by decide +kernel) c.shift

/-- A read shifts every bit one place down. -/
theorem testBit_shiftOut (c : Controller) (k : Nat) :
    c.shiftOut.2.shift.toNat.testBit k = c.shift.toNat.testBit (k + 1) := by
  show (c.shift >>> 1).toNat.testBit k = _
  rw [UInt8.toNat_shiftRight, Nat.testBit_shiftRight, Nat.add_comm]
  rfl

end Controller

/-! ## What has happened -/

/-- The sockets, each with a serial line of its own. -/
inductive Socket where
  | first | second
  deriving DecidableEq, Repr

namespace Socket

/-- The address at which the line of a socket is read. -/
def addr : Socket → UInt16
  | first => 0x4016
  | second => 0x4017

/-- The number of a socket. -/
def number : Socket → Nat
  | first => 0
  | second => 1

end Socket

namespace Controllers

/-- What can be done to the controllers: a write to `$4016`, a read of either line, and a press or a
    release of a button. -/
inductive Act where
  | write (data : UInt8)
  | read (socket : Socket)
  | setButton (socket : Socket) (button : Button) (pressed : Bool)
  deriving DecidableEq, Repr

/-- Does an act. -/
def perform (p : Controllers) : Act → Controllers
  | .write data => p.write data
  | .read socket => (p.read socket.addr).2
  | .setButton socket button pressed =>
    (p.modify? socket.number (·.setButton button pressed)).getD p

/-- What was done, the latest act first. -/
abbrev Past := List Act

/-- The controllers after a past that began with no button held and the strobe line low. -/
def after (past : Past) : Controllers := past.foldr (fun act p => p.perform act) {}

/-- What a read of a line answers after a past. -/
def answer (past : Past) (socket : Socket) : UInt8 := ((after past).read socket.addr).1

namespace Past

/-- Whether the strobe line is high: bit 0 of the latest write, and low if there was none. -/
def strobe : Past → Bool
  | [] => false
  | .write data :: _ => data &&& 0x01 != 0
  | _ :: past => strobe past

/-- Whether a button is held: what it was last set to, and released if it never was. -/
def held (socket : Socket) (button : Button) : Past → Bool
  | [] => false
  | .setButton s x pressed :: past =>
    if s = socket ∧ x = button then pressed else held socket button past
  | _ :: past => held socket button past

/-- Whether an act makes the controllers copy their buttons: a write with bit 0 set, and a read of
    either line while the strobe line is high. -/
def copies (past : Past) : Act → Bool
  | .write data => data &&& 0x01 != 0
  | .read _ => strobe past
  | .setButton .. => false

/-- What had happened when the buttons were last copied, if they ever were. -/
def lastCopy : Past → Option Past
  | [] => none
  | act :: past => if copies past act then some past else lastCopy past

/-- How often a line was read since the buttons were last copied, a read that copied them included. -/
def readsSince (socket : Socket) : Past → Nat
  | [] => 0
  | act :: past =>
    (if act = .read socket then 1 else 0) + if copies past act then 0 else readsSince socket past

/-- Bit `k` of those that a line has still to give: of the buttons as they were last copied, the one `k`
    places after those already read. -/
def pending (past : Past) (socket : Socket) (k : Nat) : Bool :=
  (lastCopy past).any fun before =>
    Button.bitAt (held socket · before) (readsSince socket past + k)

variable {past : Past}

/-- After an act that copies, the buttons held then are what is to come. -/
theorem pending_of_copies (act : Act) (h : copies past act = true) (socket : Socket) (k : Nat) :
    pending (act :: past) socket k =
      Button.bitAt (held socket · past) ((if act = .read socket then 1 else 0) + k) := by
  simp only [pending, lastCopy, readsSince, h, if_true, Option.any_some, Nat.add_zero]

/-- After any other act what was to come still is, but for a bit that is read. -/
theorem pending_of_not_copies (act : Act) (h : copies past act = false) (socket : Socket) (k : Nat) :
    pending (act :: past) socket k =
      pending past socket ((if act = .read socket then 1 else 0) + k) := by
  simp only [pending, lastCopy, readsSince, h, Bool.false_eq_true, if_false]
  congr 1
  funext before
  congr 1
  omega

end Past

/-! ## Every register -/

/-- The controller in a socket. -/
def inSocket (p : Controllers) : Socket → Controller
  | .first => p.first
  | .second => p.second

/-- The controllers as a read finds them: with their buttons copied, if the strobe line is high. -/
def polled (p : Controllers) : Controllers := if p.strobe then p.latch else p

theorem inSocket_latch (p : Controllers) (socket : Socket) :
    p.latch.inSocket socket = (p.inSocket socket).latch := by
  cases socket <;> rfl

/-- A read gives the first bit of its own line. -/
theorem read_fst (p : Controllers) (socket : Socket) :
    (p.read socket.addr).1 = (p.polled.inSocket socket).shiftOut.1 := by
  cases socket <;> rfl

/-- And it shifts no other line. -/
theorem inSocket_read (p : Controllers) (socket other : Socket) :
    (p.read socket.addr).2.inSocket other =
      if socket = other then (p.polled.inSocket other).shiftOut.2 else p.polled.inSocket other := by
  cases socket <;> cases other <;> rfl

theorem strobe_polled (p : Controllers) : p.polled.strobe = p.strobe := by
  unfold polled
  split <;> rfl

/-- A read leaves the strobe alone. -/
theorem strobe_read (p : Controllers) (socket : Socket) :
    (p.read socket.addr).2.strobe = p.strobe := by
  cases socket <;> exact p.strobe_polled

/-- A button is pressed on one controller only. -/
theorem inSocket_setButton (p : Controllers) (socket other : Socket) (button : Button) (pressed : Bool) :
    (p.perform (.setButton socket button pressed)).inSocket other =
      if socket = other then (p.inSocket other).setButton button pressed else p.inSocket other := by
  cases socket <;> cases other <;> rfl

/-- What the controllers show and what their registers still hold is told by the past. -/
structure Follows (p : Controllers) (past : Past) : Prop where
  strobe : p.strobe = Past.strobe past
  held : ∀ socket button, (p.inSocket socket).isHeld button = Past.held socket button past
  shift : ∀ socket k, (p.inSocket socket).shift.toNat.testBit k = Past.pending past socket k

namespace Follows

variable {p : Controllers} {past : Past}

/-- New controllers have no past. -/
theorem new : Follows {} [] := by
  refine ⟨rfl, ?_, ?_⟩
  · intro socket button
    cases socket <;> cases button <;> rfl
  · intro socket k
    cases socket <;> exact Nat.zero_testBit k

/-- A copy loads the buttons held. -/
theorem latch (h : Follows p past) (socket : Socket) (k : Nat) :
    (p.latch.inSocket socket).shift.toNat.testBit k = Button.bitAt (Past.held socket · past) k := by
  rw [inSocket_latch, Controller.testBit_latch, funext (h.held socket)]

/-- A button is held if the past says so. -/
theorem polled_held (h : Follows p past) (socket : Socket) (button : Button) :
    (p.polled.inSocket socket).isHeld button = Past.held socket button past := by
  rw [← h.held]
  unfold polled
  split
  · rw [inSocket_latch]
    rfl
  · rfl

/-- What a line is about to give is what the past says. -/
theorem polled_shift (h : Follows p past) (socket : Socket) (k : Nat) :
    (p.polled.inSocket socket).shift.toNat.testBit k =
      if Past.strobe past then Button.bitAt (Past.held socket · past) k
      else Past.pending past socket k := by
  unfold polled
  rw [h.strobe]
  split
  · exact h.latch socket k
  · exact h.shift socket k

/-- A write copies the buttons or leaves the registers alone. -/
theorem write (h : Follows p past) (data : UInt8) : Follows (p.write data) (.write data :: past) := by
  have hline (level : Bool) (socket : Socket) :
      { p with strobe := level }.inSocket socket = p.inSocket socket := by cases socket <;> rfl
  unfold Controllers.write
  dsimp only
  split
  · next hhigh =>
    refine ⟨rfl, ?_, ?_⟩
    · intro socket button
      rw [inSocket_latch, hline]
      exact h.held socket button
    · intro socket k
      rw [Past.pending_of_copies (.write data) hhigh, if_neg Act.noConfusion, Nat.zero_add,
        inSocket_latch, hline, ← inSocket_latch]
      exact h.latch socket k
  · next hlow =>
    refine ⟨rfl, ?_, ?_⟩
    · intro socket button
      rw [hline]
      exact h.held socket button
    · intro socket k
      rw [Past.pending_of_not_copies (.write data) (Bool.eq_false_iff.mpr hlow),
        if_neg Act.noConfusion, Nat.zero_add, hline]
      exact h.shift socket k

/-- A read takes one bit out of the register of its line. -/
theorem read (h : Follows p past) (socket : Socket) :
    Follows (p.read socket.addr).2 (.read socket :: past) := by
  refine ⟨?_, ?_, ?_⟩
  · exact (p.strobe_read socket).trans h.strobe
  · intro other button
    rw [inSocket_read]
    split
    · exact h.polled_held other button
    · exact h.polled_held other button
  · intro other k
    -- the place in the copy that is read next
    have hplace : Past.pending (.read socket :: past) other k =
        if Past.strobe past then
          Button.bitAt (Past.held other · past) ((if socket = other then 1 else 0) + k)
        else Past.pending past other ((if socket = other then 1 else 0) + k) := by
      split
      · next hhigh =>
        rw [Past.pending_of_copies (.read socket) hhigh]
        simp only [Act.read.injEq]
      · next hlow =>
        rw [Past.pending_of_not_copies (.read socket) (Bool.eq_false_iff.mpr hlow)]
        simp only [Act.read.injEq]
    rw [inSocket_read, hplace, ← h.polled_shift]
    split
    · rw [Controller.testBit_shiftOut, Nat.add_comm]
    · rw [Nat.zero_add]

/-- A press or a release is not seen by the registers. -/
theorem setButton (h : Follows p past) (socket : Socket) (button : Button) (pressed : Bool) :
    Follows (p.perform (.setButton socket button pressed))
      (.setButton socket button pressed :: past) := by
  refine ⟨?_, ?_, ?_⟩
  · cases socket <;> exact h.strobe
  · intro other x
    rw [inSocket_setButton]
    unfold Past.held
    split
    · next hs =>
      rw [Controller.isHeld_setButton, h.held]
      simp only [hs, true_and]
    · next hs =>
      rw [if_neg fun hx => hs hx.1]
      exact h.held other x
  · intro other k
    rw [Past.pending_of_not_copies (.setButton socket button pressed) rfl, if_neg Act.noConfusion,
      Nat.zero_add, ← h.shift, inSocket_setButton]
    split
    · rfl
    · rfl

/-- Every act keeps the lines in step with the past. -/
theorem perform (h : Follows p past) (act : Act) : Follows (p.perform act) (act :: past) := by
  cases act with
  | write data => exact h.write data
  | read socket => exact h.read socket
  | setButton socket button pressed => exact h.setButton socket button pressed

end Follows

/-- So the lines are in step after any acts. -/
theorem follows_after (past : Past) : Follows (after past) past := by
  induction past with
  | nil => exact .new
  | cons act past ih => exact ih.perform act

/-- A read answers the button A as it is while the strobe line is high, and else the next bit of the
    last copy. -/
theorem answer_eq (past : Past) (socket : Socket) : answer past socket =
    (if Past.strobe past then Past.held socket .a past else Past.pending past socket 0).toUInt8 := by
  have hfirst : Button.bitAt (Past.held socket · past) 0 = Past.held socket .a past :=
    Bool.and_true _
  rw [answer, read_fst, Controller.shiftOut_fst, (follows_after past).polled_shift, hfirst]

/-! ## What is not seen -/

/-- A press or a release, or a read of another line. -/
def Act.unseenBy (socket : Socket) : Act → Bool
  | .write _ => false
  | .read other => other ≠ socket
  | .setButton .. => true

/-- While the strobe line is low, what is not seen by a line leaves it and the strobe line as they are. -/
theorem pending_of_unseen {past more : Past} {socket : Socket} (hlow : Past.strobe past = false)
    (hmore : ∀ act ∈ more, act.unseenBy socket = true) :
    Past.strobe (more ++ past) = false ∧
      ∀ k, Past.pending (more ++ past) socket k = Past.pending past socket k := by
  induction more with
  | nil => exact ⟨hlow, fun _ => rfl⟩
  | cons act more ih =>
    obtain ⟨ihlow, ihpending⟩ := ih fun a ha => hmore a (List.mem_cons_of_mem act ha)
    have hact := hmore act List.mem_cons_self
    cases act with
    | write data => cases hact
    | read other =>
      refine ⟨ihlow, fun k => ?_⟩
      have hne : Act.read other ≠ .read socket := fun he =>
        of_decide_eq_true hact (Act.read.inj he)
      rw [List.cons_append, Past.pending_of_not_copies (.read other) ihlow, if_neg hne, Nat.zero_add,
        ihpending]
    | setButton s button pressed =>
      refine ⟨ihlow, fun k => ?_⟩
      rw [List.cons_append, Past.pending_of_not_copies (.setButton s button pressed) rfl,
        if_neg Act.noConfusion, Nat.zero_add, ihpending]

/-- What a read of a line answers, after any past.  While the strobe line is high it is the button A as it
    is held.  While it is low it is the next bit of a copy of the buttons: of those held when they were
    last copied, opposite directions held together being released, in the order A, B, Select, Start, Up,
    Down, Left, Right with zeros after them, the one with as many before it as the line was read since
    then; and zero if they never were copied.  Presses, and reads of the other line, do not change that
    answer. -/
theorem serial_protocol (past : Past) (socket : Socket) :
    (Past.strobe past = true → answer past socket = (Past.held socket .a past).toUInt8) ∧
    (Past.strobe past = false →
      answer past socket = ((Past.lastCopy past).any fun before =>
        Button.bitAt (Past.held socket · before) (Past.readsSince socket past)).toUInt8 ∧
      ∀ more : Past, (∀ act ∈ more, act.unseenBy socket = true) →
        answer (more ++ past) socket = answer past socket) := by
  refine ⟨fun hhigh => ?_, fun hlow => ⟨?_, fun more hmore => ?_⟩⟩
  · rw [answer_eq, if_pos hhigh]
  · rw [answer_eq, if_neg (Bool.eq_false_iff.mp hlow)]
    rfl
  · obtain ⟨hstill, hpending⟩ := pending_of_unseen hlow hmore
    rw [answer_eq, answer_eq, if_neg (Bool.eq_false_iff.mp hstill), if_neg (Bool.eq_false_iff.mp hlow),
      hpending]

/-- Three buttons of the first controller held, two of them opposite, and two of its bits read. -/
def twiceRead : Past :=
  [.read .first, .read .first, .write 0, .write 1, .setButton .first .down true,
    .setButton .first .up true, .setButton .first .select true]

/-- Select is the third bit, whatever is read of the other line and though it was let go of since; and
    once the strobe line is high again, A is answered. -/
theorem serial_protocol_twiceRead :
    Past.strobe twiceRead = false ∧ answer twiceRead .first = 1 ∧
      answer (.read .second :: .setButton .first .select false :: twiceRead) .first = 1 ∧
      answer (.setButton .first .a true :: .write 1 :: twiceRead) .first = 1 := by
  obtain ⟨hcopy, hunseen⟩ := (serial_protocol twiceRead .first).2 rfl
  have hselect : answer twiceRead .first = 1 := hcopy.trans (by decide)
  have hlater := hunseen [.read .second, .setButton .first .select false] (by decide)
  have hhigh := (serial_protocol (.setButton .first .a true :: .write 1 :: twiceRead) .first).1 rfl
  exact ⟨rfl, hselect, hlater.trans hselect, hhigh.trans (by decide)⟩

/-- Nine reads after a pulse on the strobe line, with A, Select and Left held. -/
example : (List.range 9).map (fun n => answer (List.replicate n (.read .first) ++
    [.write 0, .write 1, .setButton .first .left true, .setButton .first .select true,
      .setButton .first .a true]) .first) = [1, 0, 1, 0, 0, 0, 1, 0, 0] := by decide

end Controllers

end Famicom
