/-
  The resampler as it lies in memory: plain data, with every index looked at when it is used.

  `Plain` has the words, the counts and the slots of a resampler, but none of its proofs: nothing is known
  of how many samples wait, nor of how many slots there are.  Counts are words of 64 bits, and their sums
  go round without a word (`sum64`), that of the slots too: for the last eighteen counts of samples that
  there are, a new resampler has hardly a slot.  Each operation goes about its memory place by place, with
  an answer only if

  - every place that is read or written is there (`bump?`, `put?`, and the rows and taps of the kernel),
  - every window that is cut out, moved or filled is there as a whole (`window?`, `fill?`, `moveUp?`), and
  - no difference of counts is less than nothing (`sub?`).

  `none` is a place that is not there, where the program stops.  `Plain.Reachable` are the resamplers that
  calls lead to, from a new one on and with any arguments.
-/
import Famicom.Resampler.Basic

namespace Famicom.Resampler

/-- A resampler of which nothing is known. -/
structure Plain where
  capacity : Nat
  factor : UInt64
  offset : UInt64
  available : Nat
  level : Int32
  slots : List Int32
  deriving DecidableEq, Repr

/-- A sum of counts, in a word of 64 bits. -/
def sum64 (a b : Nat) : Nat := (a + b) % 0x10000000000000000

/-- A resampler without its proofs. -/
def plain (r : Resampler) : Plain :=
  ⟨r.capacity, r.factor, r.offset, r.available, r.level, r.slots.toList⟩

/-! ## Places -/

section

variable {α : Type}

/-- The difference of two counts, if it is none less than nothing. -/
def sub? (a b : Nat) : Option Nat := if b ≤ a then some (a - b) else none

/-- Writes to a place, if it is there. -/
def put? (cells : List α) (i : Nat) (x : α) : Option (List α) :=
  if i < cells.length then some (cells.set i x) else none

/-- Adds to what stands in a place, if it is there. -/
def bump? (cells : List Int32) (i : Nat) (x : Int32) : Option (List Int32) := do
  put? cells i ((← cells[i]?) + x)

/-- So many places from the given one on, if all of them are there. -/
def window? (cells : List α) (start length : Nat) : Option (List α) :=
  if start + length ≤ cells.length then some ((cells.drop start).take length) else none

/-- Writes values to the places from the given one on, if all of them are there. -/
def fill? (cells : List α) (start : Nat) (values : List α) : Option (List α) :=
  if start + values.length ≤ cells.length then
    some (cells.take start ++ values ++ cells.drop (start + values.length))
  else none

/-- Moves so many places to the front, and fills as many as they were moved by behind them. -/
def moveUp? (cells : List α) (count length : Nat) (filler : α) : Option (List α) := do
  let cells ← fill? cells 0 (← window? cells count length)
  fill? cells length (.replicate count filler)

end

namespace Plain

/-! ## Operations that go to no place -/

/-- An empty resampler for the given number of samples, if there can be as many slots as are counted
    for them. -/
def new (capacity : UInt64) : Option (Except ResampleError Plain) :=
  let slots := sum64 capacity.toNat extraSlots
  if capacity = 0 then some (.error .noCapacity)
  else if slots ≤ maxSlots then
    some (.ok ⟨capacity.toNat, 0x100000000, 0x80000000, 0, 0, .replicate slots 0⟩)
  else none

/-- Takes out everything. -/
def clear (p : Plain) : Plain :=
  { p with offset := p.factor / 2, available := 0, level := 0, slots := .replicate p.slots.length 0 }

/-- Sets the rates of clocks and of samples. -/
def setRates (p : Plain) (clockRate sampleRate : UInt32) : Except ResampleError Plain :=
  if clockRate = 0 ∨ sampleRate = 0 then .error (.zeroRate clockRate sampleRate)
  else
    match unitsPerClock? clockRate.toNat sampleRate.toNat with
    | some units => .ok { p with factor := UInt64.ofNat units }
    | none => .error .ratioTooLarge

/-- The time so many clocks after the last frame's end, in units. -/
def timeAt (p : Plain) (clocks : UInt32) : UInt64 := clocks.toUInt64 * p.factor + p.offset

/-- The fewest clocks after which so many more samples can be read. -/
def clocksNeeded (p : Plain) (samples : UInt64) : Except ResampleError Nat :=
  if p.capacity < sum64 p.available samples.toNat then
    .error (.bufferFull samples.toNat (p.capacity - p.available) p.capacity)
  else
    let needed := samples * 0x10000000000000
    if needed < p.offset then .ok 0
    else .ok (min ((needed - p.offset + p.factor - 1) / p.factor).toNat 0xFFFFFFFF)

/-- Closes a stretch of time. -/
def endFrame (p : Plain) (clocks : UInt32) : Except ResampleError Plain :=
  let time := p.timeAt clocks
  let available := sum64 p.available (time >>> (52 : UInt64)).toNat
  if p.capacity < available then .error .overflow
  else .ok { p with available, offset := time &&& 0xFFFFFFFFFFFFF }

/-! ## Steps -/

/-- The upper half of the time so many clocks on. -/
def fixedTime (p : Plain) (clocks : UInt32) : UInt32 :=
  (p.timeAt clocks >>> (32 : UInt64)).toUInt32

/-- The slot in which a step so many clocks on begins. -/
def slotAt (p : Plain) (clocks : UInt32) : Nat :=
  sum64 p.available (p.fixedTime clocks >>> (20 : UInt32)).toNat

/-- The rows of the kernel that a step is made of: those of its position and of the next one, and those
    of the mirrored positions. -/
structure Rows where
  first : Vector Int32 8
  firstNext : Vector Int32 8
  second : Vector Int32 8
  secondNext : Vector Int32 8

/-- The rows for a position, if the kernel has them all. -/
def rows? (phase : Nat) : Option Rows := do
  let first ← kernel[phase]?
  let firstNext ← kernel[phase + 1]?
  let mirrored ← sub? 32 phase
  let second ← kernel[mirrored]?
  let secondNext ← kernel[← sub? mirrored 1]?
  return { first, firstNext, second, secondNext }

/-- Adds a tap of the first half of a step, and its counterpart in the second half, which is read
    backwards. -/
def addPair? (rows : Rows) (earlier later : Int32) (i : Nat) (slots : List Int32) (k : Nat) :
    Option (List Int32) := do
  let slots ← bump? slots (i + k) ((← rows.first[k]?) * earlier + (← rows.firstNext[k]?) * later)
  let back ← sub? 7 k
  bump? slots (i + 8 + k) ((← rows.second[back]?) * earlier + (← rows.secondNext[back]?) * later)

/-- Adds a step of the level: a window of sixteen slots is cut out and gone through in pairs. -/
def addStep? (p : Plain) (clocks : UInt32) (delta : Int32) : Option (Except ResampleError Plain) :=
  let fixed := p.fixedTime clocks
  let i := p.slotAt clocks
  if sum64 p.capacity 2 < i then some (.error .overflow)
  else do
    let later := (delta * (fixed &&& 0x7FFF).toInt32) >>> (15 : Int32)
    let rows ← rows? (phaseAt fixed)
    let _ ← window? p.slots i 16
    let slots ← (List.range 8).foldlM (addPair? rows (delta - later) later i) p.slots
    return .ok { p with slots }

/-- Adds a step of the level to the two samples around it. -/
def addStepFast? (p : Plain) (clocks : UInt32) (delta : Int32) :
    Option (Except ResampleError Plain) :=
  let i := p.slotAt clocks
  if sum64 p.capacity 2 < i then some (.error .overflow)
  else do
    let later := delta * ((p.fixedTime clocks >>> (5 : UInt32)) &&& 0x7FFF).toInt32
    let slots ← bump? p.slots (i + 7) (delta * 0x8000 - later)
    let slots ← bump? slots (i + 8) later
    return .ok { p with slots }

/-! ## Reading -/

/-- Takes out the first slots: those after them are moved to the front and zeros put behind. -/
def drop? (p : Plain) (count : Nat) : Option Plain := do
  let remain ← sub? (sum64 p.available extraSlots) count
  let available ← sub? p.available count
  let slots ← moveUp? p.slots count remain 0
  return { p with available, slots }

/-- Writes one sample to the caller's place, and goes on to the next. -/
def readSlot? (stride : Nat) : List Int × Nat × Int32 → Int32 → Option (List Int × Nat × Int32)
  | (out, i, level), slot => do
    let out ← put? out i (outputOf level).toInt
    return (out, i + stride, integrate level slot)

/-- Every place of the caller's, or every second one for stereo. -/
def stride (stereo : Bool) : Nat := if stereo then 2 else 1

/-- How many places of the caller's there are from the given one on. -/
def room (size start : Nat) (stereo : Bool) : Nat :=
  (size - start + stride stereo - 1) / stride stereo

/-- Reads up to `count` samples into places of the caller's, from the given one on; also how many. -/
def readInto? (p : Plain) (out : List Int) (start count : Nat) (stereo : Bool) :
    Option (Nat × List Int × Plain) :=
  let n := min (min count p.available) (room out.length start stereo)
  if n = 0 then some (0, out, p)
  else do
    let (out, _, level) ← (← window? p.slots 0 n).foldlM (readSlot? (stride stereo))
      (out, start, p.level)
    return (n, out, ← { p with level }.drop? n)

/-! ## Calls -/

/-- What calls lead to, from a new resampler for so many samples on. -/
inductive Reachable (capacity : UInt64) : Plain → Prop where
  | new {p : Plain} (hnew : Plain.new capacity = some (.ok p)) : Reachable capacity p
  | setRates {p q : Plain} {clockRate sampleRate : UInt32} (h : Reachable capacity p)
      (hset : p.setRates clockRate sampleRate = .ok q) : Reachable capacity q
  | clear {p : Plain} (h : Reachable capacity p) : Reachable capacity p.clear
  | endFrame {p q : Plain} {clocks : UInt32} (h : Reachable capacity p)
      (hend : p.endFrame clocks = .ok q) : Reachable capacity q
  | addStep {p q : Plain} {clocks : UInt32} {delta : Int32} (h : Reachable capacity p)
      (hadd : p.addStep? clocks delta = some (.ok q)) : Reachable capacity q
  | addStepFast {p q : Plain} {clocks : UInt32} {delta : Int32} (h : Reachable capacity p)
      (hadd : p.addStepFast? clocks delta = some (.ok q)) : Reachable capacity q
  | readInto {p q : Plain} {out read : List Int} {start count n : Nat} {stereo : Bool}
      (h : Reachable capacity p) (hread : p.readInto? out start count stereo = some (n, read, q)) :
      Reachable capacity q

end Plain

end Famicom.Resampler
