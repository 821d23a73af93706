/-
  The resampler: steps of a level at clock times in, evenly spaced output samples out.

  Time is counted in units of 2^-52 output samples.  A step is added to sixteen slots of a buffer of
  differences (`addStep`), or to two where quality does not matter (`addStepFast`); closing a stretch
  of time (`endFrame`) makes the samples in it readable; reading sums the differences up, with a slow
  leak that takes out any constant level.  A buffer holds a fixed number of samples, and what does not
  fit is refused before anything changes.

  Here a resampler has all of its slots.  `Famicom.Resampler.Plain` is the resampler as it lies in
  memory, with counts that go round in words of 64 bits and with every place looked at when it is used.

  Main statements: a refused operation is an error value, so the resampler of its caller is as it was;
  the slots that `addStep` reaches always exist, which the length proof of `addTaps` carries.
-/
import Famicom.Resampler.Kernel
import Famicom.Resampler.Ratio

namespace Famicom

/-- Why the resampler refuses an operation. -/
inductive ResampleError where
  | noCapacity
  | zeroRate (clockRate sampleRate : UInt32)
  | ratioTooLarge
  | bufferFull (requested available capacity : Nat)
  | overflow
  /-- There cannot be as many slots.  This is no answer: the program stops. -/
  | noMemory
  deriving DecidableEq, Repr

/-- The text of a refusal. -/
def ResampleError.message : ResampleError → String
  | noCapacity => "blip buffer capacity must be greater than zero"
  | zeroRate clockRate sampleRate =>
    "invalid resampling rates: clock rate " ++ toString clockRate.toNat ++ ", sample rate " ++
      toString sampleRate.toNat
  | ratioTooLarge => "sample rate exceeds the representable ratio to the clock rate"
  | bufferFull requested available capacity =>
    "requested " ++ toString requested ++ " samples but only " ++ toString available ++ " of " ++
      toString capacity ++ " slots are free"
  | overflow => "blip buffer overflow: samples must be read before more time is added"
  | noMemory => "capacity overflow"

/-- Slots beyond the capacity: a step's sixteen, and two samples for steps after the last. -/
def Resampler.extraSlots : Nat := 18

/-- The most slots that there can be: they have four bytes each, and 2^63 are too many bytes. -/
def Resampler.maxSlots : Nat := 0x1FFFFFFFFFFFFFFF

/-- The resampler. -/
structure Resampler where
  /-- How many samples may wait to be read. -/
  capacity : Nat
  /-- Units of time in one clock. -/
  factor : UInt64
  /-- The part of a sample that has passed since the last whole one. -/
  offset : UInt64
  /-- How many samples wait to be read. -/
  available : Nat
  available_le : available ≤ capacity
  /-- The sum of all differences read so far, leaked. -/
  level : Int32
  /-- Differences between samples, the next one to be read first. -/
  slots : Vector Int32 (capacity + Resampler.extraSlots)

namespace Resampler

/-- Takes out everything; half a sample is taken to have passed. -/
def clear (r : Resampler) : Resampler :=
  { r with offset := r.factor / 2, available := 0, available_le := Nat.zero_le _, level := 0,
           slots := .replicate _ 0 }

/-- An empty resampler for the given number of samples, at the highest ratio of clocks to samples, if
    there can be the slots for them. -/
def new (capacity : Nat) : Except ResampleError Resampler :=
  if capacity = 0 then .error .noCapacity
  else if capacity + extraSlots ≤ maxSlots then
    .ok { capacity, factor := 0x100000000, offset := 0x80000000, available := 0,
          available_le := Nat.zero_le _, level := 0, slots := .replicate _ 0 }
  else .error .noMemory

/-- Sets the rates of clocks and of samples. -/
def setRates (r : Resampler) (clockRate sampleRate : UInt32) : Except ResampleError Resampler :=
  if clockRate = 0 ∨ sampleRate = 0 then .error (.zeroRate clockRate sampleRate)
  else
    match unitsPerClock? clockRate.toNat sampleRate.toNat with
    | some units => .ok { r with factor := UInt64.ofNat units }
    | none => .error .ratioTooLarge

/-- The time so many clocks after the last frame's end, in units. -/
def timeAt (r : Resampler) (clocks : UInt32) : UInt64 := clocks.toUInt64 * r.factor + r.offset

/-- Closes a stretch of time: the samples in it can be read. -/
def endFrame (r : Resampler) (clocks : UInt32) : Except ResampleError Resampler :=
  let time := r.timeAt clocks
  let available := r.available + (time >>> (52 : UInt64)).toNat
  if h : available ≤ r.capacity then
    .ok { r with available, available_le := h, offset := time &&& 0xFFFFFFFFFFFFF }
  else .error .overflow

/-- Adds taps to the slots from the given one on. -/
def addTaps {n : Nat} (slots : Vector Int32 n) (i : Nat) :
    (taps : List Int32) → i + taps.length ≤ n → Vector Int32 n
  | [], _ => slots
  | t :: ts, h =>
    have hi : i < n := by simp only [List.length_cons] at h; omega
    addTaps (slots.set i (slots[i] + t)) (i + 1) ts (by simp only [List.length_cons] at h; omega)

/-- The upper half of the time so many clocks on: samples above twenty bits of fraction. -/
def fixedTime (r : Resampler) (clocks : UInt32) : UInt32 :=
  (r.timeAt clocks >>> (32 : UInt64)).toUInt32

/-- The slot in which a step at this time begins. -/
def slotAt (r : Resampler) (fixed : UInt32) : Nat :=
  r.available + (fixed >>> (20 : UInt32)).toNat

/-- The position of a step between two samples, in 32 parts. -/
def phaseAt (fixed : UInt32) : Nat := (fixed >>> (15 : UInt32)).toNat % 32

/-- The taps of a step, interpolated between the two positions nearest to its own. -/
def stepTaps (fixed : UInt32) (delta : Int32) : List Int32 :=
  let weight := (fixed &&& 0x7FFF).toInt32
  let later := (delta * weight) >>> (15 : Int32)
  let earlier := delta - later
  have h : phaseAt fixed < 32 := Nat.mod_lt _ (by decide)
  List.zipWith (fun a b => a * earlier + b * later)
    (kernelTaps (phaseAt fixed) (by omega)) (kernelTaps (phaseAt fixed + 1) (by omega))

/-- The taps of a step that is only interpolated between two samples. -/
def fastTaps (fixed : UInt32) (delta : Int32) : List Int32 :=
  let weight := ((fixed >>> (5 : UInt32)) &&& 0x7FFF).toInt32
  [delta * 0x8000 - delta * weight, delta * weight]

/-- A step has sixteen taps. -/
theorem length_stepTaps (fixed : UInt32) (delta : Int32) : (stepTaps fixed delta).length = 16 := by
  simp [stepTaps, length_kernelTaps]

/-- A fast step has two. -/
theorem length_fastTaps (fixed : UInt32) (delta : Int32) : (fastTaps fixed delta).length = 2 := rfl

/-- Adds a step of the level, at most two samples past the capacity. -/
def addStep (r : Resampler) (clocks : UInt32) (delta : Int32) : Except ResampleError Resampler :=
  let fixed := r.fixedTime clocks
  if h : r.slotAt fixed ≤ r.capacity + 2 then
    .ok { r with
      slots := addTaps r.slots (r.slotAt fixed) (stepTaps fixed delta) (by
        simp only [length_stepTaps, extraSlots]; omega) }
  else .error .overflow

/-- Adds a step of the level to the two samples around it. -/
def addStepFast (r : Resampler) (clocks : UInt32) (delta : Int32) :
    Except ResampleError Resampler :=
  let fixed := r.fixedTime clocks
  if h : r.slotAt fixed ≤ r.capacity + 2 then
    .ok { r with
      slots := addTaps r.slots (r.slotAt fixed + 7) (fastTaps fixed delta) (by
        simp only [length_fastTaps, extraSlots]; omega) }
  else .error .overflow

/-- The output for a level: whole units of it, within sixteen bits. -/
def outputOf (level : Int32) : Int32 :=
  let s := level >>> (15 : Int32)
  if s < -32768 then -32768 else if 32767 < s then 32767 else s

/-- Reads one sample: the level goes on by a difference and leaks by the 512th part of what it
    showed. -/
def integrate (level slot : Int32) : Int32 :=
  level + slot - (outputOf level <<< (6 : Int32))

/-- The samples for a row of differences, and the level after them. -/
def sumUp (level : Int32) (slots : Array Int32) : Array Int × Int32 :=
  slots.foldl (fun (out, level) slot => (out.push (outputOf level).toInt, integrate level slot))
    (Array.mkEmpty slots.size, level)

/-- Takes out the first slots.  Those that may hold differences move up, and zeros follow them. -/
def dropSlots (r : Resampler) (count : Nat) (h : count ≤ r.available) : Resampler :=
  have hc := r.available_le
  { r with
    available := r.available - count
    available_le := by omega
    slots := .ofFn fun j : Fin (r.capacity + extraSlots) =>
      if hj : j.val + count < r.available + extraSlots then r.slots[j.val + count]
      else if j.val < r.available + extraSlots then 0
      else r.slots[j.val] }

/-- Reads up to `count` samples, in units of 1/32768. -/
def read (r : Resampler) (count : Nat) : Array Int × Resampler :=
  let n := min count r.available
  if n = 0 then (#[], r)
  else
    let (samples, level) := sumUp r.level (r.slots.toArray.extract 0 n)
    (samples, { r.dropSlots n (Nat.min_le_right ..) with level })

/-- Writes values to every `stride`th place from the given one on. -/
def place (out : Array Int) (start stride : Nat) (values : Array Int) : Array Int :=
  (values.foldl (fun (out, i) v => (out.setIfInBounds i v, i + stride)) (out, start)).1

/-- Reads up to `count` samples into an array, from the given place on and, for stereo, into every
    second place; also how many were read, which is what the array, the samples waiting and `count`
    allow. -/
def readInto (r : Resampler) (out : Array Int) (start count : Nat) (stereo : Bool) :
    Nat × Array Int × Resampler :=
  let stride := if stereo then 2 else 1
  let room := (out.size - start + stride - 1) / stride
  let (samples, r) := r.read (min count room)
  (samples.size, place out start stride samples, r)

end Resampler

end Famicom
