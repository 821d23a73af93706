/-
  The processor on its board, and who has the bus in a cycle.

  The delta modulation channel comes first: a byte it asks for costs the processor the cycle.  A
  sprite transfer comes next.  It waits for a cycle in which the processor reads, and then has the bus
  for 512 cycles, reading and writing in turn.  The processor has what is left.

  `Machine` is the system the clock drives: `cpuCycle` and `dot` are its two turns.
-/
import Famicom.Clock
import Famicom.Console.Mainboard
import Famicom.Processor.Tick

namespace Famicom

/-- A transfer of a page to sprite memory. -/
structure SpriteTransfer where
  page : UInt8
  /-- Cycles it has had the bus for. -/
  cycles : Nat := 0
  /-- The processor has let it have the bus. -/
  started : Bool := false
  /-- The byte read last. -/
  data : UInt8 := 0
  deriving DecidableEq, Repr

namespace SpriteTransfer

/-- Cycles of a whole transfer: a read and a write for each byte of a page. -/
def length : Nat := 512

/-- Where the byte under way is read. -/
def source (t : SpriteTransfer) : UInt16 :=
  (t.page.toUInt16 <<< (8 : UInt16)) ||| UInt16.ofNat (t.cycles / 2)

end SpriteTransfer

/-- Why a machine cannot go on. -/
inductive MachineFault where
  /-- The sound unit has no room for its samples. -/
  | sound (e : ResampleError)
  /-- The picture unit stands still. -/
  | picture (e : PictureFault)
  deriving DecidableEq, Repr

/-- The processor, its board, the sprite transfer under way and the pictures finished so far. -/
structure Machine (γ : Type) where
  cpu : Processor
  board : Mainboard γ
  transfer : Option SpriteTransfer
  pictures : Nat

namespace Machine

variable {γ : Type}

/-- A machine at power-on: the processor is to start at the reset vector. -/
def new (board : Mainboard γ) : Machine γ :=
  { cpu := Processor.new.requestReset, board, transfer := none, pictures := 0 }

/-- Back to power-on.  The sound unit's refusal, if there is one, is passed on. -/
def reset (m : Machine γ) : Except ResampleError Unit × Machine γ :=
  let (result, board) := m.board.reset
  (result, new board)

/-- Nothing is under way: the processor is between two instructions and no sprites are copied. -/
def isSettled (m : Machine γ) : Bool := m.cpu.atBoundary && m.transfer.isNone

/-- Begins a requested transfer unless one is under way. -/
def beginTransfer (m : Machine γ) : Machine γ :=
  let { cpu, board, transfer, pictures } := m
  match transfer with
  | some t => { cpu, board, transfer := some t, pictures }
  | none =>
    let (page, board) := board.takeDma
    { cpu, board, transfer := page.map fun page => { page }, pictures }

/-- Raises the processor's interrupt line if the sound unit asks for it. -/
def raiseSoundIrq (m : Machine γ) : Machine γ :=
  if m.board.sound.irqPending then { m with cpu := m.cpu.requestIrq } else m

/-- Follows a dot: counts the pictures and passes interrupts on to the processor. -/
def afterDot [Cartridge γ] (m : Machine γ) : Machine γ :=
  let { cpu, board, transfer, pictures } := m
  let { ram, picture, sound, controllers, cartridge } := board
  let pictures := if picture.enteredVblank then pictures + 1 else pictures
  let (nmi, picture) := picture.takeNmi
  let (irq, cartridge) := Cartridge.takeIrq cartridge
  let cpu := if nmi then cpu.requestNmi else cpu
  let cpu := if irq then cpu.requestIrq else cpu
  { cpu, board := { ram, picture, sound, controllers, cartridge }, transfer, pictures }

variable [Cartridge γ]

/-- Reads the byte that the delta modulation channel asks for.  True if it does. -/
def serveSound (m : Machine γ) : Bool × Machine γ :=
  let { cpu, board, transfer, pictures } := m
  match board.onSound Sound.takeDmcRequest with
  | (none, board) => (false, { cpu, board, transfer, pictures })
  | (some addr, board) =>
    let (value, board) := board.read addr
    let board := { board with sound := board.sound.fillDmc value }
    (true, { cpu, board, transfer, pictures })

/-- The transfer's cycle: a read, then a write to the picture unit. -/
def transferCycle (m : Machine γ) (t : SpriteTransfer) : Machine γ :=
  let { cpu, board, pictures, .. } := m
  let (t, board) : SpriteTransfer × Mainboard γ :=
    if t.cycles % 2 = 0 then
      let (data, board) := board.read t.source
      ({ t with data }, board)
    else (t, board.write 0x2004 t.data)
  let t := { t with cycles := t.cycles + 1 }
  { cpu, board, transfer := if t.cycles < SpriteTransfer.length then some t else none, pictures }

/-- The processor's cycle.  A waiting transfer starts after a read. -/
def processorCycle (m : Machine γ) : Machine γ :=
  let { cpu, board, transfer, pictures } := m
  let (kind, cpu, board) := cpu.tick board
  let board := { board with cartridge := Cartridge.onCpuCycle board.cartridge kind }
  let transfer :=
    match kind with
    | .read => transfer.map fun t => { t with started := true }
    | .write => transfer
  { cpu, board, transfer, pictures }

/-- The cycle of whoever has the bus. -/
def busCycle (m : Machine γ) : Machine γ :=
  match m.transfer with
  | some t => if t.started then m.transferCycle t else m.processorCycle
  | none => m.processorCycle

/-- One processor cycle of the machine. -/
def cpuCycle (m : Machine γ) : Except MachineFault Unit × Machine γ :=
  let (stalled, m) := m.serveSound
  let { cpu, board, transfer, pictures } := m
  match board.onSound Sound.process with
  | (.error e, board) => (.error (.sound e), { cpu, board, transfer, pictures })
  | (.ok _, board) =>
    let m := raiseSoundIrq { cpu, board, transfer, pictures }
    (.ok (), if stalled then m else m.beginTransfer.busCycle)

/-- One dot of the machine. -/
def dot (m : Machine γ) : Except MachineFault Unit × Machine γ :=
  let { cpu, board, transfer, pictures } := m
  match board.dot with
  | (.error e, board) => (.error (.picture e), { cpu, board, transfer, pictures })
  | (.ok _, board) => (.ok (), afterDot { cpu, board, transfer, pictures })

instance : Clocked (Machine γ) MachineFault where
  cpuCycle := cpuCycle
  dot := dot

end Machine

end Famicom
