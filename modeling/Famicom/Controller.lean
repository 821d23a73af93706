/-
  The two controllers and the serial lines they are read through.

  A controller shows its eight buttons; while the strobe line is high it copies them into a shift
  register, and each read of its line then hands out one bit, button A first.  Left with right and up
  with down cannot be pressed together on the pad itself, so a latch takes such a pair as released.
-/

namespace Famicom

/-- The buttons of a controller, in the order in which they are read out. -/
inductive Button where
  | a | b | select | start | up | down | left | right
  deriving DecidableEq, Repr

namespace Button

/-- Every button once, in the order in which they are read out. -/
def all : List Button := [.a, .b, .select, .start, .up, .down, .left, .right]

/-- The bit of a button in the byte that shows all of them. -/
def mask : Button → UInt8
  | .a => 0x01
  | .b => 0x02
  | .select => 0x04
  | .start => 0x08
  | .up => 0x10
  | .down => 0x20
  | .left => 0x40
  | .right => 0x80

/-- What is printed on the controller. -/
def name : Button → String
  | .a => "a"
  | .b => "b"
  | .select => "select"
  | .start => "start"
  | .up => "up"
  | .down => "down"
  | .left => "left"
  | .right => "right"

/-- The button of a name. -/
def ofName? (name : String) : Option Button := all.find? fun button => button.name == name

end Button

/-- A controller: the buttons held down, one bit each, and the bits still to be read out. -/
structure Controller where
  held : UInt8 := 0
  shift : UInt8 := 0
  deriving DecidableEq, Repr, Inhabited

namespace Controller

/-- Whether a button is held down. -/
def isHeld (c : Controller) (button : Button) : Bool := c.held &&& button.mask != 0

/-- Presses or releases a button. -/
def setButton (c : Controller) (button : Button) (pressed : Bool) : Controller :=
  { c with held := if pressed then c.held ||| button.mask else c.held &&& ~~~button.mask }

/-- Takes a pair of opposite directions as released if both are held. -/
def releaseOpposites (bits pair : UInt8) : UInt8 :=
  if bits &&& pair = pair then bits &&& ~~~pair else bits

/-- Copies the buttons into the shift register, opposite directions held together being released. -/
def latch (c : Controller) : Controller :=
  { c with shift := releaseOpposites (releaseOpposites c.held 0x30) 0xC0 }

/-- Hands out the next bit. -/
def shiftOut (c : Controller) : UInt8 × Controller :=
  (c.shift &&& 0x01, { c with shift := c.shift >>> 1 })

end Controller

/-- Both controllers, with the strobe line they share. -/
structure Controllers where
  first : Controller := {}
  second : Controller := {}
  strobe : Bool := false
  deriving DecidableEq, Repr, Inhabited

namespace Controllers

/-- The controller in a socket.  There are two sockets, 0 and 1. -/
def controller? (p : Controllers) : Nat → Option Controller
  | 0 => some p.first
  | 1 => some p.second
  | _ => none

/-- Applies a change to the controller in a socket, if there is such a socket. -/
def modify? (p : Controllers) (socket : Nat) (f : Controller → Controller) :
    Option Controllers :=
  match socket with
  | 0 => some { p with first := f p.first }
  | 1 => some { p with second := f p.second }
  | _ => none

/-- Both controllers copy their buttons. -/
def latch (p : Controllers) : Controllers :=
  { p with first := p.first.latch, second := p.second.latch }

/-- Reads one bit: `$4016` reads the first controller, any other address the second.  While the
    strobe line is high both controllers copy their buttons first. -/
def read (p : Controllers) (addr : UInt16) : UInt8 × Controllers :=
  let p := if p.strobe then p.latch else p
  if addr = 0x4016 then
    let (bit, c) := p.first.shiftOut
    (bit, { p with first := c })
  else
    let (bit, c) := p.second.shiftOut
    (bit, { p with second := c })

/-- Writes the strobe line, which is bit 0.  Both controllers copy their buttons if it is high. -/
def write (p : Controllers) (data : UInt8) : Controllers :=
  let p := { p with strobe := data &&& 0x01 != 0 }
  if p.strobe then p.latch else p

end Controllers

end Famicom
