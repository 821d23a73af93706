/-
  A finished or growing picture: 240 rows of 256 pixels.

  Pixels are kept as colour words and shown as four bytes each, red, green, blue and an alpha that is
  always opaque.  Main statements: the two laws of `Frame.set`, for the pixel drawn and for every
  other one.
-/
import Famicom.Picture.Palette

namespace Famicom

/-- Pixels in a row. -/
def screenWidth : Nat := 256

/-- Rows of a picture. -/
def screenHeight : Nat := 240

/-- Bytes by which a pixel is shown. -/
def bytesPerPixel : Nat := 4

/-- Why a pixel cannot be looked up. -/
inductive PixelError where
  /-- The column lies outside the picture. -/
  | column (x : Nat)
  /-- The row lies outside the picture. -/
  | row (y : Nat)
  deriving DecidableEq, Repr

/-- The text of a failed look-up. -/
def PixelError.message : PixelError → String
  | column x => "X coordinate " ++ toString x ++ " out of bounds"
  | row y => "Y coordinate " ++ toString y ++ " out of bounds"

/-- A picture, row by row from the top. -/
structure Frame where
  pixels : Vector UInt32 (screenWidth * screenHeight)
  deriving DecidableEq

namespace Frame

/-- An all-black picture. -/
def black : Frame := ⟨.replicate _ 0⟩

instance : Inhabited Frame := ⟨black⟩

theorem offset_lt {x y : Nat} (hx : x < screenWidth) (hy : y < screenHeight) :
    y * screenWidth + x < screenWidth * screenHeight := by
  unfold screenWidth screenHeight at *; omega

/-- Draws a pixel; outside the picture nothing is drawn. -/
def set (f : Frame) (x y : Nat) (rgb : UInt32) : Frame :=
  if h : x < screenWidth ∧ y < screenHeight then
    ⟨f.pixels.set (y * screenWidth + x) rgb (offset_lt h.1 h.2)⟩
  else f

/-- The colour of a pixel.  The column is checked first. -/
def get (f : Frame) (x y : Nat) : Except PixelError UInt32 :=
  if hx : x < screenWidth then
    if hy : y < screenHeight then
      have := offset_lt hx hy
      .ok f.pixels[y * screenWidth + x]
    else .error (.row y)
  else .error (.column x)

/-- The four bytes that show a pixel. -/
def pixelBytes (rgb : UInt32) : List UInt8 := channels rgb ++ [0xFF]

/-- Goes through the bytes of the picture in order. -/
def foldBytes {α : Type} (step : α → UInt8 → α) (start : α) (f : Frame) : α :=
  f.pixels.foldl (fun acc rgb => (pixelBytes rgb).foldl step acc) start

/-- The colours of a row, left to right. -/
def row (f : Frame) (y : Nat) : Array UInt32 :=
  f.pixels.toArray.extract (y * screenWidth) (y * screenWidth + screenWidth)

theorem get_set_self (f : Frame) {x y : Nat} (hx : x < screenWidth) (hy : y < screenHeight)
    (rgb : UInt32) : (f.set x y rgb).get x y = .ok rgb := by
  simp [set, get, hx, hy]

theorem get_set_of_ne (f : Frame) {x y u w : Nat} (rgb : UInt32) (h : (x, y) ≠ (u, w)) :
    (f.set x y rgb).get u w = f.get u w := by
  unfold set
  split
  next hxy =>
    unfold get
    by_cases hu : u < screenWidth <;> by_cases hw : w < screenHeight <;> simp [hu, hw]
    have : y * screenWidth + x ≠ w * screenWidth + u := by
      intro e
      unfold screenWidth at *
      have hyw : y = w := by omega
      exact h (by rw [hyw, show x = u by omega])
    simp [this]
  next => rfl

end Frame

end Famicom
