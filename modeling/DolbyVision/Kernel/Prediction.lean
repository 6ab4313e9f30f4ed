/-
**Lossless prediction.**

A lossless encoder writes what is left of a byte when its prediction is taken off, modulo 256.  The
prediction is the neighbour on the left, or the median of the left neighbour, the upper one and the
gradient of the two.

Main definitions:

* `DolbyVision.Kernel.difference`, `DolbyVision.Kernel.differenceStrips` — byte-wise differences;
* `DolbyVision.Kernel.median`, `DolbyVision.Kernel.medianResiduals` — prediction from three
  neighbours, with the neighbours carried from call to call;
* `DolbyVision.Kernel.leftResiduals` — prediction from the left neighbour over a whole picture.
-/

import DolbyVision.Kernel.Segment

set_option relaxedAutoImplicit false
set_option autoImplicit false

namespace DolbyVision.Kernel

/-! ### Differences -/

/-- Stores the differences of two byte strings, as far as all three reach. -/
def difference (target a b : List UInt8) : List UInt8 :=
  overwrite target (List.zipWith (· - ·) a b)

/-- The number of bytes of a strip. -/
def differenceStrip : Nat := 32

/-- Stores the differences of two byte strings strip by strip, and what does not fill a strip at the
end. -/
def differenceStrips (target a b : List UInt8) : List UInt8 :=
  let length := min target.length (min a.length b.length)
  let full := length - length % differenceStrip
  let body :=
    List.zipWith (List.zipWith (· - ·)) (strips differenceStrip (a.take full))
      (strips differenceStrip (b.take full))
  let tail := List.zipWith (· - ·) ((a.take length).drop full) ((b.take length).drop full)
  body.flatten ++ tail ++ target.drop length

/-! ### Median prediction -/

/-- The neighbours of the next byte: to the left, and above the left one. -/
structure Neighbours where
  left : UInt8
  leftTop : UInt8
  deriving DecidableEq, Inhabited

/-- The median of three bytes. -/
def median (a b c : UInt8) : UInt8 :=
  min (max a b) (max (min a b) c)

/-- The prediction of a byte below `top`. -/
def Neighbours.prediction (n : Neighbours) (top : UInt8) : UInt8 :=
  median n.left top (n.left + top - n.leftTop)

/-- The residuals of a row below another, as far as both reach, and the neighbours afterwards. -/
def residuals : Neighbours → List UInt8 → List UInt8 → List UInt8 × Neighbours
  | n, top :: tops, current :: row =>
    let (rest, last) := residuals ⟨current, top⟩ tops row
    ((current - n.prediction top) :: rest, last)
  | n, _, _ => ([], n)

/-- Stores the residuals of a row, as far as it and the row above reach, and gives the neighbours
for the next call. -/
def medianResiduals (target top current : List UInt8) (n : Neighbours) : List UInt8 × Neighbours :=
  let (values, last) := residuals n (top.take target.length) current
  (overwrite target values, last)

/-! ### Left prediction -/

/-- The byte that is taken to precede a picture. -/
def firstPrediction : UInt8 := 0x80

/-- The residuals of a byte string whose first byte follows `previous`. -/
def leftDifferences : UInt8 → List UInt8 → List UInt8
  | _, [] => []
  | previous, b :: bytes => (b - previous) :: leftDifferences b bytes

/-- Stores the residuals of a picture row after row, as many whole rows as there is room for, each
byte predicted by the one before it, also across rows.  The rows of the picture lie `stride` bytes
apart; nothing results if one of them does not lie in the picture. -/
def leftResiduals (target source : List UInt8) (stride width height : Nat) : Option (List UInt8) :=
  if width = 0 ∨ height = 0 then some target
  else do
    let rows ← (List.range (min height (target.length / width))).mapM fun row =>
      segment source (row * stride) width
    return overwrite target (leftDifferences firstPrediction rows.flatten)

end DolbyVision.Kernel
