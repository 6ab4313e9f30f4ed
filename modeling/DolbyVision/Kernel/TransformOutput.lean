/-
**Storing transformed blocks.**

The output of an inverse transform is a block of 8 by 8 coefficients.  It is stored into rows of
8-bit pixels that lie `stride` bytes apart: as it is, around the middle of the range, or on top of
what is there.  Values out of range become the nearest pixel.

Each kernel has a form that goes row by row and one that computes the whole block as one strip
before it stores the first row.  The two forms of an addition differ where rows overlap.

Main definitions:

* `DolbyVision.Kernel.put`, `DolbyVision.Kernel.putSigned`, `DolbyVision.Kernel.add` — row by row;
* `DolbyVision.Kernel.putStrip`, `DolbyVision.Kernel.putSignedStrip`, `DolbyVision.Kernel.addStrip`
  — as one strip.
-/

import DolbyVision.Kernel.PixelBlock

set_option relaxedAutoImplicit false
set_option autoImplicit false

namespace DolbyVision.Kernel

/-- A block of coefficients. -/
abbrev Block64 := Vector Int16 64

/-- The pixel nearest to a value. -/
def clamp (value : Int) : UInt8 :=
  UInt8.ofNat (min (max value 0) 255).toNat

/-- The middle of the range of pixels. -/
def middle : Int := 128

/-- The coefficients of a row. -/
def coefficientRow (block : Block64) (row : Nat) : List Int16 :=
  (block.toList.drop (side * row)).take side

/-- Stores the rows of a block one by one, each computed from its coefficients and the pixels in its
place. -/
def storeRows (row : List Int16 → List UInt8 → List UInt8) (block : Block64) (pixels : List UInt8)
    (stride : Nat) : Option (List UInt8) :=
  (List.range side).foldlM
    (fun pixels r => do
      let old ← segment pixels (r * stride) side
      store pixels (r * stride) (row (coefficientRow block r) old))
    pixels

/-- Stores coefficients. -/
def put : Block64 → List UInt8 → Nat → Option (List UInt8) :=
  storeRows fun coefficients _ => coefficients.map fun c => clamp c.toInt

/-- Stores coefficients around the middle of the range. -/
def putSigned : Block64 → List UInt8 → Nat → Option (List UInt8) :=
  storeRows fun coefficients _ => coefficients.map fun c => clamp (c.toInt + middle)

/-- Adds coefficients to the pixels. -/
def add : Block64 → List UInt8 → Nat → Option (List UInt8) :=
  storeRows fun coefficients old =>
    List.zipWith (fun c p => clamp ((p.toNat : Int) + c.toInt)) coefficients old

/-- Stores a strip of 64 values, eight to a row. -/
def storeStrip (strip : List Int) (pixels : List UInt8) (stride : Nat) : Option (List UInt8) :=
  let narrow := strip.map clamp
  (List.range side).foldlM
    (fun pixels r => store pixels (r * stride) ((narrow.drop (side * r)).take side))
    pixels

/-- Stores coefficients, as one strip. -/
def putStrip (block : Block64) : List UInt8 → Nat → Option (List UInt8) :=
  storeStrip (block.toList.map Int16.toInt)

/-- Stores coefficients around the middle of the range, as one strip. -/
def putSignedStrip (block : Block64) : List UInt8 → Nat → Option (List UInt8) :=
  storeStrip (block.toList.map fun c => c.toInt + middle)

/-- Adds coefficients to the pixels, as one strip.  All pixels are loaded before the first row is
stored. -/
def addStrip (block : Block64) (pixels : List UInt8) (stride : Nat) : Option (List UInt8) := do
  -- Rows that overlap are loaded before any of them changes.
  let rows ← (List.range side).mapM fun r => segment pixels (r * stride) side
  let loaded := rows.flatten.map fun p => (p.toNat : Int)
  storeStrip (List.zipWith (fun p c => p + c.toInt) loaded block.toList) pixels stride

end DolbyVision.Kernel
