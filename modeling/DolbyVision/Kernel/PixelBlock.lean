/-
**Loading blocks of pixels.**

A transform works on blocks of 8 by 8 coefficients, which are loaded from rows of pixels that lie
`stride` bytes apart.  Each load has a form that goes row by row; the loads of 8-bit pixels also
have one that takes two rows at a time.

Main definitions:

* `DolbyVision.Kernel.loadBytes`, `DolbyVision.Kernel.loadWords` — pixels of 8 and of 16 bits;
* `DolbyVision.Kernel.loadDifference` — the difference of two blocks of 8-bit pixels;
* `DolbyVision.Kernel.loadBytesPaired`, `DolbyVision.Kernel.loadDifferencePaired` — two rows at a
  time.
-/

import DolbyVision.Kernel.Segment

set_option relaxedAutoImplicit false
set_option autoImplicit false

namespace DolbyVision.Kernel

/-- The number of rows and of columns of a block. -/
def side : Nat := 8

/-- A row of 8-bit pixels, or nothing if it does not lie in the pixels. -/
def byteRow (pixels : List UInt8) (start : Nat) : Option (List Int16) := do
  let row ← segment pixels start side
  return row.map fun p => Int16.ofNat p.toNat

/-- The 16-bit words that a byte string holds, the less significant byte first. -/
def words : List UInt8 → List Int16
  | low :: high :: bytes => (low.toUInt16 ||| (high.toUInt16 <<< 8)).toInt16 :: words bytes
  | _ => []

/-- A row of 16-bit pixels, or nothing if it does not lie in the pixels. -/
def wordRow (pixels : List UInt8) (start : Nat) : Option (List Int16) := do
  let row ← segment pixels start (2 * side)
  return words row

/-- The difference of two rows of 8-bit pixels, or nothing if one does not lie in its pixels. -/
def differenceRow (a b : List UInt8) (start : Nat) : Option (List Int16) := do
  let rowA ← byteRow a start
  let rowB ← byteRow b start
  return List.zipWith (· - ·) rowA rowB

/-- The rows of a block, one by one. -/
def byRows (row : Nat → Option (List Int16)) : Option (List Int16) := do
  let rows ← (List.range side).mapM row
  return rows.flatten

/-- The rows of a block, in pairs. -/
def byPairs (row : Nat → Option (List Int16)) : Option (List Int16) := do
  let pairs ← (List.range (side / 2)).mapM fun pair => do
    let upper ← row (2 * pair)
    let lower ← row (2 * pair + 1)
    return upper ++ lower
  return pairs.flatten

/-- Loads a block of 8-bit pixels. -/
def loadBytes (pixels : List UInt8) (stride : Nat) : Option (List Int16) :=
  byRows fun row => byteRow pixels (row * stride)

/-- Loads a block of 16-bit pixels. -/
def loadWords (pixels : List UInt8) (stride : Nat) : Option (List Int16) :=
  byRows fun row => wordRow pixels (row * stride)

/-- Loads the difference of two blocks of 8-bit pixels. -/
def loadDifference (a b : List UInt8) (stride : Nat) : Option (List Int16) :=
  byRows fun row => differenceRow a b (row * stride)

/-- Loads a block of 8-bit pixels, two rows at a time. -/
def loadBytesPaired (pixels : List UInt8) (stride : Nat) : Option (List Int16) :=
  byPairs fun row => byteRow pixels (row * stride)

/-- Loads the difference of two blocks of 8-bit pixels, two rows at a time. -/
def loadDifferencePaired (a b : List UInt8) (stride : Nat) : Option (List Int16) :=
  byPairs fun row => differenceRow a b (row * stride)

end DolbyVision.Kernel
