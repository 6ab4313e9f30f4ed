/-
**Reads of words and of repeated items.**

Fields of a record are machine words that are filled from fewer bits.  The reads of this module take
a width and give a word; `times` and `list` repeat a read.

Main definitions:

* `DolbyVision.Bits.Reader.u8`, `u16`, `u32`, `i16` — words from a given number of bits;
* `DolbyVision.Bits.Reader.times`, `DolbyVision.Bits.Reader.list` — the same read several times.
-/

import DolbyVision.Bits.Reader

set_option relaxedAutoImplicit false
set_option autoImplicit false

namespace DolbyVision.Bits.Reader

/-- Reads an unsigned number of `width` bits into a byte. -/
def u8 (width : Nat) : BitParser UInt8 := do
  return UInt8.ofNat (← bits32 width)

/-- Reads an unsigned number of `width` bits into a word of 16 bits. -/
def u16 (width : Nat) : BitParser UInt16 := do
  return UInt16.ofNat (← bits32 width)

/-- Reads an unsigned number of `width` bits into a word of 32 bits. -/
def u32 (width : Nat) : BitParser UInt32 := do
  return UInt32.ofNat (← bits32 width)

/-- Reads a two's complement number of `width` bits into a word of 16 bits. -/
def i16 (width : Nat) : BitParser Int16 := do
  return Int16.ofInt (← signed32 width)

/-- Reads an item `n` times. -/
def times {α : Type} : (n : Nat) → BitParser α → BitParser (Vector α n)
  | 0, _ => return #v[]
  | n + 1, item => do
    let items ← times n item
    let last ← item
    return items.push last

/-- Reads an item `n` times into a list. -/
def list {α : Type} : Nat → BitParser α → BitParser (List α)
  | 0, _ => return []
  | n + 1, item => do
    let first ← item
    let items ← list n item
    return first :: items

end DolbyVision.Bits.Reader
