/-
**RPUs in network abstraction layer units.**

HEVC and H.264 carry an RPU in a NAL unit of its own: a fixed first byte, then the RPU.  Inside a
NAL unit two zero bytes are never followed by a byte of at most 3, because such triples delimit
units; where the payload has one, a byte 3 is put in front of the third byte.

Main definitions:

* `DolbyVision.Nal.escape`, `DolbyVision.Nal.unescape` — with and without the inserted bytes;
* `DolbyVision.Nal.wrap`, `DolbyVision.Nal.unwrap` — an RPU as a NAL unit payload, and the payload
  of a NAL unit;
* `DolbyVision.Nal.rpu` — the RPU of a payload, without padding.
-/

import DolbyVision.Checked

set_option relaxedAutoImplicit false
set_option autoImplicit false

namespace DolbyVision.Nal

/-- The byte in front of an RPU. -/
def marker : UInt8 := 0x19

/-- The type of a NAL unit that holds an RPU. -/
def rpuUnitType : UInt8 := 62

/-- The type of a NAL unit, which stands in the first byte of its header. -/
def unitType (header : List UInt8) : Option UInt8 :=
  header.head?.map fun (b : UInt8) => (b >>> 1) &&& 0x3f

/-- The length of the run of zero bytes that ends with a byte, if `zeros` zero bytes precede it. -/
def zeroRun (zeros : Nat) (b : UInt8) : Nat :=
  if b = 0 then zeros + 1 else 0

/-- Escapes a byte string that follows `zeros` zero bytes. -/
def escapeAfter : Nat → List UInt8 → List UInt8
  | _, [] => []
  | zeros, b :: bytes =>
    if 2 ≤ zeros ∧ b ≤ 3 then 3 :: b :: escapeAfter (zeroRun 0 b) bytes
    else b :: escapeAfter (zeroRun zeros b) bytes

/-- Puts a byte 3 between two zero bytes and a byte of at most 3. -/
def escape (bytes : List UInt8) : List UInt8 :=
  escapeAfter 0 bytes

/-- Removes the escapes of a byte string that follows `zeros` zero bytes. -/
def unescapeAfter : Nat → List UInt8 → List UInt8
  | _, [] => []
  | zeros, b :: bytes =>
    if 2 ≤ zeros ∧ b = 3 then unescapeAfter 0 bytes
    else b :: unescapeAfter (zeroRun zeros b) bytes

/-- Removes every byte 3 that follows two zero bytes. -/
def unescape (bytes : List UInt8) : List UInt8 :=
  unescapeAfter 0 bytes

/-- An RPU as the payload of a NAL unit. -/
def wrap (rpu : List UInt8) : List UInt8 :=
  marker :: escape rpu

/-- A byte string without the start code in front of it, of three or four bytes. -/
def dropStartCode : List UInt8 → List UInt8
  | 0 :: 0 :: 0 :: 1 :: bytes => bytes
  | 0 :: 0 :: 1 :: bytes => bytes
  | bytes => bytes

/-- A NAL unit without its header, if it has the header of a unit that holds an RPU. -/
def dropHeader (bytes : List UInt8) : List UInt8 :=
  if 2 < bytes.length ∧ bytes.head? ≠ some marker ∧ unitType bytes = some rpuUnitType then
    bytes.drop 2
  else bytes

/-- The payload of a NAL unit, with or without start code and header, without escapes. -/
def unwrap (bytes : List UInt8) : List UInt8 :=
  unescape (dropHeader (dropStartCode bytes))

/-- A byte string without the zero bytes at its end. -/
def trimZeros (bytes : List UInt8) : Except Fault (List UInt8) := do
  let (front, _) ← Checked.splitAt bytes (bytes.reverse.dropWhile (· == 0)).length
  return front

/-- The RPU of a payload: what follows the first byte, without zero padding. -/
def rpu : List UInt8 → Except Fault (List UInt8)
  | b :: bytes =>
    if b = marker then trimZeros bytes else .error (.malformed .missingNalPrefix)
  | [] => .error (.malformed .missingNalPrefix)

end DolbyVision.Nal
