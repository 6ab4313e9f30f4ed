/-
**The end of an RPU.**

An RPU ends with the checksum of everything before it, in four bytes, and a fixed last byte.

Main definitions:

* `DolbyVision.Tail.attach` — an RPU with its tail;
* `DolbyVision.Tail.split` — the parts of a byte string that ends as an RPU does;
* `DolbyVision.Tail.verify` — whether a decoder of a given strictness goes on.
-/

import DolbyVision.Checked
import DolbyVision.Crc32
import DolbyVision.Note
import DolbyVision.Strictness

set_option relaxedAutoImplicit false
set_option autoImplicit false

namespace DolbyVision.Tail

/-- The last byte of an RPU. -/
def terminator : UInt8 := 0x80

/-- The number of bytes of the tail. -/
def size : Nat := 5

/-- An RPU with its checksum and last byte. -/
def attach (body : List UInt8) : List UInt8 :=
  body ++ Crc32.bigEndian (Crc32.checksum body) ++ [terminator]

/-- The word that a byte string spells, the most significant byte first. -/
def word (bytes : List UInt8) : UInt32 :=
  bytes.foldl (fun w b => (w <<< 8) ||| b.toUInt32) 0

/-- The body and the stated checksum of a byte string that is long enough for a tail and has the
last byte of one. -/
def split (rpu : List UInt8) : Except Fault (List UInt8 × UInt32) := do
  if rpu.length < size then
    throw (.malformed .missingTerminator)
  let last ← Checked.sub rpu.length 1
  if (← Checked.item rpu last) ≠ terminator then
    throw (.malformed .missingTerminator)
  let border ← Checked.sub rpu.length size
  let (body, tail) ← Checked.splitAt rpu border
  let stated ← [0, 1, 2, 3].mapM (Checked.item tail)
  return (body, word stated)

/-- Checks the last byte and, if the strictness asks for it, the checksum.  A wrong checksum is
always reported, but it is a fault only for a decoder that gives up on minor errors. -/
def verify (rpu : List UInt8) (strictness : Strictness) : Except Fault Unit × List Note :=
  match split rpu with
  | .error fault => (.error fault, [])
  | .ok (body, stated) =>
    let computed := Crc32.checksum body
    if !strictness.contains .checksum || computed == stated then (.ok (), [])
    else
      let result :=
        if strictness.contains .explode then .error (.malformed .checksumMismatch) else .ok ()
      (result, [.checksumMismatch computed stated])

end DolbyVision.Tail
