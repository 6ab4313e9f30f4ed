/-
**RPUs in ITU-T T.35 messages.**

AV1 carries an RPU in a T.35 message: seven bytes that name the provider, then a container of the
extensible metadata delivery format (EMDF).  The container has a fixed head of 27 bits, the size of
its payload, the payload, and a fixed end of 17 bits; its payload does not start at a byte boundary.

A size is coded in groups of eight bits, each followed by a bit that says whether another group
follows.  A further group multiplies the successor of what was read by 256 and adds itself, so that
every size has one code.

Main definitions:

* `DolbyVision.T35.wrap`, `DolbyVision.T35.unwrap` — an RPU as a message, and the container of one;
* `DolbyVision.T35.putSize`, `DolbyVision.T35.readSize` — the size of a payload;
* `DolbyVision.T35.rpu` — the RPU in a container.
-/

import DolbyVision.Bits.Words
import DolbyVision.Bits.Writer

set_option relaxedAutoImplicit false
set_option autoImplicit false

namespace DolbyVision.T35

open Bits

/-- The bytes that name the provider: country, provider and what the provider says it is. -/
def provider : List UInt8 :=
  [0xb5, 0x00, 0x3b, 0x00, 0x00, 0x08, 0x00]

/-- The fixed head of a container, of 27 bits. -/
def head : Nat := 0x01be6841

/-- The fixed end of a container, of 17 bits. -/
def protection : Nat := 0x400

/-- The smallest payload that is accepted. -/
def minPayload : Nat := 6

/-- The largest payload that is accepted. -/
def maxPayload : Nat := 512

/-- The largest RPU that a message can hold. -/
def maxSize : Nat := 0x10000

/-- Writes the size of a payload, in one group if it fits and in two otherwise. -/
def putSize (w : Writer) (size : Nat) : Except Fault Writer := do
  if 0xff < size then
    let upper ← Checked.sub (size / 256) 1
    w.putFields [⟨8, upper⟩, ⟨1, 1⟩, ⟨8, size % 256⟩, ⟨1, 0⟩]
  else
    w.putFields [⟨8, size⟩, ⟨1, 0⟩]

/-- Pads with set bits up to the next byte boundary. -/
def padWithOnes (w : Writer) : Except Fault Writer := do
  let padding := (← Checked.sub 8 (w.bitsWritten % 8)) % 8
  let ones ← Checked.sub (← Checked.bit 32 padding) 1
  w.put padding ones

/-- The container of an RPU behind the bytes that name the provider. -/
def putMessage (w : Writer) (rpu : List UInt8) : Except Fault Writer := do
  let w ← w.putBytes provider
  let w ← w.put 27 head
  let w ← putSize w rpu.length
  let w ← w.putBytes rpu
  let w ← w.put 17 protection
  padWithOnes w

/-- An RPU as a message. -/
def wrap (rpu : List UInt8) : Except Fault (List UInt8) := do
  if maxSize < rpu.length then
    throw (.limit .rpuTooLargeForEmdf)
  let w ← putMessage Writer.empty rpu
  w.finish

/-- The container of a message. -/
def unwrap (message : List UInt8) : Except Fault (List UInt8) :=
  if message.length < provider.length then .error (.malformed .shortT35Message)
  else if message.take provider.length = provider then .ok (message.drop provider.length)
  else .error (.malformed .foreignT35Message)

/-- The size that `value` and a further group stand for.  It stays at the largest word if it does
not fit in one. -/
def extendSize (value group : Nat) : Nat :=
  let limit := (1 <<< 32) - 1
  min (min (min (value + 1) limit * 256) limit + group) limit

/-- Reads the groups of a size behind those that stand for `value`, at most `groups` of them. -/
def readGroups : Nat → Nat → BitParser Nat
  | 0, _ => throw .unexpectedEnd
  | groups + 1, value => do
    if ← Reader.flag then
      let group ← Reader.bits32 8
      readGroups groups (extendSize value group)
    else
      return value

/-- Reads the size of a payload.  There are fewer groups than bits. -/
def readSize : BitParser Nat := do
  let value ← Reader.bits32 8
  readGroups ((← get).bitsLeft + 1) value

/-- Reads a container. -/
def container : BitParser (List UInt8) := do
  if (← Reader.bits32 27) ≠ head then
    throw (.malformed .emdfHeader)
  let size ← readSize
  if size < minPayload ∨ maxPayload < size then
    throw (.malformed .emdfPayloadSize)
  if (← get).bitsLeft < (← Checked.mul 64 8 size) then
    throw (.malformed .emdfPayloadOverrun)
  let payload ← Reader.list size (Reader.u8 8)
  if (← Reader.bits32 17) ≠ protection then
    throw (.malformed .emdfProtection)
  return payload

/-- The RPU in a container. -/
def rpu (bytes : List UInt8) : Except Fault (List UInt8) :=
  match container (Reader.ofBytes bytes) with
  | .ok payload _ => .ok payload
  | .error fault _ => .error fault

end DolbyVision.T35
