/-
**The decoder configuration record.**

A container stores 24 bytes that tell a decoder about the stream: the profile and level, which
layers are present, and how metadata is compressed.  Old records end after the presence flags; what
they leave out is zero.

Main definitions:

* `DolbyVision.Compression` — how metadata is compressed;
* `DolbyVision.Configuration` — the record;
* `DolbyVision.Configuration.read`, `DolbyVision.Configuration.write` — its bytes;
* `DolbyVision.Configuration.isPresent` — whether a record describes a stream at all.
-/

import DolbyVision.Bits.Reader
import DolbyVision.Bits.Writer
import DolbyVision.Note

set_option relaxedAutoImplicit false
set_option autoImplicit false

namespace DolbyVision

open Bits

/-- How much of the metadata may be left out because it was sent before. -/
inductive Compression where
  /-- Every RPU stands on its own. -/
  | none
  /-- Only the mapping in slot 0 may be used again. -/
  | limited
  | reserved
  /-- The mapping in any slot may be used again. -/
  | extended
  deriving DecidableEq

namespace Compression

instance : Inhabited Compression := ⟨.none⟩

/-- The compression with a given code, of which the lowest two bits count. -/
def ofCode (code : Nat) : Compression :=
  match code % 4 with
  | 0 => none
  | 1 => limited
  | 2 => reserved
  | _ => extended

/-- The code of a compression. -/
def code : Compression → Nat
  | none => 0
  | limited => 1
  | reserved => 2
  | extended => 3

theorem ofCode_code (c : Compression) : ofCode c.code = c := by
  cases c <;> rfl

end Compression

/-- The decoder configuration record.  A record of zeros stands for no configuration. -/
structure Configuration where
  versionMajor : UInt8 := 0
  versionMinor : UInt8 := 0
  profile : UInt8 := 0
  level : UInt8 := 0
  rpuPresent : Bool := false
  enhancementLayerPresent : Bool := false
  baseLayerPresent : Bool := false
  compatibilityId : UInt8 := 0
  compression : Compression := .none
  deriving DecidableEq

namespace Configuration

instance : Inhabited Configuration := ⟨{}⟩

/-- The size of a written record. -/
def size : Nat := 24

/-- Whether a record describes a stream. -/
def isPresent (c : Configuration) : Bool :=
  c.profile != 0 || c.level != 0 || c.rpuPresent

/-- The type of the box that carries a record in an ISO base media file. -/
def boxType (c : Configuration) : List UInt8 :=
  if c.profile ≤ 7 then [0x64, 0x76, 0x63, 0x43]
  else if c.profile ≤ 10 then [0x64, 0x76, 0x76, 0x43]
  else [0x64, 0x76, 0x77, 0x43]

/-- Reads the fields of a record. -/
def fieldsParser : BitParser Configuration := do
  let versionMajor ← Reader.bits32 8
  let versionMinor ← Reader.bits32 8
  let profile ← Reader.bits32 7
  let level ← Reader.bits32 6
  let rpuPresent ← Reader.flag
  let enhancementLayerPresent ← Reader.flag
  let baseLayerPresent ← Reader.flag
  let record : Configuration :=
    { versionMajor := .ofNat versionMajor
      versionMinor := .ofNat versionMinor
      profile := .ofNat profile
      level := .ofNat level
      rpuPresent, enhancementLayerPresent, baseLayerPresent }
  if (← get).bitsLeft < 8 then
    return record
  let compatibilityId ← Reader.bits32 4
  let compression ← Reader.bits32 2
  return { record with
    compatibilityId := .ofNat compatibilityId
    compression := .ofCode compression }

/-- What is worth reporting about a record that was read. -/
def notes (c : Configuration) : List Note :=
  if 2 < c.versionMajor then [.unknownRecordVersion c.versionMajor] else []

/-- Reads a record from the start of a byte string. -/
def read (bytes : List UInt8) : Except Fault Configuration :=
  if bytes.length < 4 then .error (.malformed .shortConfigurationRecord)
  else
    match fieldsParser (Reader.ofBytes bytes) with
    | .ok record _ => .ok record
    | .error fault _ => .error fault

/-- The layout of a record. -/
def fields (c : Configuration) : List Field :=
  [⟨8, c.versionMajor.toNat⟩, ⟨8, c.versionMinor.toNat⟩, ⟨7, c.profile.toNat⟩, ⟨6, c.level.toNat⟩,
    ⟨1, c.rpuPresent.toNat⟩, ⟨1, c.enhancementLayerPresent.toNat⟩, ⟨1, c.baseLayerPresent.toNat⟩,
    ⟨4, c.compatibilityId.toNat⟩, ⟨2, c.compression.code⟩, ⟨26, 0⟩]

/-- The bytes of a record, filled up with zeros. -/
def write (c : Configuration) : Except Fault (List UInt8) := do
  let w ← Writer.empty.putFields c.fields
  let bytes ← w.finish
  return bytes ++ List.replicate (size - bytes.length) 0

end Configuration

end DolbyVision
