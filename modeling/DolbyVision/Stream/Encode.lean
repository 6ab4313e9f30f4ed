/-
**Encoding an RPU.**

`Stream.encode` writes the metadata of a frame as an RPU.  It first decides what has to be sent:
with compression, a mapping that is still in its slot is only referred to, and a color description
is left out together with the static blocks if both are those of the last RPU.  The state changes
only if an RPU results, and then it is the state of a decoder that has read it.

Main definitions:

* `DolbyVision.EncodeOptions` — how an RPU is wrapped and whether it is compressed;
* `DolbyVision.Plan`, `DolbyVision.Stream.plan` — what is sent;
* `DolbyVision.Plan.put` — the RPU in front of its tail;
* `DolbyVision.Stream.commit` — the state after an RPU;
* `DolbyVision.Stream.encode` — the whole operation.
-/

import DolbyVision.Stream.Decode

set_option relaxedAutoImplicit false
set_option autoImplicit false

namespace DolbyVision

open Bits

/-- How an RPU is written. -/
structure EncodeOptions where
  /-- As the payload of a NAL unit. -/
  nal : Bool := false
  /-- As a T.35 message, whatever `nal` says. -/
  t35 : Bool := false
  /-- Leaving out what was sent before, as far as the configuration permits. -/
  compress : Bool := false
  deriving DecidableEq, Inhabited

/-- The options that the bits of a word stand for. -/
def EncodeOptions.ofBits (bits : Nat) : EncodeOptions where
  nal := bits.testBit 0
  t35 := bits.testBit 1
  compress := bits.testBit 2

/-- What an RPU is going to hold. -/
structure Plan where
  metadata : Metadata
  id : Id
  blocks : BlockSet
  /-- The compression that is used. -/
  compression : Compression
  /-- The configured compression, which decides whether an RPU says that it is compressed. -/
  configured : Compression
  /-- Whether the mapping is only referred to. -/
  reuses : Bool
  /-- Whether there is display management data. -/
  hasColor : Bool
  /-- Whether the color description and the static blocks are left out. -/
  compressed : Bool
  deriving DecidableEq, Inhabited

namespace Stream

/-- Whether the mapping of some metadata is only referred to. -/
def reusesMapping (s : Stream) (compression : Compression) (id : Id) (m : Mapping) : Bool :=
  match compression with
  | .limited => id.val == 0 && s.slot id == some m
  | .extended => s.slot id == some m
  | _ => false

/-- Whether a color description and static blocks are those of the last RPU. -/
def repeatsColor (s : Stream) (color : SourceColor) (blocks : BlockSet) : Bool :=
  (s.color.any fun last => last.sameColor color) &&
    (s.blocks.map BlockSet.static).getD [] == blocks.static

/-- The compression of an RPU: the configured one if compression is asked for, none otherwise. -/
def usedCompression (s : Stream) (options : EncodeOptions) : Compression :=
  if options.compress then s.configuration.compression else .none

/-- Checks that metadata can be written to the stream, and decides what is sent. -/
def plan (s : Stream) (m : Metadata) (options : EncodeOptions) : Except Fault Plan := do
  if s.configuration.profile = 0 then
    throw (.invalidArgument .noProfile)
  if m.header.rpuType ≠ knownRpuType then
    throw (.malformed .rpuType)
  m.header.validate
  m.mapping.validate m.header.usesNlq
  if maxId < m.color.id.toNat then
    throw (.invalidArgument .colorId)
  let blocks ← BlockSet.ofList m.blocks
  if s.configuration.compression = .reserved then
    throw (.invalidArgument .reservedCompression)
  let compression := s.usedCompression options
  -- Validation has seen to it that the slot exists.
  if h : m.mapping.id.toNat < maxId + 1 then
    let id : Id := ⟨m.mapping.id.toNat, h⟩
    let hasColor := m.color != .assumed || !blocks.isEmpty
    let compressed := hasColor && compression != .none && s.repeatsColor m.color blocks
    if hasColor ∧ !compressed ∧ !m.color.hasValidBitDepth then
      throw (.invalidArgument .signalBitDepth)
    return {
      metadata := m, id, blocks, compression, configured := s.configuration.compression
      reuses := s.reusesMapping compression id m.mapping
      hasColor, compressed }
  else
    throw (.defect .index)

end Stream

namespace Plan

/-- The blocks of a group that are sent.  Compressed data leaves out the static ones. -/
def sentBlocks (p : Plan) (group : BlockGroup) : List Block :=
  p.blocks.toList.filter fun b => b.group == group && !(p.compressed && b.isStatic)

/-- Writes the groups of blocks.  A second group without blocks is left out. -/
def putBlocks (p : Plan) (w : Writer) : Except Fault Writer := do
  let w ← BlockGroup.put w (p.sentBlocks .first)
  let second := p.sentBlocks .second
  if second.isEmpty then return w else BlockGroup.put w second

/-- Writes display management data. -/
def putColor (p : Plan) (w : Writer) : Except Fault Writer := do
  let color := p.metadata.color
  let w ← w.putUnsignedCode color.id.toNat
  let w ← w.putUnsignedCode color.id.toNat
  let w ← w.putUnsignedCode color.sceneRefresh.toNat
  let w ← if p.compressed then pure w else w.putFields color.fields
  p.putBlocks w

/-- Writes the flags behind the header. -/
def putFlags (p : Plan) (w : Writer) : Except Fault Writer := do
  let w ← w.putFlag p.hasColor
  let w ← w.putFlag p.reuses
  if p.configured = .none then return w else w.putFlag p.compressed

/-- Writes the mapping behind its identifier, unless it is only referred to. -/
def putMapping (p : Plan) (w : Writer) : Except Fault Writer := do
  let w ← w.putUnsignedCode p.id.val
  if p.reuses then return w else Mapping.put p.metadata.header w p.metadata.mapping

/-- Writes an RPU up to its tail. -/
def put (p : Plan) (w : Writer) : Except Fault Writer := do
  let w ← p.metadata.header.put w
  let w ← p.putFlags w
  let w ← p.putMapping w
  if p.hasColor then p.putColor w else return w

/-- The RPU, with its tail. -/
def rpu (p : Plan) : Except Fault (List UInt8) := do
  let w ← p.put Writer.empty
  return Tail.attach (← w.finish)

end Plan

/-- Wraps an RPU as the options say. -/
def EncodeOptions.wrap (options : EncodeOptions) (rpu : List UInt8) : Except Fault (List UInt8) :=
  if options.t35 then T35.wrap rpu
  else if options.nal then return Nal.wrap rpu
  else return rpu

namespace Stream

/-- The slots after an RPU.  Only extended compression lets a mapping stay in a slot that the RPU
does not use. -/
def slotsAfter (s : Stream) (p : Plan) : Slots :=
  let sent := if p.reuses then s.slots else s.slots.keep p.id p.metadata.mapping
  if p.compression = .extended then sent else Slots.empty.set p.id sent[p.id]

/-- The state after an RPU was written. -/
def commit (s : Stream) (p : Plan) : Stream :=
  let s := { s with
    header := p.metadata.header
    active := some p.id
    slots := s.slotsAfter p }
  if p.hasColor then
    { s with
      color := some p.metadata.color
      view := .sent
      blocks := if p.blocks.isEmpty then none else some p.blocks }
  else
    { s with view := .assumed, blocks := none }

/-- Encodes the metadata of a frame.  Without metadata there is nothing to write. -/
def encode (s : Stream) (m : Option Metadata) (options : EncodeOptions) :
    Outcome Stream (List UInt8) :=
  match m with
  | none => ⟨.ok [], s, []⟩
  | some m =>
    let written := do
      let p ← s.plan m options
      let rpu ← p.rpu
      let out ← options.wrap rpu
      return (p, rpu, out)
    match written with
    | .error fault => ⟨.error fault, s, []⟩
    | .ok (p, rpu, out) => ⟨.ok out, s.commit p, [.generated rpu.length]⟩

end Stream

end DolbyVision
