/-
**Decoding an RPU.**

An RPU has a header, a mapping or the number of an earlier one, and possibly display management
data: a color description or a reference to the last one, and extension blocks.  `Stream.decode`
unwraps an RPU, checks its tail, and gives the state that results.  An RPU with a fault leaves a
flushed state; an RPU of a type that is not known leaves the state as it was.

Main definitions:

* `DolbyVision.Stream.payload` — the RPU in what a container holds;
* `DolbyVision.Stream.readMapping`, `DolbyVision.Stream.readColor` — the two parts behind the
  header;
* `DolbyVision.Stream.readRpu` — an RPU from its first bit on;
* `DolbyVision.Stream.decode` — the whole operation.
-/

import DolbyVision.Container.Nal
import DolbyVision.Container.T35
import DolbyVision.Container.Tail
import DolbyVision.Rpu.Header
import DolbyVision.Rpu.Mapping
import DolbyVision.Rpu.SourceColor
import DolbyVision.Stream.Basic

set_option relaxedAutoImplicit false
set_option autoImplicit false

namespace DolbyVision.Stream

open Bits

/-- The type of an RPU that is understood. -/
def knownRpuType : UInt8 := 2

/-- The profile whose RPUs come in T.35 messages. -/
def t35Profile : UInt8 := 10

/-- The RPU in what a container of the stream holds. -/
def payload (s : Stream) (data : List UInt8) : Except Fault (List UInt8) :=
  if s.configuration.profile = t35Profile then T35.rpu data else Nal.rpu data

/-- Reads an identifier. -/
def readId : BitParser Id := do
  let id ← Reader.unsignedCode
  if h : id < maxId + 1 then
    return ⟨id, h⟩
  else
    throw (.malformed .rpuId)

/-- Whether metadata of the stream may refer to earlier metadata. -/
def compresses (s : Stream) : Bool :=
  s.configuration.compression != .none

/-- The profile of the stream, guessed from a header if the configuration has none. -/
def profileFor (s : Stream) (h : Header) : UInt8 :=
  if s.configuration.profile = 0 then h.guessedProfile else s.configuration.profile

/-- Checks that an RPU keeps to its profile.  The rules of compression are checked only by a careful
decoder. -/
def checkProfile (s : Stream) (strictness : Strictness) (h : Header) (reuses : Bool) :
    Decoder Unit := do
  let profile := s.profileFor h
  if profile = 5 ∧ h.usesNlq then
    Decoder.report .residualInProfile5
    throw (.malformed .residualInProfile5)
  if strictness.isCareful then
    if s.compresses ∧ profile < 8 then
      throw (.rejected .compressionForbiddenByProfile)
    if reuses ∧ !s.compresses then
      throw (.rejected .reuseWithoutCompression)

/-- The slot that a reference to a slot means: the slot itself or, if it is empty, slot 0. -/
def referredSlot (s : Stream) (id : Id) : Id :=
  if (s.slot id).isSome then id else 0

/-- Reads a mapping, or a reference to an earlier one, and makes it the one that holds. -/
def readMapping (s : Stream) (h : Header) (reuses : Bool) : Decoder Stream := do
  let id ← readId
  if reuses then
    let id := s.referredSlot id
    if (s.slot id).isNone then
      Decoder.report (.unknownPreviousId id.val)
      throw (.malformed .unknownPreviousId)
    return { s with active := some id }
  else
    let mapping ← Mapping.read h id.val h.usesNlq
    return { s with active := some id, slots := s.slots.keep id mapping }

/-- Reads the number that says whether a scene begins. -/
def readSceneRefresh : BitParser UInt8 := do
  let flag ← Reader.unsignedCode
  if 0xff < flag then
    throw (.malformed .sceneRefreshFlag)
  return UInt8.ofNat flag

/-- Reads the color description, which compressed data takes over from the last RPU that had one. -/
def readSourceColor (s : Stream) (compressed : Bool) (id : Id) : BitParser SourceColor := do
  let id := UInt8.ofNat id.val
  if compressed then
    match s.color with
    | none => throw (.malformed .compressedWithoutPrevious)
    | some color =>
      let sceneRefresh ← readSceneRefresh
      return { color with id, sceneRefresh }
  else
    let sceneRefresh ← readSceneRefresh
    SourceColor.read id sceneRefresh

/-- The number of bits behind the first group of blocks that can hold no second one. -/
def tailBits : Nat := 48

/-- Reads the blocks of both groups. -/
def readBlocks (compressed : Bool) (strictness : Strictness) (kept : BlockSet) :
    Decoder BlockSet := do
  let kept ← BlockGroup.first.read compressed strictness kept
  if tailBits < (← Decoder.bitsLeft) then
    BlockGroup.second.read compressed strictness kept
  else
    return kept

/-- Reads display management data.  Compressed data keeps the static blocks of the last RPU. -/
def readColor (s : Stream) (compressed : Bool) (strictness : Strictness) : Decoder Stream := do
  let affected ← readId
  let current ← readId
  if affected ≠ current then
    throw (.unsupported .mismatchedColorIds)
  let color ← s.readSourceColor compressed affected
  let static := if compressed then (s.blocks.map BlockSet.static).getD [] else []
  let blocks ← readBlocks compressed strictness { static }
  return { s with
    color := some color
    view := .sent
    blocks := if blocks.isEmpty then none else some blocks }

/-- Reads what follows the type of an RPU. -/
def readBody (s : Stream) (strictness : Strictness) (rpuType : UInt8) : Decoder Stream := do
  let header ← Header.read rpuType strictness
  let hasColor ← Reader.flag
  let reuses ← Reader.flag
  -- The third flag is there only in streams that compress.
  let compressed ← if s.compresses then Reader.flag else pure false
  s.checkProfile strictness header reuses
  let s ← s.readMapping header reuses
  let s ←
    if hasColor then s.readColor compressed strictness
    else pure { s with view := .assumed, blocks := none }
  return { s with header }

/-- Reads an RPU from its first bit on. -/
def readRpu (s : Stream) (strictness : Strictness) : Decoder Stream := do
  let rpuType ← Reader.u8 6
  if rpuType = knownRpuType then
    s.readBody strictness rpuType
  else
    Decoder.report (.unrecognizedRpuType rpuType)
    return s

/-- Decodes what a container of the stream holds. -/
def decode (s : Stream) (data : List UInt8) (strictness : Strictness) : Outcome Stream Unit :=
  match s.payload data with
  | .error fault => ⟨.error fault, s.flush, []⟩
  | .ok rpu =>
    match Tail.verify rpu strictness with
    | (.error fault, notes) => ⟨.error fault, s.flush, notes⟩
    | (.ok (), notes) =>
      match s.readRpu strictness ⟨Reader.ofBytes rpu, notes.toArray⟩ with
      | .ok s state => ⟨.ok (), s, state.notes.toList⟩
      | .error fault state => ⟨.error fault, s.flush, state.notes.toList⟩

end DolbyVision.Stream
